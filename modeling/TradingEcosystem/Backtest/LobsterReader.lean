import Mathlib.Data.List.AList
import TradingEcosystem.Exchange.Messages

namespace Backtest

open Common Exchange

def kAskOidOffset : ℕ := 600000

def kSentinel : ℤ := 9999999990

/-- `std::unordered_map<Price, Qty>`; the order of the entries is not read. -/
abbrev PriceMap := AList fun _ : ℤ => ℕ

structure Iteration where
  visit : PriceMap → PriceMap
  perm : ∀ m, (visit m).entries.Perm m.entries

structure HashOrder where
  prevBid : Iteration
  curBid : Iteration
  prevAsk : Iteration
  curAsk : Iteration

structure Message where
  ts : ℤ
  type : ℤ
  size : ℤ
  price : ℤ
  direction : ℤ
  deriving DecidableEq, Repr

/-- The numbers of a message line and of the orderbook line next to it; an empty token of the
orderbook line is `kSentinel`. -/
structure Row where
  message : Message
  orderbook : List ℤ
  deriving DecidableEq, Repr

/-- `std::llround(x / 100.0)`: halves go away from zero. -/
def toCents (x : ℤ) : ℤ := x.sign * ((x.natAbs + 50) / 100 : ℕ)

def toQty (x : ℤ) : ℕ := (x % 2 ^ 32).toNat

def levelOid (oidBase : ℕ) (px : ℤ) : ℕ := ((oidBase + px) % 2 ^ 64).toNat

def putLevel (m : PriceMap) (price size : ℤ) : PriceMap :=
  if |price| < kSentinel ∧ 0 < size then m.insert (toCents price) (toQty size) else m

def parseBook : List ℤ → PriceMap → PriceMap → PriceMap × PriceMap
  | askP :: askS :: bidP :: bidS :: v, bid, ask =>
      parseBook v (putLevel bid bidP bidS) (putLevel ask askP askS)
  | _, bid, ask => (bid, ask)

def Row.book (levels : ℕ) (row : Row) : PriceMap × PriceMap :=
  parseBook (row.orderbook.take (4 * levels)) ∅ ∅

def Row.bids (levels : ℕ) (row : Row) : PriceMap := (row.book levels).1

def Row.asks (levels : ℕ) (row : Row) : PriceMap := (row.book levels).2

structure LobsterReader where
  tickerId : ℕ
  levels : ℕ
  maxEvents : ℕ
  lines : List (Option Row)
  eof : Bool
  count : ℕ
  nextPriority : ℕ
  prevBid : PriceMap
  prevAsk : PriceMap
  pending : List (ℤ × MEMarketUpdate)

namespace LobsterReader

/-- A line pair with an empty line in it is `none`. -/
def new (tickerId levels maxEvents : ℕ) (lines : List (Option Row)) : LobsterReader :=
  ⟨tickerId, levels, maxEvents, lines, false, 0, 1, ∅, ∅, []⟩

variable (tickerId : ℕ) (side : Side) (oidBase : ℕ)

def makeUpd (type : MarketUpdateType) (orderId : ℕ) (side : Side) (price : ℤ) (qty priority : ℕ) :
    MEMarketUpdate :=
  ⟨type, orderId, tickerId, side, price, qty, priority⟩

def tradePrint (msg : Message) : List MEMarketUpdate :=
  if msg.type = 4 ∨ msg.type = 5 then
    [makeUpd tickerId .trade orderIdInvalid (if msg.direction = 1 then .sell else .buy)
      (toCents msg.price) (toQty msg.size) priorityInvalid]
  else []

def cancels (cur : PriceMap) : List (Σ _ : ℤ, ℕ) → List MEMarketUpdate
  | [] => []
  | ⟨px, _⟩ :: prev =>
      if (cur.lookup px).isSome then cancels cur prev
      else makeUpd tickerId .cancel (levelOid oidBase px) side px 0 priorityInvalid ::
        cancels cur prev

def addsAndModifies (prev : PriceMap) :
    List (Σ _ : ℤ, ℕ) → ℕ → List MEMarketUpdate × ℕ
  | [], priority => ([], priority)
  | ⟨px, q⟩ :: cur, priority =>
      match prev.lookup px with
      | none =>
          let r := addsAndModifies prev cur ((priority + 1) % 2 ^ 64)
          (makeUpd tickerId .add (levelOid oidBase px) side px q priority :: r.1, r.2)
      | some q' =>
          let r := addsAndModifies prev cur priority
          if q' = q then r
          else (makeUpd tickerId .modify (levelOid oidBase px) side px q priorityInvalid :: r.1, r.2)

def diffSide (prev cur : PriceMap) (visitPrev visitCur : Iteration) (priority : ℕ) :
    List MEMarketUpdate × ℕ :=
  let r := addsAndModifies tickerId side oidBase prev (visitCur.visit cur).entries priority
  (cancels tickerId side oidBase cur (visitPrev.visit prev).entries ++ r.1, r.2)

end LobsterReader

open LobsterReader in
def LobsterReader.fillRow (r : LobsterReader) (hash : HashOrder) (row : Row) : LobsterReader :=
  let curBid := row.bids r.levels
  let curAsk := row.asks r.levels
  let bid := diffSide r.tickerId .buy 0 r.prevBid curBid hash.prevBid hash.curBid r.nextPriority
  let ask := diffSide r.tickerId .sell kAskOidOffset r.prevAsk curAsk hash.prevAsk hash.curAsk bid.2
  let queued := tradePrint r.tickerId row.message ++ bid.1 ++ ask.1
  { r with
    nextPriority := ask.2
    prevBid := curBid
    prevAsk := curAsk
    pending := r.pending ++ queued.map fun u => (row.message.ts, u) }

namespace LobsterReader

def fillStep (r : LobsterReader) (hash : HashOrder) : LobsterReader × Bool :=
  if r.eof then (r, false)
  else if r.maxEvents ≠ 0 ∧ r.maxEvents ≤ r.count then ({ r with eof := true }, false)
  else match r.lines with
    | [] => ({ r with eof := true }, false)
    | none :: lines => ({ r with lines := lines }, true)
    | some row :: lines => ({ r with lines := lines, count := r.count + 1 }.fillRow hash row, true)

end LobsterReader

end Backtest

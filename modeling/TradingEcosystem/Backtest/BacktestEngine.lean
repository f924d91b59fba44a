import TradingEcosystem.Trading.MarketOrderBook
import TradingEcosystem.Trading.OrderManager

namespace Backtest

open Common Exchange Trading

structure BookTopEvent where
  eventNs : ℤ
  bidPrice : ℤ
  bidQty : ℕ
  askPrice : ℤ
  askQty : ℕ
  deriving DecidableEq, Repr

structure TradeEvent where
  eventNs : ℤ
  price : ℤ
  qty : ℕ
  side : Side
  deriving DecidableEq, Repr

inductive TapeEvent where
  | book (ev : BookTopEvent)
  | trade (ev : TradeEvent)
  | update (eventNs : ℤ) (u : MEMarketUpdate)
  deriving DecidableEq, Repr

structure LiveAlgoOrder where
  orderId : ℕ
  price : ℤ
  side : Side
  leaves : ℕ
  ahead : ℕ
  createdNs : ℤ
  deriving DecidableEq, Repr

def LiveAlgoOrder.default : LiveAlgoOrder := ⟨orderIdInvalid, priceInvalid, .invalid, 0, 0, 0⟩

/-- What the harness calls of a `TradeEngine`; a market update answers with the requests the
strategy wrote to `client_requests_`. -/
structure EngineCalls (E : Type) where
  onMarketUpdate : E → MEMarketUpdate → Outcome (E × List MEClientRequest)
  getBBO : E → ℕ → Outcome BBO
  onOrderUpdate : E → MEClientResponse → Outcome E

structure BacktestEngine (E : Type) where
  tickerId : ℕ
  engine : E
  clientRequests : List MEClientRequest
  clientResponses : List MEClientResponse
  nextSynthOid : ℕ
  restingBidOid : ℕ
  restingAskOid : ℕ
  lastBidPrice : ℤ
  lastAskPrice : ℤ
  lastBidQty : ℕ
  lastAskQty : ℕ
  live : ℕ → ℕ → LiveAlgoOrder
  numFills : ℕ
  numRequotes : ℕ

namespace BacktestEngine

variable {E : Type}

def new (tickerId : ℕ) (engine : E) : BacktestEngine E where
  tickerId := tickerId
  engine := engine
  clientRequests := []
  clientResponses := []
  nextSynthOid := 500000
  restingBidOid := orderIdInvalid
  restingAskOid := orderIdInvalid
  lastBidPrice := priceInvalid
  lastAskPrice := priceInvalid
  lastBidQty := 0
  lastAskQty := 0
  live := fun _ _ => LiveAlgoOrder.default
  numFills := 0
  numRequotes := 0

section Slots

variable (e : BacktestEngine E) (side : Side)

def slot : LiveAlgoOrder := e.live e.tickerId (sideToIndex side)

def putSlot (tickerId : ℕ) (o : LiveAlgoOrder) : BacktestEngine E :=
  { e with live := fun t i => if t = tickerId ∧ i = sideToIndex side then o else e.live t i }

def setSlot (o : LiveAlgoOrder) : BacktestEngine E := e.putSlot side e.tickerId o

def publishResponse (r : MEClientResponse) : BacktestEngine E :=
  { e with clientResponses := e.clientResponses ++ [r] }

def fill (price : ℤ) (qty : ℕ) : BacktestEngine E :=
  let o := e.slot side
  let fillQty := min o.leaves qty
  let leaves := o.leaves - fillQty
  let e := e.setSlot side (if leaves = 0 then .default else { o with leaves := leaves })
  { e with numFills := e.numFills + 1 }.publishResponse
    ⟨.filled, 1, e.tickerId, o.orderId, o.orderId, side, price, fillQty, leaves⟩

def withdraw : BacktestEngine E :=
  let o := e.slot side
  (e.setSlot side .default).publishResponse
    ⟨.canceled, 1, e.tickerId, o.orderId, o.orderId, side, o.price, 0, 0⟩

def sweep (price : ℤ) (qty : ℕ) : BacktestEngine E :=
  if 0 < (e.slot side).ahead then e.withdraw side else e.fill side price qty

end Slots

def sweepBid (e : BacktestEngine E) : BacktestEngine E := e.sweep .buy e.lastAskPrice e.lastAskQty

def sweepAsk (e : BacktestEngine E) : BacktestEngine E := e.sweep .sell e.lastBidPrice e.lastBidQty

def matchBidAgainstBBO (e : BacktestEngine E) : BacktestEngine E :=
  if 0 < (e.slot .buy).leaves ∧ e.lastAskPrice ≠ priceInvalid ∧ (e.slot .buy).price ≥ e.lastAskPrice
  then e.sweepBid else e

def matchAskAgainstBBO (e : BacktestEngine E) : BacktestEngine E :=
  if 0 < (e.slot .sell).leaves ∧ e.lastBidPrice ≠ priceInvalid ∧
    (e.slot .sell).price ≤ e.lastBidPrice
  then e.sweepAsk else e

def matchAgainstBBO (e : BacktestEngine E) : Outcome (BacktestEngine E) := do
  require (e.tickerId < meMaxTickers) .outOfRange
  pure e.matchBidAgainstBBO.matchAskAgainstBBO

/-- The volume `qty` prints at or through the quote on `side`. Sizes are below `2 ^ 32`, where the
`double` the source computes with is exact. -/
def burn (e : BacktestEngine E) (side : Side) (qty : ℕ) : BacktestEngine E :=
  let o := e.slot side
  let eat := min o.ahead qty
  let e := e.setSlot side { o with ahead := o.ahead - eat }
  if 0 < qty - eat ∧ o.ahead - eat = 0 then e.fill side o.price (qty - eat) else e

def matchAgainstTrade (e : BacktestEngine E) (ev : TradeEvent) : Outcome (BacktestEngine E) := do
  require (e.tickerId < meMaxTickers) .outOfRange
  if ev.side = .buy then
    pure (if 0 < (e.slot .sell).leaves ∧ ev.price ≥ (e.slot .sell).price then e.burn .sell ev.qty
      else e)
  else if ev.side = .sell then
    pure (if 0 < (e.slot .buy).leaves ∧ ev.price ≤ (e.slot .buy).price then e.burn .buy ev.qty
      else e)
  else pure e

def queueAhead (e : BacktestEngine E) (side : Side) (price : ℤ) : ℕ :=
  if side = .buy then if price = e.lastBidPrice then e.lastBidQty else 0
  else if price = e.lastAskPrice then e.lastAskQty else 0

def pumpRequest (nowNs : ℤ) (e : BacktestEngine E) (req : MEClientRequest) :
    Outcome (BacktestEngine E) := do
  require (req.tickerId < meMaxTickers) .outOfRange
  require (sideToIndex req.side < sideToIndex .max + 1) .outOfRange
  if req.type = .new then
    let e := e.putSlot req.side req.tickerId
      ⟨req.orderId, req.price, req.side, req.qty, e.queueAhead req.side req.price, nowNs⟩
    pure ({ e with numRequotes := e.numRequotes + 1 }.publishResponse
      ⟨.accepted, req.clientId, req.tickerId, req.orderId, req.orderId, req.side, req.price, 0,
        req.qty⟩)
  else
    pure ((e.putSlot req.side req.tickerId .default).publishResponse
      ⟨.canceled, req.clientId, req.tickerId, req.orderId, req.orderId, req.side, req.price, 0,
        req.qty⟩)

def pumpRequests (nowNs : ℤ) : BacktestEngine E → List MEClientRequest → Outcome (BacktestEngine E)
  | e, [] => pure e
  | e, req :: reqs => do
      let e ← e.pumpRequest nowNs req
      pumpRequests nowNs e reqs

def pumpClientRequests (e : BacktestEngine E) (nowNs : ℤ) : Outcome (BacktestEngine E) :=
  pumpRequests nowNs { e with clientRequests := [] } e.clientRequests

variable (calls : EngineCalls E)

def answerAll : E → List MEClientResponse → Outcome E
  | engine, [] => pure engine
  | engine, r :: rs => do
      let engine ← calls.onOrderUpdate engine r
      answerAll engine rs

def pumpClientResponses (e : BacktestEngine E) : Outcome (BacktestEngine E) := do
  let engine ← answerAll calls e.engine e.clientResponses
  pure { e with engine := engine, clientResponses := [] }

def publishMarketUpdate (e : BacktestEngine E) (u : MEMarketUpdate) :
    Outcome (BacktestEngine E) := do
  let (engine, reqs) ← calls.onMarketUpdate e.engine u
  pure { e with engine := engine, clientRequests := e.clientRequests ++ reqs }

def bumpSynthOid (e : BacktestEngine E) : BacktestEngine E :=
  { e with nextSynthOid := if 900000 ≤ e.nextSynthOid + 1 then 500000 else e.nextSynthOid + 1 }

def bidChanged (e : BacktestEngine E) (ev : BookTopEvent) : Bool :=
  ev.bidPrice ≠ e.lastBidPrice || ev.bidQty ≠ e.lastBidQty

def askChanged (e : BacktestEngine E) (ev : BookTopEvent) : Bool :=
  ev.askPrice ≠ e.lastAskPrice || ev.askQty ≠ e.lastAskQty

def cancelBid (e : BacktestEngine E) : Outcome (BacktestEngine E) :=
  if e.restingBidOid ≠ orderIdInvalid then do
    let e ← e.publishMarketUpdate calls
      ⟨.cancel, e.restingBidOid, e.tickerId, .buy, e.lastBidPrice, e.lastBidQty, 0⟩
    pure { e with restingBidOid := orderIdInvalid }
  else pure e

def cancelAsk (e : BacktestEngine E) : Outcome (BacktestEngine E) :=
  if e.restingAskOid ≠ orderIdInvalid then do
    let e ← e.publishMarketUpdate calls
      ⟨.cancel, e.restingAskOid, e.tickerId, .sell, e.lastAskPrice, e.lastAskQty, 0⟩
    pure { e with restingAskOid := orderIdInvalid }
  else pure e

def publishBid (e : BacktestEngine E) (ev : BookTopEvent) : Outcome (BacktestEngine E) :=
  if ev.bidPrice ≠ priceInvalid then
    publishMarketUpdate calls { e.bumpSynthOid with restingBidOid := e.nextSynthOid }
      ⟨.add, e.nextSynthOid, e.tickerId, .buy, ev.bidPrice, ev.bidQty, 0⟩
  else pure e

def publishAsk (e : BacktestEngine E) (ev : BookTopEvent) : Outcome (BacktestEngine E) :=
  if ev.askPrice ≠ priceInvalid then
    publishMarketUpdate calls { e.bumpSynthOid with restingAskOid := e.nextSynthOid }
      ⟨.add, e.nextSynthOid, e.tickerId, .sell, ev.askPrice, ev.askQty, 0⟩
  else pure e

def addBid (ev : BookTopEvent) (e : BacktestEngine E) : Outcome (BacktestEngine E) := do
  let e ← e.publishBid calls ev
  pure { e with lastBidPrice := ev.bidPrice, lastBidQty := ev.bidQty }

def addAsk (ev : BookTopEvent) (e : BacktestEngine E) : Outcome (BacktestEngine E) := do
  let e ← e.publishAsk calls ev
  pure { e with lastAskPrice := ev.askPrice, lastAskQty := ev.askQty }

def whenever (c : Bool) (f : BacktestEngine E → Outcome (BacktestEngine E))
    (e : BacktestEngine E) : Outcome (BacktestEngine E) :=
  if c then f e else pure e

def quoteBookEvent (e : BacktestEngine E) (ev : BookTopEvent) : Outcome (BacktestEngine E) := do
  let bidChanged := e.bidChanged ev
  let askChanged := e.askChanged ev
  let e ← whenever bidChanged (cancelBid calls) e
  let e ← whenever askChanged (cancelAsk calls) e
  let e ← whenever bidChanged (addBid calls ev) e
  whenever askChanged (addAsk calls ev) e

def applyBookEvent (e : BacktestEngine E) (ev : BookTopEvent) : Outcome (BacktestEngine E) := do
  let e ← e.quoteBookEvent calls ev
  e.matchAgainstBBO

def applyTradeEvent (e : BacktestEngine E) (ev : TradeEvent) : Outcome (BacktestEngine E) := do
  let e ← e.publishMarketUpdate calls
    ⟨.trade, orderIdInvalid, e.tickerId, ev.side, ev.price, ev.qty, 0⟩
  e.matchAgainstTrade ev

def displayed (qty : ℕ) : ℕ := if qty = qtyInvalid then 0 else qty

def syncBBOFromBook (e : BacktestEngine E) : Outcome (BacktestEngine E) := do
  let bbo ← calls.getBBO e.engine e.tickerId
  pure { e with
    lastBidPrice := bbo.bidPrice
    lastAskPrice := bbo.askPrice
    lastBidQty := displayed bbo.bidQty
    lastAskQty := displayed bbo.askQty }

def applyUpdate (e : BacktestEngine E) (eventNs : ℤ) (u : MEMarketUpdate) :
    Outcome (BacktestEngine E) := do
  let e ← e.publishMarketUpdate calls u
  let e ← e.syncBBOFromBook calls
  if u.type = .trade then e.matchAgainstTrade ⟨eventNs, u.price, u.qty, u.side⟩
  else e.matchAgainstBBO

def applyEvent (e : BacktestEngine E) : TapeEvent → Outcome (BacktestEngine E)
  | .book ev => e.applyBookEvent calls ev
  | .trade ev => e.applyTradeEvent calls ev
  | .update eventNs u => e.applyUpdate calls eventNs u

end BacktestEngine

def TapeEvent.nowNs : TapeEvent → ℤ
  | .book ev => ev.eventNs
  | .trade ev => ev.eventNs
  | .update eventNs _ => eventNs

def TapeEvent.On (tickerId : ℕ) : TapeEvent → Prop
  | .update _ u => u.tickerId = tickerId
  | _ => True

instance (tickerId : ℕ) : (ev : TapeEvent) → Decidable (ev.On tickerId)
  | .update _ _ => inferInstanceAs (Decidable (_ = _))
  | .book _ => isTrue trivial
  | .trade _ => isTrue trivial

namespace BacktestEngine

variable {E : Type} (calls : EngineCalls E)

def step (e : BacktestEngine E) (ev : TapeEvent) : Outcome (BacktestEngine E) := do
  let e ← e.applyEvent calls ev
  let e ← e.pumpClientRequests ev.nowNs
  e.pumpClientResponses calls

/-- The loop of `run` on a tape of `book` and `trade` events, and of `runLobster` on one of
`update`s; the rows `recordPnL` writes are not part of the state. -/
def run : BacktestEngine E → List TapeEvent → Outcome (BacktestEngine E)
  | e, [] => pure e
  | e, ev :: tape => do
      let e ← e.step calls ev
      run e tape

end BacktestEngine

end Backtest

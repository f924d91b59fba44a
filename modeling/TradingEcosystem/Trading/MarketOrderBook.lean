import TradingEcosystem.Common.BookStore
import TradingEcosystem.Exchange.Messages

namespace Trading

open Common Exchange

abbrev MarketOrder := OrderInfo ℕ

structure BBO where
  bidPrice : ℤ
  askPrice : ℤ
  bidQty : ℕ
  askQty : ℕ
  deriving DecidableEq, Repr

def BBO.default : BBO := ⟨priceInvalid, priceInvalid, qtyInvalid, qtyInvalid⟩

def touchPrice (bbo : BBO) (side : Side) : ℤ := if side = .buy then bbo.bidPrice else bbo.askPrice

def touchQty (bbo : BBO) (side : Side) : ℕ := if side = .buy then bbo.bidQty else bbo.askQty

structure MarketOrderBook where
  tickerId : ℕ
  book : BookStore ℕ
  oidToOrder : ℕ → Option ℕ
  bbo : BBO

inductive Callback where
  | onTradeUpdate (u : MEMarketUpdate)
  | onOrderBookUpdate (tickerId : ℕ) (price : ℤ) (side : Side)
  deriving DecidableEq, Repr

namespace MarketOrderBook

def new (checked : Bool) (tickerId : ℕ) : MarketOrderBook where
  tickerId := tickerId
  book := BookStore.new checked orderIdInvalid
  oidToOrder := fun _ => none
  bbo := BBO.default

def putOrder (m : MarketOrderBook) (orderId : ℕ) (p : Option ℕ) : MarketOrderBook :=
  { m with oidToOrder := fun i => if i = orderId then p else m.oidToOrder i }

def setOrder (m : MarketOrderBook) (orderId : ℕ) (p : Option ℕ) : Outcome MarketOrderBook := do
  require (orderId < meMaxOrderIds) .outOfRange
  pure (m.putOrder orderId p)

def findOrder (m : MarketOrderBook) (orderId : ℕ) : Outcome ℕ := do
  require (orderId < meMaxOrderIds) .outOfRange
  deref (m.oidToOrder orderId)

def removeOrder (m : MarketOrderBook) (order : ℕ) : Outcome MarketOrderBook := do
  let book ← m.book.unlinkOrder order
  let o ← book.order order
  let m ← { m with book := book }.setOrder o.ids none
  let book ← m.book.deallocateOrder order
  pure { m with book := book }

def addOrder (m : MarketOrderBook) (order : ℕ) : Outcome MarketOrderBook := do
  let book ← m.book.linkOrder order
  let o ← book.order order
  { m with book := book }.setOrder o.ids (some order)

def sumQty (b : BookStore ℕ) (first : ℕ) : ℕ → ℕ → ℕ → Outcome ℕ
  | 0, _, _ => .error .outOfFuel
  | fuel + 1, order, qty =>
      if order = first then pure qty
      else do
        let o ← b.order order
        let next ← deref o.nextOrder
        sumQty b first fuel next ((qty + o.qty) % 2 ^ 32)

def levelQty (b : BookStore ℕ) (l : OrdersAtPrice) : Outcome ℕ := do
  let first ← deref l.firstOrder
  let o ← b.order first
  let next ← deref o.nextOrder
  sumQty b first b.orderPool.numElems next o.qty

def bestOf (b : BookStore ℕ) (side : Side) : Outcome (ℤ × ℕ) :=
  match b.head side with
  | none => pure (priceInvalid, qtyInvalid)
  | some best => do
      let l ← b.level best
      let qty ← levelQty b l
      pure (l.price, qty)

def updateBid (m : MarketOrderBook) (update : Bool) : Outcome MarketOrderBook :=
  if update then do
    let (price, qty) ← bestOf m.book .buy
    pure { m with bbo := { m.bbo with bidPrice := price, bidQty := qty } }
  else pure m

def updateAsk (m : MarketOrderBook) (update : Bool) : Outcome MarketOrderBook :=
  if update then do
    let (price, qty) ← bestOf m.book .sell
    pure { m with bbo := { m.bbo with askPrice := price, askQty := qty } }
  else pure m

def updateBBO (m : MarketOrderBook) (bid ask : Bool) : Outcome MarketOrderBook := do
  let m ← m.updateBid bid
  m.updateAsk ask

def reachesBest (side : Side) (price best : ℤ) : Bool :=
  if side = .buy then price ≥ best else price ≤ best

def sideUpdated (m : MarketOrderBook) (side : Side) (u : MEMarketUpdate) : Outcome Bool :=
  if u.side = side then
    match m.book.head side with
    | none => pure true
    | some best => do
        let l ← m.book.level best
        pure (reachesBest side u.price l.price)
  else pure false

def deallocateOrders (oidToOrder : ℕ → Option ℕ) : ℕ → BookStore ℕ → Outcome (BookStore ℕ)
  | 0, b => pure b
  | n + 1, b => do
      let b ← deallocateOrders oidToOrder n b
      match oidToOrder n with
      | none => pure b
      | some order => b.deallocateOrder order

def deallocateLevel (b : BookStore ℕ) (a : ℕ) : Outcome (BookStore ℕ) := do
  let pool ← b.ordersAtPricePool.deallocate a
  pure { b with ordersAtPricePool := pool }

def deallocateLevels (best : ℕ) : ℕ → BookStore ℕ → ℕ → Outcome (BookStore ℕ)
  | 0, _, _ => .error .outOfFuel
  | fuel + 1, b, a =>
      if a = best then pure b
      else do
        let b ← deallocateLevel b a
        -- the loop steps through the block it has just given back
        let l ← b.level a
        let next ← deref l.nextEntry
        deallocateLevels best fuel b next

def clearSide (b : BookStore ℕ) (side : Side) : Outcome (BookStore ℕ) :=
  match b.head side with
  | none => pure b
  | some best => do
      let l ← b.level best
      let next ← deref l.nextEntry
      let b ← deallocateLevels best (b.ordersAtPricePool.numElems + 1) b next
      deallocateLevel b best

def clear (m : MarketOrderBook) : Outcome MarketOrderBook := do
  let b ← deallocateOrders m.oidToOrder meMaxOrderIds m.book
  let b ← clearSide b .buy
  let b ← clearSide b .sell
  pure { m with book := { b with bidsByPrice := none, asksByPrice := none }
                oidToOrder := fun _ => none }

def mutate (m : MarketOrderBook) (u : MEMarketUpdate) : Outcome MarketOrderBook :=
  match u.type with
  | .add => do
      let (order, book) ← m.book.allocateOrder ⟨u.orderId, u.side, u.price, u.qty, u.priority⟩
      { m with book := book }.addOrder order
  | .modify => do
      let order ← m.findOrder u.orderId
      let book ← m.book.setQty order u.qty
      pure { m with book := book }
  | .cancel => do
      let order ← m.findOrder u.orderId
      m.removeOrder order
  | .clear => m.clear
  | _ => pure m

def onMarketUpdate (m : MarketOrderBook) (u : MEMarketUpdate) :
    Outcome (MarketOrderBook × Callback) := do
  let bidUpdated ← m.sideUpdated .buy u
  let askUpdated ← m.sideUpdated .sell u
  if u.type = .trade then pure (m, .onTradeUpdate u)
  else do
    let m ← m.mutate u
    let m ← m.updateBBO bidUpdated askUpdated
    pure (m, .onOrderBookUpdate u.tickerId u.price u.side)

def run (m : MarketOrderBook) : List MEMarketUpdate → Outcome MarketOrderBook
  | [] => pure m
  | u :: us => do
      let (m, _) ← m.onMarketUpdate u
      m.run us

end MarketOrderBook

end Trading

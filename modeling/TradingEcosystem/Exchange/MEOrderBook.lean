import TradingEcosystem.Common.BookStore
import TradingEcosystem.Exchange.Messages

namespace Exchange

open Common

structure MEOrderIds where
  tickerId : ℕ
  clientId : ℕ
  clientOrderId : ℕ
  marketOrderId : ℕ
  deriving DecidableEq, Repr

abbrev MEOrder := OrderInfo MEOrderIds

structure MEOrderBook where
  tickerId : ℕ
  book : BookStore MEOrderIds
  cidOidToOrder : ℕ → ℕ → Option ℕ
  nextMarketOrderId : ℕ

namespace MEOrderBook

def new (checked : Bool) (tickerId : ℕ) : MEOrderBook where
  tickerId := tickerId
  book := BookStore.new checked ⟨tickerIdInvalid, clientIdInvalid, orderIdInvalid, orderIdInvalid⟩
  cidOidToOrder := fun _ _ => none
  nextMarketOrderId := 1

def InRange (clientId orderId : ℕ) : Prop := clientId < meMaxNumClients ∧ orderId < meMaxOrderIds

instance (clientId orderId : ℕ) : Decidable (InRange clientId orderId) :=
  inferInstanceAs (Decidable (_ ∧ _))

def putOrder (b : MEOrderBook) (clientId orderId : ℕ) (p : Option ℕ) : MEOrderBook :=
  { b with cidOidToOrder := fun c o =>
      if c = clientId ∧ o = orderId then p else b.cidOidToOrder c o }

def setOrder (b : MEOrderBook) (clientId orderId : ℕ) (p : Option ℕ) : Outcome MEOrderBook := do
  require (InRange clientId orderId) .outOfRange
  pure (b.putOrder clientId orderId p)

def generateNewMarketOrderId (b : MEOrderBook) : ℕ × MEOrderBook :=
  (b.nextMarketOrderId, { b with nextMarketOrderId := b.nextMarketOrderId + 1 })

def getNextPriority (b : MEOrderBook) (price : ℤ) : Outcome ℕ :=
  match b.book.getOrdersAtPrice price with
  | none => pure 1
  | some a => do
      let l ← b.book.level a
      let first ← deref l.firstOrder
      let f ← b.book.order first
      let last ← deref f.prevOrder
      let o ← b.book.order last
      pure ((o.priority + 1) % 2 ^ 64)

def removeOrder (b : MEOrderBook) (order : ℕ) : Outcome MEOrderBook := do
  let book ← b.book.unlinkOrder order
  let o ← book.order order
  let b ← { b with book := book }.setOrder o.ids.clientId o.ids.clientOrderId none
  let book ← b.book.deallocateOrder order
  pure { b with book := book }

def addOrder (b : MEOrderBook) (order : ℕ) : Outcome MEOrderBook := do
  let book ← b.book.linkOrder order
  let o ← book.order order
  { b with book := book }.setOrder o.ids.clientId o.ids.clientOrderId (some order)

structure Aggressor where
  tickerId : ℕ
  clientId : ℕ
  side : Side
  clientOrderId : ℕ
  newMarketOrderId : ℕ

def fillEvents (g : Aggressor) (o : MEOrder) (fillQty leavesQty : ℕ) : List Event :=
  [.response ⟨.filled, g.clientId, g.tickerId, g.clientOrderId, g.newMarketOrderId, g.side, o.price,
      fillQty, leavesQty⟩,
    .response ⟨.filled, o.ids.clientId, g.tickerId, o.ids.clientOrderId, o.ids.marketOrderId, o.side,
      o.price, fillQty, o.qty - fillQty⟩,
    .update ⟨.trade, orderIdInvalid, g.tickerId, g.side, o.price, fillQty, priorityInvalid⟩]

def «match» (b : MEOrderBook) (g : Aggressor) (passiveOrder leavesQty : ℕ) :
    Outcome (MEOrderBook × ℕ × List Event) := do
  let o ← b.book.order passiveOrder
  let orderQty := o.qty
  let fillQty := min leavesQty orderQty
  let leavesQty := leavesQty - fillQty
  let book ← b.book.setQty passiveOrder (orderQty - fillQty)
  let b := { b with book := book }
  let fills := fillEvents g o.toOrderInfo fillQty leavesQty
  if orderQty - fillQty = 0 then do
    let b' ← b.removeOrder passiveOrder
    pure (b', leavesQty, fills ++ [.update ⟨.cancel, o.ids.marketOrderId, g.tickerId, o.side,
      o.price, orderQty, priorityInvalid⟩])
  else
    pure (b, leavesQty, fills ++ [.update ⟨.modify, o.ids.marketOrderId, g.tickerId, o.side,
      o.price, orderQty - fillQty, o.priority⟩])

def noMoreCrosses (side : Side) (price bestPrice : ℤ) : Prop :=
  if side = .buy then price < bestPrice else bestPrice < price

instance (side : Side) (price bestPrice : ℤ) : Decidable (noMoreCrosses side price bestPrice) :=
  inferInstanceAs (Decidable (if side = .buy then price < bestPrice else bestPrice < price))

/-- The two `while` loops of `checkForMatch` differ only in the side they walk and in the sense of
the price comparison. -/
def matchLoop (g : Aggressor) (price : ℤ) :
    ℕ → MEOrderBook → ℕ → Outcome (MEOrderBook × ℕ × List Event)
  | 0, _, _ => .error .outOfFuel
  | fuel + 1, b, leavesQty =>
      if leavesQty = 0 then pure (b, leavesQty, [])
      else
        match b.book.head g.side.opposite with
        | none => pure (b, leavesQty, [])
        | some best => do
            let l ← b.book.level best
            let first ← deref l.firstOrder
            let o ← b.book.order first
            if noMoreCrosses g.side price o.price then pure (b, leavesQty, [])
            else do
              let (b, leavesQty, events) ← b.match g first leavesQty
              let (b, leavesQty, more) ← matchLoop g price fuel b leavesQty
              pure (b, leavesQty, events ++ more)

def checkForMatch (b : MEOrderBook) (clientId clientOrderId tickerId : ℕ) (side : Side) (price : ℤ)
    (qty newMarketOrderId : ℕ) : Outcome (MEOrderBook × ℕ × List Event) :=
  -- the parameter has type `Qty`, so the id the aggressor's fills carry is cut to 32 bits
  let g : Aggressor := ⟨tickerId, clientId, side, clientOrderId, newMarketOrderId % 2 ^ 32⟩
  if side.IsBuyOrSell then matchLoop g price (b.book.orderPool.numElems + 1) b qty
  else pure (b, qty, [])

def rest (b : MEOrderBook) (clientId clientOrderId tickerId newMarketOrderId : ℕ) (side : Side)
    (price : ℤ) (leavesQty : ℕ) : Outcome (MEOrderBook × List Event) :=
  if leavesQty = 0 then pure (b, [])
  else do
    let priority ← b.getNextPriority price
    let (order, book) ← b.book.allocateOrder
      ⟨⟨tickerId, clientId, clientOrderId, newMarketOrderId⟩, side, price, leavesQty, priority⟩
    let b ← { b with book := book }.addOrder order
    pure (b, [.update ⟨.add, newMarketOrderId, tickerId, side, price, leavesQty, priority⟩])

def add (b : MEOrderBook) (clientId clientOrderId tickerId : ℕ) (side : Side) (price : ℤ)
    (qty : ℕ) : Outcome (MEOrderBook × List Event) := do
  let (newMarketOrderId, b) := b.generateNewMarketOrderId
  let accepted : Event := .response ⟨.accepted, clientId, tickerId, clientOrderId, newMarketOrderId,
    side, price, 0, qty⟩
  let (b, leavesQty, fills) ←
    b.checkForMatch clientId clientOrderId tickerId side price qty newMarketOrderId
  let (b, added) ← b.rest clientId clientOrderId tickerId newMarketOrderId side price leavesQty
  pure (b, accepted :: fills ++ added)

def findOrder (b : MEOrderBook) (clientId orderId : ℕ) : Outcome (Option ℕ) :=
  if clientId < meMaxNumClients then do
    require (orderId < meMaxOrderIds) .outOfRange
    pure (b.cidOidToOrder clientId orderId)
  else pure none

def cancel (b : MEOrderBook) (clientId orderId tickerId : ℕ) :
    Outcome (MEOrderBook × List Event) := do
  match ← b.findOrder clientId orderId with
  | none =>
      pure (b, [.response ⟨.cancelRejected, clientId, tickerId, orderId, orderIdInvalid, .invalid,
        priceInvalid, qtyInvalid, qtyInvalid⟩])
  | some a => do
      let o ← b.book.order a
      let b ← b.removeOrder a
      pure (b, [.update ⟨.cancel, o.ids.marketOrderId, tickerId, o.side, o.price, 0, o.priority⟩,
        .response ⟨.canceled, clientId, tickerId, orderId, o.ids.marketOrderId, o.side, o.price,
          qtyInvalid, o.qty⟩])

end MEOrderBook

end Exchange

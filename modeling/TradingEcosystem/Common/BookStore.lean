import TradingEcosystem.Common.MemPool
import TradingEcosystem.Common.Types

namespace Common

structure OrderInfo (ι : Type) where
  ids : ι
  side : Side
  price : ℤ
  qty : ℕ
  priority : ℕ
  deriving DecidableEq, Repr

def OrderInfo.withQty {ι : Type} (o : OrderInfo ι) (qty : ℕ) : OrderInfo ι := { o with qty := qty }

structure Order (ι : Type) extends OrderInfo ι where
  prevOrder : Option ℕ
  nextOrder : Option ℕ

structure OrdersAtPrice where
  side : Side
  price : ℤ
  firstOrder : Option ℕ
  prevEntry : Option ℕ
  nextEntry : Option ℕ

/-- The part of the state that `MEOrderBook` and `MarketOrderBook` declare alike, with the member
functions the two classes share word for word. Pointers into a pool are block indices. -/
structure BookStore (ι : Type) where
  ordersAtPricePool : MemPool OrdersAtPrice
  orderPool : MemPool (Order ι)
  bidsByPrice : Option ℕ
  asksByPrice : Option ℕ
  priceOrdersAtPrice : ℕ → Option ℕ

namespace BookStore

variable {ι : Type}

def new (checked : Bool) (ids : ι) : BookStore ι where
  ordersAtPricePool := MemPool.new meMaxPriceLevels ⟨.invalid, priceInvalid, none, none, none⟩ checked
  orderPool := MemPool.new meMaxOrderIds
    ⟨⟨ids, .invalid, priceInvalid, qtyInvalid, priorityInvalid⟩, none, none⟩ checked
  bidsByPrice := none
  asksByPrice := none
  priceOrdersAtPrice := fun _ => none

def head (b : BookStore ι) (side : Side) : Option ℕ :=
  if side = .buy then b.bidsByPrice else b.asksByPrice

def setHead (b : BookStore ι) (side : Side) (p : Option ℕ) : BookStore ι :=
  if side = .buy then { b with bidsByPrice := p } else { b with asksByPrice := p }

def getOrdersAtPrice (b : BookStore ι) (price : ℤ) : Option ℕ :=
  b.priceOrdersAtPrice (priceToIndex price)

def setOrdersAtPrice (b : BookStore ι) (price : ℤ) (p : Option ℕ) : BookStore ι :=
  { b with priceOrdersAtPrice := Function.update b.priceOrdersAtPrice (priceToIndex price) p }

def level (b : BookStore ι) (a : ℕ) : Outcome OrdersAtPrice := b.ordersAtPricePool.read a

def order (b : BookStore ι) (a : ℕ) : Outcome (Order ι) := b.orderPool.read a

def writeLevel (b : BookStore ι) (a : ℕ) (f : OrdersAtPrice → OrdersAtPrice) :
    Outcome (BookStore ι) := do
  let pool ← b.ordersAtPricePool.write a f
  pure { b with ordersAtPricePool := pool }

def writeOrder (b : BookStore ι) (a : ℕ) (f : Order ι → Order ι) : Outcome (BookStore ι) := do
  let pool ← b.orderPool.write a f
  pure { b with orderPool := pool }

def setPrevEntry (b : BookStore ι) (a : ℕ) (p : Option ℕ) : Outcome (BookStore ι) :=
  b.writeLevel a ({ · with prevEntry := p })

def setNextEntry (b : BookStore ι) (a : ℕ) (p : Option ℕ) : Outcome (BookStore ι) :=
  b.writeLevel a ({ · with nextEntry := p })

def setFirstOrder (b : BookStore ι) (a : ℕ) (p : Option ℕ) : Outcome (BookStore ι) :=
  b.writeLevel a ({ · with firstOrder := p })

def setPrevOrder (b : BookStore ι) (a : ℕ) (p : Option ℕ) : Outcome (BookStore ι) :=
  b.writeOrder a ({ · with prevOrder := p })

def setNextOrder (b : BookStore ι) (a : ℕ) (p : Option ℕ) : Outcome (BookStore ι) :=
  b.writeOrder a ({ · with nextOrder := p })

def setQty (b : BookStore ι) (a : ℕ) (qty : ℕ) : Outcome (BookStore ι) :=
  b.writeOrder a ({ · with qty := qty })

def addAfter (new target : OrdersAtPrice) : Bool :=
  (new.side = .sell && new.price > target.price) || (new.side = .buy && new.price < target.price)

def beats (new best : OrdersAtPrice) : Bool :=
  (new.side = .buy && new.price > best.price) || (new.side = .sell && new.price < best.price)

def findTarget (b : BookStore ι) (new : OrdersAtPrice) (best : ℕ) :
    ℕ → ℕ → Bool → Outcome (ℕ × Bool)
  | 0, _, _ => .error .outOfFuel
  | fuel + 1, target, after =>
      if after && target ≠ best then do
        let t ← b.level target
        if addAfter new t then do
          let next ← deref t.nextEntry
          findTarget b new best fuel next true
        else findTarget b new best fuel target false
      else .ok (target, after)

def insertionPoint (b : BookStore ι) (new : OrdersAtPrice) (best : ℕ) : Outcome (ℕ × Bool) := do
  let t ← b.level best
  if addAfter new t then do
    let target ← deref t.nextEntry
    let t ← b.level target
    b.findTarget new best (b.ordersAtPricePool.numElems + 1) target (addAfter new t)
  else b.findTarget new best (b.ordersAtPricePool.numElems + 1) best false

def insertAfter (b : BookStore ι) (new target : ℕ) : Outcome (BookStore ι) := do
  let b ← b.setPrevEntry new (some target)
  let t ← b.level target
  let next ← deref t.nextEntry
  let b ← b.setPrevEntry next (some new)
  let t ← b.level target
  let b ← b.setNextEntry new t.nextEntry
  b.setNextEntry target (some new)

def insertBefore (b : BookStore ι) (new target : ℕ) : Outcome (BookStore ι) := do
  let t ← b.level target
  let b ← b.setPrevEntry new t.prevEntry
  let b ← b.setNextEntry new (some target)
  let t ← b.level target
  let prev ← deref t.prevEntry
  let b ← b.setNextEntry prev (some new)
  b.setPrevEntry target (some new)

def wrapTarget (b : BookStore ι) (target best : ℕ) : Outcome ℕ :=
  if target = best then do
    let l ← b.level best
    deref l.prevEntry
  else pure target

def promote (b : BookStore ι) (n : OrdersAtPrice) (new target best : ℕ) :
    Outcome (BookStore ι) := do
  let l ← b.level best
  if beats n l then do
    let t ← b.level target
    let b ← b.setNextEntry target (if t.nextEntry = some best then some new else t.nextEntry)
    pure (b.setHead n.side (some new))
  else pure b

def addOrdersAtPrice (b : BookStore ι) (new : ℕ) : Outcome (BookStore ι) := do
  let n ← b.level new
  let b := b.setOrdersAtPrice n.price (some new)
  match b.head n.side with
  | none =>
      let b := b.setHead n.side (some new)
      let b ← b.setNextEntry new (some new)
      b.setPrevEntry new (some new)
  | some best =>
      let (target, after) ← b.insertionPoint n best
      if after then do
        let target ← b.wrapTarget target best
        b.insertAfter new target
      else do
        let b ← b.insertBefore new target
        b.promote n new target best

def unlinkLevel (b : BookStore ι) (side : Side) (a : ℕ) : Outcome (BookStore ι) := do
  let best := b.head side
  let l ← b.level a
  if l.nextEntry = some a then pure (b.setHead side none)
  else do
    let prev ← deref l.prevEntry
    let b ← b.setNextEntry prev l.nextEntry
    let l ← b.level a
    let next ← deref l.nextEntry
    let b ← b.setPrevEntry next l.prevEntry
    let l ← b.level a
    let b := if best = some a then b.setHead side l.nextEntry else b
    let b ← b.setNextEntry a none
    b.setPrevEntry a none

def removeOrdersAtPrice (b : BookStore ι) (side : Side) (price : ℤ) : Outcome (BookStore ι) := do
  let a ← deref (b.getOrdersAtPrice price)
  let b ← b.unlinkLevel side a
  let b := b.setOrdersAtPrice price none
  let pool ← b.ordersAtPricePool.deallocate a
  pure { b with ordersAtPricePool := pool }

def advanceFirst (b : BookStore ι) (a order : ℕ) (after : Option ℕ) : Outcome (BookStore ι) := do
  let l ← b.level a
  if l.firstOrder = some order then b.setFirstOrder a after else pure b

def unlinkOrder (b : BookStore ι) (order : ℕ) : Outcome (BookStore ι) := do
  let o ← b.order order
  let ordersAtPrice := b.getOrdersAtPrice o.price
  if o.prevOrder = some order then b.removeOrdersAtPrice o.side o.price
  else do
    let before := o.prevOrder
    let after := o.nextOrder
    let p ← deref before
    let b ← b.setNextOrder p after
    let s ← deref after
    let b ← b.setPrevOrder s before
    let a ← deref ordersAtPrice
    let b ← b.advanceFirst a order after
    let b ← b.setNextOrder order none
    b.setPrevOrder order none

def linkOrder (b : BookStore ι) (order : ℕ) : Outcome (BookStore ι) := do
  let o ← b.order order
  match b.getOrdersAtPrice o.price with
  | none =>
      let b ← b.setPrevOrder order (some order)
      let b ← b.setNextOrder order (some order)
      let (new, pool) ← b.ordersAtPricePool.allocate ⟨o.side, o.price, some order, none, none⟩
      { b with ordersAtPricePool := pool }.addOrdersAtPrice new
  | some a =>
      let l ← b.level a
      let first ← deref l.firstOrder
      let f ← b.order first
      let last ← deref f.prevOrder
      let b ← b.setNextOrder last (some order)
      let f ← b.order first
      let b ← b.setPrevOrder order f.prevOrder
      let b ← b.setNextOrder order (some first)
      b.setPrevOrder first (some order)

def allocateOrder (b : BookStore ι) (info : OrderInfo ι) : Outcome (ℕ × BookStore ι) := do
  let (order, pool) ← b.orderPool.allocate ⟨info, none, none⟩
  pure (order, { b with orderPool := pool })

def deallocateOrder (b : BookStore ι) (order : ℕ) : Outcome (BookStore ι) := do
  let pool ← b.orderPool.deallocate order
  pure { b with orderPool := pool }

end BookStore

end Common

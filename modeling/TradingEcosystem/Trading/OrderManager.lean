import TradingEcosystem.Common.Fault
import TradingEcosystem.Exchange.Messages

namespace Trading

open Common Exchange

def int32 (x : ℤ) : ℤ := x.bmod (2 ^ 32)

theorem int32_eq {x : ℤ} (h0 : -2 ^ 31 ≤ x) (h1 : x < 2 ^ 31) : int32 x = x := by
  simp only [int32, Int.bmod]
  split_ifs <;> omega

structure RiskCfg where
  maxOrderSize : ℕ
  maxPosition : ℕ

structure PositionInfo where
  position : ℤ
  volume : ℕ

def PositionInfo.addFill (p : PositionInfo) (r : MEClientResponse) : PositionInfo where
  position := int32 (p.position + int32 r.execQty * sideToValue r.side)
  volume := (p.volume + r.execQty) % 2 ^ 32

inductive RiskCheckResult where
  | invalid
  | orderTooLarge
  | positionTooLarge
  | lossTooLarge
  | allowed
  deriving DecidableEq, Repr

/-- `lossTooLarge` is the outcome of the comparison of `total_pnl_` with `max_loss_`. -/
def checkPreTradeRisk (position : ℤ) (cfg : RiskCfg) (lossTooLarge : Bool) (side : Side)
    (qty : ℕ) : RiskCheckResult :=
  if cfg.maxOrderSize < qty then .orderTooLarge
  else if int32 cfg.maxPosition < int32 |int32 (position + sideToValue side * int32 qty)| then
    .positionTooLarge
  else if lossTooLarge then .lossTooLarge
  else .allowed

inductive OMOrderState where
  | invalid
  | pendingNew
  | live
  | pendingCancel
  | dead
  deriving DecidableEq, Repr

structure OMOrder where
  tickerId : ℕ
  orderId : ℕ
  side : Side
  price : ℤ
  qty : ℕ
  orderState : OMOrderState
  deriving DecidableEq, Repr

def OMOrder.default : OMOrder :=
  ⟨tickerIdInvalid, orderIdInvalid, .invalid, priceInvalid, qtyInvalid, .invalid⟩

def OMOrder.onResponse (o : OMOrder) (r : MEClientResponse) : OMOrder :=
  match r.type with
  | .accepted => { o with orderState := .live }
  | .canceled => { o with orderState := .dead }
  | .filled =>
      { o with qty := r.leavesQty, orderState := if r.leavesQty = 0 then .dead else o.orderState }
  | .cancelRejected => o
  | .invalid => o

structure OrderManager where
  tickerSideOrder : ℕ → ℕ → OMOrder
  nextOrderId : ℕ
  hysteresisTicks : ℕ → ℤ

namespace OrderManager

def new (hysteresisTicks : ℕ → ℤ) : OrderManager := ⟨fun _ _ => OMOrder.default, 1, hysteresisTicks⟩

def slot (m : OrderManager) (tickerId : ℕ) (side : Side) : OMOrder :=
  m.tickerSideOrder tickerId (sideToIndex side)

def setSlot (m : OrderManager) (tickerId : ℕ) (side : Side) (o : OMOrder) : OrderManager :=
  { m with tickerSideOrder := fun t i =>
      if t = tickerId ∧ i = sideToIndex side then o else m.tickerSideOrder t i }

def onOrderUpdate (m : OrderManager) (r : MEClientResponse) : Outcome OrderManager := do
  require (r.tickerId < meMaxTickers) .outOfRange
  require (sideToIndex r.side < sideToIndex .max + 1) .outOfRange
  pure (m.setSlot r.tickerId r.side ((m.slot r.tickerId r.side).onResponse r))

def newOrder (m : OrderManager) (clientId tickerId : ℕ) (price : ℤ) (side : Side) (qty : ℕ) :
    OrderManager × List MEClientRequest :=
  ({ m.setSlot tickerId side ⟨tickerId, m.nextOrderId, side, price, qty, .pendingNew⟩ with
      nextOrderId := m.nextOrderId + 1 },
    [⟨.new, clientId, tickerId, m.nextOrderId, side, price, qty⟩])

def cancelOrder (m : OrderManager) (clientId tickerId : ℕ) (side : Side) :
    OrderManager × List MEClientRequest :=
  let order := m.slot tickerId side
  (m.setSlot tickerId side { order with orderState := .pendingCancel },
    [⟨.cancel, clientId, order.tickerId, order.orderId, order.side, order.price, order.qty⟩])

def moveOrder (m : OrderManager) (clientId tickerId : ℕ) (price : ℤ) (side : Side) (qty : ℕ)
    (risk : RiskCheckResult) : OrderManager × List MEClientRequest :=
  match (m.slot tickerId side).orderState with
  | .live =>
      let delta := if price = priceInvalid then priceInvalid
        else |(m.slot tickerId side).price - price|
      if m.hysteresisTicks tickerId < delta then m.cancelOrder clientId tickerId side
      else (m, [])
  | .invalid | .dead =>
      if price ≠ priceInvalid ∧ risk = .allowed then m.newOrder clientId tickerId price side qty
      else (m, [])
  | .pendingNew | .pendingCancel => (m, [])

def cancelLive (m : OrderManager) (clientId tickerId : ℕ) (side : Side) :
    OrderManager × List MEClientRequest :=
  if (m.slot tickerId side).orderState = .live then m.cancelOrder clientId tickerId side
  else (m, [])

end OrderManager

structure TradeEngine where
  clientId : ℕ
  orderManager : OrderManager
  positions : ℕ → PositionInfo
  riskCfg : ℕ → RiskCfg

namespace TradeEngine

def new (clientId : ℕ) (riskCfg : ℕ → RiskCfg) (hysteresisTicks : ℕ → ℤ) : TradeEngine :=
  ⟨clientId, OrderManager.new hysteresisTicks, fun _ => ⟨0, 0⟩, riskCfg⟩

def risk (e : TradeEngine) (tickerId : ℕ) (lossTooLarge : Bool) (side : Side) (qty : ℕ) :
    RiskCheckResult :=
  checkPreTradeRisk (e.positions tickerId).position (e.riskCfg tickerId) lossTooLarge side qty

def moveOrder (e : TradeEngine) (tickerId : ℕ) (price : ℤ) (side : Side) (qty : ℕ)
    (lossTooLarge : Bool) : TradeEngine × List MEClientRequest :=
  let r := e.orderManager.moveOrder e.clientId tickerId price side qty
    (e.risk tickerId lossTooLarge side qty)
  ({ e with orderManager := r.1 }, r.2)

def moveOrders (e : TradeEngine) (tickerId : ℕ) (bidPrice askPrice : ℤ) (clip : ℕ)
    (lossTooLarge : Bool) : Outcome (TradeEngine × List MEClientRequest) := do
  require (tickerId < meMaxTickers) .outOfRange
  let (e, bid) := e.moveOrder tickerId bidPrice .buy clip lossTooLarge
  let (e, ask) := e.moveOrder tickerId askPrice .sell clip lossTooLarge
  pure (e, bid ++ ask)

def cancelLive (e : TradeEngine) (tickerId : ℕ) (side : Side) :
    TradeEngine × List MEClientRequest :=
  let r := e.orderManager.cancelLive e.clientId tickerId side
  ({ e with orderManager := r.1 }, r.2)

def cancelOrders (e : TradeEngine) (tickerId : ℕ) : Outcome (TradeEngine × List MEClientRequest) := do
  require (tickerId < meMaxTickers) .outOfRange
  let (e, bid) := e.cancelLive tickerId .buy
  let (e, ask) := e.cancelLive tickerId .sell
  pure (e, bid ++ ask)

def addFill (e : TradeEngine) (r : MEClientResponse) : Outcome TradeEngine := do
  require (r.tickerId < meMaxTickers) .outOfRange
  pure { e with positions :=
    Function.update e.positions r.tickerId ((e.positions r.tickerId).addFill r) }

def onOrderUpdate (e : TradeEngine) (r : MEClientResponse) : Outcome TradeEngine := do
  let e ← if r.type = .filled then e.addFill r else pure e
  let m ← e.orderManager.onOrderUpdate r
  pure { e with orderManager := m }

end TradeEngine

section Slots

variable {m : OrderManager} {tickerId : ℕ} {side : Side} {o : OMOrder}

theorem sideToIndex_inj {a b : Side} (ha : a.IsBuyOrSell) (hb : b.IsBuyOrSell)
    (h : sideToIndex a = sideToIndex b) : a = b := by
  rcases ha with rfl | rfl <;> rcases hb with rfl | rfl <;> first | rfl | exact absurd h (by decide)

@[simp] theorem slot_setSlot (m : OrderManager) (tickerId : ℕ) (side : Side) (o : OMOrder) :
    (m.setSlot tickerId side o).slot tickerId side = o := by
  simp [OrderManager.slot, OrderManager.setSlot]

theorem slot_setSlot_of_ne (hs : side.IsBuyOrSell) {t : ℕ} {d : Side} (hd : d.IsBuyOrSell)
    (h : (t, d) ≠ (tickerId, side)) : (m.setSlot tickerId side o).slot t d = m.slot t d := by
  refine if_neg ?_
  rintro ⟨rfl, hi⟩
  exact h (by rw [sideToIndex_inj hd hs hi])

@[simp] theorem nextOrderId_setSlot (m : OrderManager) (tickerId : ℕ) (side : Side) (o : OMOrder) :
    (m.setSlot tickerId side o).nextOrderId = m.nextOrderId := rfl

@[simp] theorem setSlot_slot (m : OrderManager) (tickerId : ℕ) (side : Side) :
    m.setSlot tickerId side (m.slot tickerId side) = m := by
  have : (fun t i => if t = tickerId ∧ i = sideToIndex side then m.slot tickerId side
      else m.tickerSideOrder t i) = m.tickerSideOrder := by
    funext t i
    split_ifs with h
    · rw [h.1, h.2]
      rfl
    · rfl
  unfold OrderManager.setSlot
  rw [this]

@[simp] theorem orderId_onResponse (o : OMOrder) (r : MEClientResponse) :
    (o.onResponse r).orderId = o.orderId := by
  unfold OMOrder.onResponse
  cases r.type <;> rfl

theorem onResponse_accepted {o : OMOrder} {r : MEClientResponse} (h : r.type = .accepted) :
    o.onResponse r = { o with orderState := .live } := by
  simp [OMOrder.onResponse, h]

theorem onResponse_canceled {o : OMOrder} {r : MEClientResponse} (h : r.type = .canceled) :
    o.onResponse r = { o with orderState := .dead } := by
  simp [OMOrder.onResponse, h]

theorem onResponse_filled {o : OMOrder} {r : MEClientResponse} (h : r.type = .filled) :
    o.onResponse r = { o with
      qty := r.leavesQty, orderState := if r.leavesQty = 0 then .dead else o.orderState } := by
  simp [OMOrder.onResponse, h]

theorem OrderManager.onOrderUpdate_eq {m' : OrderManager} {r : MEClientResponse}
    (h : m.onOrderUpdate r = .ok m') :
    m' = m.setSlot r.tickerId r.side ((m.slot r.tickerId r.side).onResponse r) := by
  obtain ⟨_, -, h⟩ := bind_eq_ok.mp h
  obtain ⟨_, -, h⟩ := bind_eq_ok.mp h
  cases h
  rfl

theorem TradeEngine.onOrderUpdate_eq {e e' : TradeEngine} {r : MEClientResponse}
    (h : e.onOrderUpdate r = .ok e') :
    e' = { e with
      orderManager := e.orderManager.setSlot r.tickerId r.side
        ((e.orderManager.slot r.tickerId r.side).onResponse r)
      positions := if r.type = .filled then
        Function.update e.positions r.tickerId ((e.positions r.tickerId).addFill r)
        else e.positions } := by
  unfold TradeEngine.onOrderUpdate at h
  have hset {e₁ : TradeEngine} (h : (do
      let m ← e₁.orderManager.onOrderUpdate r
      pure { e₁ with orderManager := m }) = Except.ok e') :
      e' = { e₁ with
        orderManager := e₁.orderManager.setSlot r.tickerId r.side
          ((e₁.orderManager.slot r.tickerId r.side).onResponse r) } := by
    obtain ⟨m, hm, h⟩ := bind_eq_ok.mp h
    cases h
    rw [OrderManager.onOrderUpdate_eq hm]
  split_ifs at h ⊢ with hf
  · obtain ⟨e₁, he₁, h⟩ := bind_eq_ok.mp h
    obtain ⟨_, -, he₁⟩ := bind_eq_ok.mp he₁
    cases he₁
    exact hset h
  · obtain ⟨e₁, he₁, h⟩ := bind_eq_ok.mp h
    cases he₁
    exact hset h

theorem TradeEngine.onOrderUpdate_ok (e : TradeEngine) {r : MEClientResponse}
    (ht : r.tickerId < meMaxTickers) (hs : r.side.IsBuyOrSell ∨ r.side = .invalid) :
    ∃ e', e.onOrderUpdate r = .ok e' := by
  have hi : sideToIndex r.side < sideToIndex .max + 1 := by
    rcases hs with (hs | hs) | hs <;> rw [hs] <;> decide
  unfold TradeEngine.onOrderUpdate TradeEngine.addFill OrderManager.onOrderUpdate
  rw [require_of _ ht, require_of _ hi]
  split_ifs
  · exact ⟨_, rfl⟩
  · exact ⟨_, rfl⟩

theorem moveOrder_cases (m : OrderManager) (clientId tickerId : ℕ) (price : ℤ) (side : Side)
    (qty : ℕ) (risk : RiskCheckResult) :
    m.moveOrder clientId tickerId price side qty risk = (m, []) ∨
      (((m.slot tickerId side).orderState = .invalid ∨ (m.slot tickerId side).orderState = .dead) ∧
        price ≠ priceInvalid ∧ risk = .allowed ∧
        m.moveOrder clientId tickerId price side qty risk =
          m.newOrder clientId tickerId price side qty) ∨
      ((m.slot tickerId side).orderState = .live ∧
        m.moveOrder clientId tickerId price side qty risk = m.cancelOrder clientId tickerId side) := by
  unfold OrderManager.moveOrder
  cases hs : (m.slot tickerId side).orderState <;> dsimp only
  case invalid =>
    split_ifs with h
    · exact .inr (.inl ⟨.inl rfl, h.1, h.2, rfl⟩)
    · exact .inl rfl
  case pendingNew => exact .inl rfl
  case live =>
    split_ifs
    · exact .inr (.inr ⟨rfl, rfl⟩)
    · exact .inl rfl
    · exact .inr (.inr ⟨rfl, rfl⟩)
    · exact .inl rfl
  case pendingCancel => exact .inl rfl
  case dead =>
    split_ifs with h
    · exact .inr (.inl ⟨.inr rfl, h.1, h.2, rfl⟩)
    · exact .inl rfl

theorem cancelLive_cases (m : OrderManager) (clientId tickerId : ℕ) (side : Side) :
    ((m.slot tickerId side).orderState ≠ .live ∧ m.cancelLive clientId tickerId side = (m, [])) ∨
      ((m.slot tickerId side).orderState = .live ∧
        m.cancelLive clientId tickerId side = m.cancelOrder clientId tickerId side) := by
  unfold OrderManager.cancelLive
  split_ifs with h
  · exact .inr ⟨h, rfl⟩
  · exact .inl ⟨h, rfl⟩

end Slots

end Trading

import TradingEcosystem.Exchange.ClientOrders
import TradingEcosystem.Trading.OrderManager

namespace Trading

open Common Exchange

structure SlotView where
  order : OMOrder
  requests : List MEClientRequest
  responses : List MEClientResponse
  resting : List MEOrder

structure IsResponse (c t : ℕ) (d : Side) (type : ClientResponseType) (orderId : ℕ)
    (r : MEClientResponse) : Prop where
  type : r.type = type
  client : r.clientId = c
  ticker : r.tickerId = t
  side : r.side = d
  order : r.clientOrderId = orderId

inductive SlotStep (P : ℕ → Prop) (c t : ℕ) (d : Side) : SlotView → SlotView → Prop
  | stay (v : SlotView) : SlotStep P c t d v v
  | sendNew (v : SlotView) (id : ℕ) (price : ℤ) (qty : ℕ) (placed : P qty)
      (state : v.order.orderState = .invalid ∨ v.order.orderState = .dead) :
      SlotStep P c t d v ⟨⟨t, id, d, price, qty, .pendingNew⟩,
        v.requests ++ [⟨.new, c, t, id, d, price, qty⟩], v.responses, v.resting⟩
  | sendCancel (v : SlotView) (req : MEClientRequest) (state : v.order.orderState = .live)
      (type : req.type = .cancel) (id : req.orderId = v.order.orderId) :
      SlotStep P c t d v ⟨{ v.order with orderState := .pendingCancel }, v.requests ++ [req],
        v.responses, v.resting⟩
  | accept (order : OMOrder) (req : MEClientRequest) (reqs : List MEClientRequest)
      (resps fills : List MEClientResponse) (r : MEClientResponse) (q : ℕ) (os : List MEOrder)
      (type : req.type = .new) (head : IsResponse c t d .accepted req.orderId r)
      (tail : Fills c t d req.orderId req.qty fills q) (rests : Rests req.orderId req.price q os) :
      SlotStep P c t d ⟨order, req :: reqs, resps, []⟩ ⟨order, reqs, resps ++ r :: fills, os⟩
  | trade (v : SlotView) (fills : List MEClientResponse) (q q' : ℕ) (os : List MEOrder)
      (before : Rests v.order.orderId v.order.price q v.resting)
      (tail : Fills c t d v.order.orderId q fills q')
      (rests : Rests v.order.orderId v.order.price q' os) :
      SlotStep P c t d v ⟨v.order, v.requests, v.responses ++ fills, os⟩
  | cancel (order : OMOrder) (req : MEClientRequest) (reqs : List MEClientRequest)
      (resps : List MEClientResponse) (r : MEClientResponse) (o : MEOrder)
      (type : req.type = .cancel) (id : o.ids.clientOrderId = req.orderId)
      (head : IsResponse c t d .canceled req.orderId r) :
      SlotStep P c t d ⟨order, req :: reqs, resps, [o]⟩ ⟨order, reqs, resps ++ [r], []⟩
  | reject (order : OMOrder) (req : MEClientRequest) (reqs : List MEClientRequest)
      (resps : List MEClientResponse) (os : List MEOrder) (type : req.type = .cancel)
      (none : ∀ o ∈ os, o.ids.clientOrderId ≠ req.orderId) :
      SlotStep P c t d ⟨order, req :: reqs, resps, os⟩ ⟨order, reqs, resps, os⟩
  | deliver (order : OMOrder) (reqs : List MEClientRequest) (r : MEClientResponse)
      (resps : List MEClientResponse) (os : List MEOrder) :
      SlotStep P c t d ⟨order, reqs, r :: resps, os⟩ ⟨order.onResponse r, reqs, resps, os⟩

inductive SlotOk (c t : ℕ) (d : Side) : SlotView → Prop
  | idle {order : OMOrder} {reqs : List MEClientRequest}
      (state : order.orderState = .invalid ∨ order.orderState = .dead)
      (stale : ∀ r ∈ reqs, r.type = .cancel) : SlotOk c t d ⟨order, reqs, [], []⟩
  | newSent {order : OMOrder} {reqs : List MEClientRequest} {req : MEClientRequest}
      (named : order.tickerId = t ∧ order.side = d) (state : order.orderState = .pendingNew)
      (stale : ∀ r ∈ reqs, r.type = .cancel) (type : req.type = .new)
      (id : req.orderId = order.orderId) (price : req.price = order.price)
      (qty : req.qty = order.qty) : SlotOk c t d ⟨order, reqs ++ [req], [], []⟩
  | acked {order : OMOrder} {r : MEClientResponse} {fills : List MEClientResponse} {q : ℕ}
      {os : List MEOrder} (named : order.tickerId = t ∧ order.side = d)
      (state : order.orderState = .pendingNew) (head : IsResponse c t d .accepted order.orderId r)
      (tail : Fills c t d order.orderId order.qty fills q)
      (rests : Rests order.orderId order.price q os) : SlotOk c t d ⟨order, [], r :: fills, os⟩
  | live {order : OMOrder} {fills : List MEClientResponse} {q : ℕ} {os : List MEOrder}
      (named : order.tickerId = t ∧ order.side = d) (state : order.orderState = .live)
      (tail : Fills c t d order.orderId order.qty fills q)
      (rests : Rests order.orderId order.price q os) : SlotOk c t d ⟨order, [], fills, os⟩
  | cancelSent {order : OMOrder} {req : MEClientRequest} {fills : List MEClientResponse} {q : ℕ}
      {os : List MEOrder} (named : order.tickerId = t ∧ order.side = d)
      (state : order.orderState = .pendingCancel) (type : req.type = .cancel)
      (id : req.orderId = order.orderId) (tail : Fills c t d order.orderId order.qty fills q)
      (rests : Rests order.orderId order.price q os) : SlotOk c t d ⟨order, [req], fills, os⟩
  | canceled {order : OMOrder} {fills : List MEClientResponse} {r : MEClientResponse} {q : ℕ}
      (named : order.tickerId = t ∧ order.side = d) (state : order.orderState = .pendingCancel)
      (tail : Fills c t d order.orderId order.qty fills q) (pos : 0 < q)
      (last : IsResponse c t d .canceled order.orderId r) :
      SlotOk c t d ⟨order, [], fills ++ [r], []⟩
  | rejected {order : OMOrder} {fills : List MEClientResponse}
      (named : order.tickerId = t ∧ order.side = d) (state : order.orderState = .pendingCancel)
      (tail : Fills c t d order.orderId order.qty fills 0) : SlotOk c t d ⟨order, [], fills, []⟩

section SlotOk

variable {P : ℕ → Prop} {c t : ℕ} {d : Side} {v w : SlotView}

theorem SlotOk.rests (h : SlotOk c t d v) :
    ∃ q, Rests v.order.orderId v.order.price q v.resting := by
  cases h with
  | idle state stale => exact ⟨0, rests_nil.mpr rfl⟩
  | newSent named state stale type id price qty => exact ⟨0, rests_nil.mpr rfl⟩
  | acked named state head tail rests => exact ⟨_, rests⟩
  | live named state tail rests => exact ⟨_, rests⟩
  | cancelSent named state type id tail rests => exact ⟨_, rests⟩
  | canceled named state tail pos last => exact ⟨0, rests_nil.mpr rfl⟩
  | rejected named state tail => exact ⟨0, rests_nil.mpr rfl⟩

theorem SlotOk.open_of_resting (h : SlotOk c t d v) {o : MEOrder} (ho : o ∈ v.resting) :
    v.resting = [o] ∧ o.ids.clientOrderId = v.order.orderId ∧ o.price = v.order.price ∧
      v.order.orderState ≠ .invalid ∧ v.order.orderState ≠ .dead := by
  obtain ⟨q, hq⟩ := h.rests
  obtain ⟨x, hx, hid, hprice, -⟩ : ∃ x, v.resting = [x] ∧ x.ids.clientOrderId = v.order.orderId ∧
      x.price = v.order.price ∧ x.qty = q ∧ 0 < q :=
    hq.resolve_left fun h => List.not_mem_nil (h.2 ▸ ho)
  obtain rfl : o = x := List.mem_singleton.mp (hx ▸ ho)
  refine ⟨hx, hid, hprice, ?_⟩
  cases h with
  | idle state stale => cases ho
  | newSent named state stale type id price qty => cases ho
  | acked named state head tail rests => simp [state]
  | live named state tail rests => simp [state]
  | cancelSent named state type id tail rests => simp [state]
  | canceled named state tail pos last => cases ho
  | rejected named state tail => cases ho

theorem SlotOk.named (h : SlotOk c t d v)
    (ho : v.order.orderState ≠ .invalid ∧ v.order.orderState ≠ .dead) :
    v.order.tickerId = t ∧ v.order.side = d := by
  cases h with
  | idle state stale => exact absurd state (not_or.mpr ho)
  | newSent named => exact named
  | acked named => exact named
  | live named => exact named
  | cancelSent named => exact named
  | canceled named => exact named
  | rejected named => exact named

theorem SlotOk.resting_of_new (h : SlotOk c t d v) {req : MEClientRequest}
    {reqs : List MEClientRequest} (hreq : v.requests = req :: reqs) (hnew : req.type = .new) :
    v.resting = [] := by
  cases h with
  | idle state stale => rfl
  | newSent named state stale type id price qty => rfl
  | acked named state head tail rests => cases hreq
  | live named state tail rests => cases hreq
  | cancelSent named state type id tail rests =>
    obtain ⟨rfl, -⟩ := List.cons_eq_cons.mp hreq
    rw [type] at hnew
    cases hnew
  | canceled named state tail pos last => cases hreq
  | rejected named state tail => cases hreq

theorem SlotOk.pending_of_new (h : SlotOk c t d v) {req : MEClientRequest}
    (hreq : req ∈ v.requests) (hnew : req.type = .new) :
    v.order.orderState = .pendingNew ∧ v.order.price = req.price := by
  cases h with
  | idle state stale => simp [stale req hreq] at hnew
  | newSent named state stale type id price qty =>
    refine ⟨state, ?_⟩
    rcases List.mem_append.mp hreq with hstale | hlast
    · simp [stale req hstale] at hnew
    · rw [List.mem_singleton.mp hlast]
      exact price.symm
  | acked named state head tail rests => cases hreq
  | live named state tail rests => cases hreq
  | cancelSent named state type id tail rests =>
    rw [List.mem_singleton.mp hreq, type] at hnew
    cases hnew
  | canceled named state tail pos last => cases hreq
  | rejected named state tail => cases hreq

theorem SlotOk.head (h : SlotOk c t d v) {r : MEClientResponse} {rs : List MEClientResponse}
    (hr : v.responses = r :: rs) :
    r.clientOrderId = v.order.orderId ∧
      ((r.type = .accepted ∧ v.order.orderState = .pendingNew) ∨
        (r.type = .filled ∧
          (v.order.orderState = .live ∨ v.order.orderState = .pendingCancel) ∧
          0 < r.execQty ∧ r.execQty ≤ v.order.qty ∧ r.leavesQty = v.order.qty - r.execQty) ∨
        (r.type = .canceled ∧ v.order.orderState = .pendingCancel)) := by
  cases h with
  | idle state stale => cases hr
  | newSent named state stale type id price qty => cases hr
  | acked named state head tail rests =>
    obtain ⟨rfl, rfl⟩ := List.cons_eq_cons.mp hr
    exact ⟨head.order, .inl ⟨head.type, state⟩⟩
  | live named state tail rests =>
    subst hr
    cases tail with
    | cons head tail =>
      exact ⟨head.order, .inr (.inl ⟨head.type, .inl state, head.pos, head.le, head.leaves⟩)⟩
  | cancelSent named state type id tail rests =>
    subst hr
    cases tail with
    | cons head tail =>
      exact ⟨head.order, .inr (.inl ⟨head.type, .inr state, head.pos, head.le, head.leaves⟩)⟩
  | canceled named state tail pos last =>
    cases tail with
    | nil =>
      obtain ⟨rfl, rfl⟩ := List.cons_eq_cons.mp hr
      exact ⟨last.order, .inr (.inr ⟨last.type, state⟩)⟩
    | cons head tail =>
      obtain ⟨rfl, rfl⟩ := List.cons_eq_cons.mp hr
      exact ⟨head.order, .inr (.inl ⟨head.type, .inr state, head.pos, head.le, head.leaves⟩)⟩
  | rejected named state tail =>
    subst hr
    cases tail with
    | cons head tail =>
      exact ⟨head.order, .inr (.inl ⟨head.type, .inr state, head.pos, head.le, head.leaves⟩)⟩

theorem SlotOk.deliver {order : OMOrder} {reqs : List MEClientRequest} {r : MEClientResponse}
    {resps : List MEClientResponse} {os : List MEOrder}
    (h : SlotOk c t d ⟨order, reqs, r :: resps, os⟩) :
    SlotOk c t d ⟨order.onResponse r, reqs, resps, os⟩ := by
  generalize hv : SlotView.mk order reqs (r :: resps) os = v at h
  cases h with
  | idle state stale => cases hv
  | newSent named state stale type id price qty => cases hv
  | acked named state head tail rests =>
    cases hv
    rw [onResponse_accepted head.type]
    exact .live named rfl tail rests
  | live named state tail rests =>
    cases hv
    cases tail with
    | cons head tail =>
      rw [onResponse_filled head.type]
      by_cases h0 : r.leavesQty = 0
      · rw [h0] at tail ⊢
        obtain ⟨rfl, rfl⟩ := tail.zero
        rw [rests_zero] at rests
        subst rests
        exact .idle (.inr rfl) (by simp)
      · exact .live named (by simp [h0, state]) tail rests
  | cancelSent named state type id tail rests =>
    cases hv
    cases tail with
    | cons head tail =>
      rw [onResponse_filled head.type]
      by_cases h0 : r.leavesQty = 0
      · -- the CANCEL still under way is now stale
        rw [h0] at tail ⊢
        obtain ⟨rfl, rfl⟩ := tail.zero
        rw [rests_zero] at rests
        subst rests
        exact .idle (.inr rfl) (by simpa using type)
      · exact .cancelSent named (by simp [h0, state]) type id tail rests
  | canceled named state tail pos last =>
    cases tail with
    | nil =>
      cases hv
      rw [onResponse_canceled last.type]
      exact .idle (.inr rfl) (by simp)
    | cons head tail =>
      cases hv
      rw [onResponse_filled head.type]
      have h0 : r.leavesQty ≠ 0 := (tail.pos pos).ne'
      exact .canceled named (by simp [h0, state]) tail pos last
  | rejected named state tail =>
    cases hv
    cases tail with
    | cons head tail =>
      rw [onResponse_filled head.type]
      by_cases h0 : r.leavesQty = 0
      · rw [h0] at tail ⊢
        obtain ⟨rfl, -⟩ := tail.zero
        exact .idle (.inr rfl) (by simp)
      · exact .rejected named (by simp [h0, state]) tail

theorem SlotOk.sendNew (h : SlotOk c t d v) (id : ℕ) (price : ℤ) (qty : ℕ)
    (state : v.order.orderState = .invalid ∨ v.order.orderState = .dead) :
    SlotOk c t d ⟨⟨t, id, d, price, qty, .pendingNew⟩,
      v.requests ++ [⟨.new, c, t, id, d, price, qty⟩], v.responses, v.resting⟩ := by
  cases h with
  | idle state stale => exact .newSent ⟨rfl, rfl⟩ rfl stale rfl rfl rfl rfl
  | newSent named hs => simp [hs] at state
  | acked named hs => simp [hs] at state
  | live named hs => simp [hs] at state
  | cancelSent named hs => simp [hs] at state
  | canceled named hs => simp [hs] at state
  | rejected named hs => simp [hs] at state

theorem SlotOk.sendCancel (h : SlotOk c t d v) {req : MEClientRequest}
    (state : v.order.orderState = .live) (type : req.type = .cancel)
    (id : req.orderId = v.order.orderId) :
    SlotOk c t d ⟨{ v.order with orderState := .pendingCancel }, v.requests ++ [req],
      v.responses, v.resting⟩ := by
  cases h with
  | idle hs => rcases hs with hs | hs <;> simp [hs] at state
  | newSent named hs => simp [hs] at state
  | acked named hs => simp [hs] at state
  | live named hs tail rests => exact .cancelSent named rfl type id tail rests
  | cancelSent named hs => simp [hs] at state
  | canceled named hs => simp [hs] at state
  | rejected named hs => simp [hs] at state

theorem SlotOk.accept {order : OMOrder} {req : MEClientRequest} {reqs : List MEClientRequest}
    {resps fills : List MEClientResponse} {r : MEClientResponse} {q : ℕ} {os : List MEOrder}
    (h : SlotOk c t d ⟨order, req :: reqs, resps, []⟩) (type : req.type = .new)
    (head : IsResponse c t d .accepted req.orderId r)
    (tail : Fills c t d req.orderId req.qty fills q) (rests : Rests req.orderId req.price q os) :
    SlotOk c t d ⟨order, reqs, resps ++ r :: fills, os⟩ := by
  generalize hv : SlotView.mk order (req :: reqs) resps [] = v at h
  cases h with
  | idle state stale =>
    cases hv
    have := stale req (List.mem_cons_self ..)
    rw [type] at this
    cases this
  | @newSent _ stales last named state stale htype id price qty =>
    simp only [SlotView.mk.injEq] at hv
    obtain ⟨rfl, hreqs, rfl, -⟩ := hv
    cases stales with
    | nil =>
      obtain ⟨rfl, rfl⟩ := List.cons_eq_cons.mp hreqs
      rw [id, qty] at tail
      rw [id, price] at rests
      exact .acked named state (id ▸ head) tail rests
    | cons x xs =>
      obtain ⟨rfl, -⟩ := List.cons_eq_cons.mp hreqs
      have := stale req (List.mem_cons_self ..)
      rw [type] at this
      cases this
  | acked => cases hv
  | live => cases hv
  | cancelSent named state htype id htail hrests =>
    cases hv
    rw [type] at htype
    cases htype
  | canceled => cases hv
  | rejected => cases hv

theorem SlotOk.trade (h : SlotOk c t d v) {fills : List MEClientResponse} {q q' : ℕ}
    {os : List MEOrder} (before : Rests v.order.orderId v.order.price q v.resting)
    (more : Fills c t d v.order.orderId q fills q')
    (after : Rests v.order.orderId v.order.price q' os) :
    SlotOk c t d ⟨v.order, v.requests, v.responses ++ fills, os⟩ := by
  -- where nothing rests there is nothing to trade
  have hnil : v.resting = [] → fills = [] ∧ os = [] := by
    intro hv
    rw [hv, rests_nil] at before
    subst before
    obtain ⟨rfl, rfl⟩ := more.zero
    exact ⟨rfl, rests_zero.mp after⟩
  cases h with
  | idle state stale =>
    obtain ⟨rfl, rfl⟩ := hnil rfl
    exact .idle state stale
  | newSent named state stale type id price qty =>
    obtain ⟨rfl, rfl⟩ := hnil rfl
    exact .newSent named state stale type id price qty
  | acked named state head tail rests =>
    obtain rfl := before.eq rests
    exact .acked named state head (tail.append more) after
  | live named state tail rests =>
    obtain rfl := before.eq rests
    exact .live named state (tail.append more) after
  | cancelSent named state type id tail rests =>
    obtain rfl := before.eq rests
    exact .cancelSent named state type id (tail.append more) after
  | canceled named state tail pos last =>
    obtain ⟨rfl, rfl⟩ := hnil rfl
    rw [List.append_nil]
    exact .canceled named state tail pos last
  | rejected named state tail =>
    obtain ⟨rfl, rfl⟩ := hnil rfl
    rw [List.append_nil]
    exact .rejected named state tail

theorem SlotOk.cancel {order : OMOrder} {req : MEClientRequest} {reqs : List MEClientRequest}
    {resps : List MEClientResponse} {r : MEClientResponse} {o : MEOrder}
    (h : SlotOk c t d ⟨order, req :: reqs, resps, [o]⟩)
    (head : IsResponse c t d .canceled req.orderId r) :
    SlotOk c t d ⟨order, reqs, resps ++ [r], []⟩ := by
  generalize hv : SlotView.mk order (req :: reqs) resps [o] = v at h
  cases h with
  | idle => cases hv
  | newSent =>
    simp only [SlotView.mk.injEq] at hv
    cases hv.2.2.2
  | acked => cases hv
  | live => cases hv
  | cancelSent named state type id tail rests =>
    cases hv
    obtain ⟨-, -, -, rfl⟩ := rests.cons
    have hpos : 0 < o.qty := by
      rcases rests with ⟨-, h⟩ | ⟨_, _, _, _, _, h⟩
      · cases h
      · exact h
    exact .canceled named state tail hpos (id ▸ head)
  | canceled => cases hv
  | rejected => cases hv

theorem SlotOk.reject {order : OMOrder} {req : MEClientRequest} {reqs : List MEClientRequest}
    {resps : List MEClientResponse} {os : List MEOrder}
    (h : SlotOk c t d ⟨order, req :: reqs, resps, os⟩) (type : req.type = .cancel)
    (none : ∀ o ∈ os, o.ids.clientOrderId ≠ req.orderId) :
    SlotOk c t d ⟨order, reqs, resps, os⟩ := by
  generalize hv : SlotView.mk order (req :: reqs) resps os = v at h
  cases h with
  | idle state stale =>
    cases hv
    exact .idle state fun r hr => stale r (List.mem_cons_of_mem _ hr)
  | @newSent _ stales last named state stale htype id price qty =>
    simp only [SlotView.mk.injEq] at hv
    obtain ⟨rfl, hreqs, rfl, rfl⟩ := hv
    cases stales with
    | nil =>
      obtain ⟨rfl, -⟩ := List.cons_eq_cons.mp hreqs
      rw [htype] at type
      cases type
    | cons x xs =>
      obtain ⟨rfl, rfl⟩ := List.cons_eq_cons.mp hreqs
      exact .newSent named state (fun r hr => stale r (List.mem_cons_of_mem _ hr)) htype id price qty
  | acked => cases hv
  | live => cases hv
  | cancelSent named state htype id tail rests =>
    cases hv
    rcases rests with ⟨rfl, rfl⟩ | ⟨o, rfl, hid, -⟩
    · exact .rejected named state tail
    · exact absurd (hid.trans id.symm) (none o (List.mem_singleton_self o))
  | canceled => cases hv
  | rejected => cases hv

theorem SlotOk.step (h : SlotOk c t d v) (k : SlotStep P c t d v w) : SlotOk c t d w := by
  cases k with
  | stay => exact h
  | sendNew _ id price qty placed state => exact h.sendNew id price qty state
  | sendCancel _ req state type id => exact h.sendCancel state type id
  | accept order req reqs resps fills r q os type head tail rests =>
    exact h.accept type head tail rests
  | trade _ fills q q' os before tail rests => exact h.trade before tail rests
  | cancel order req reqs resps r o type id head => exact h.cancel head
  | reject order req reqs resps os type none => exact h.reject type none
  | deliver order reqs r resps os => exact h.deliver

theorem SlotOk.quiet (h : SlotOk c t d v) (hreq : v.requests = []) (hresp : v.responses = []) :
    ((v.order.orderState = .invalid ∨ v.order.orderState = .dead) ∧ v.resting = []) ∨
      (v.order.orderState = .live ∧
        Rests v.order.orderId v.order.price v.order.qty v.resting) ∨
      (v.order.orderState = .pendingCancel ∧ v.order.qty = 0 ∧ v.resting = []) := by
  cases h with
  | idle state stale => exact .inl ⟨state, rfl⟩
  | newSent named state stale type id price qty => simp at hreq
  | acked named state head tail rests => cases hresp
  | live named state tail rests =>
    subst hresp
    cases tail
    exact .inr (.inl ⟨state, rests⟩)
  | cancelSent named state type id tail rests => cases hreq
  | canceled named state tail pos last => simp at hresp
  | rejected named state tail =>
    subst hresp
    generalize OMOrder.qty _ = q at tail ⊢
    cases tail
    exact .inr (.inr ⟨state, rfl, rfl⟩)

def OMOrder.IsOpen (o : OMOrder) : Prop :=
  o.orderState = .pendingNew ∨ o.orderState = .live ∨ o.orderState = .pendingCancel

def OMOrder.Funded (o : OMOrder) : Prop := o.IsOpen → 0 < o.qty

theorem SlotStep.funded (h : SlotOk c t d v) (k : SlotStep P c t d v w) (hp : ∀ q, P q → 0 < q)
    (hf : v.order.Funded) : w.order.Funded := by
  cases k with
  | stay => exact hf
  | sendNew _ id price qty placed state => exact fun _ => hp qty placed
  | sendCancel _ req state type id => exact fun _ => hf (.inr (.inl state))
  | accept => exact hf
  | trade => exact hf
  | cancel => exact hf
  | reject => exact hf
  | deliver order reqs r resps os =>
    obtain ⟨-, ⟨htype, hs⟩ | ⟨htype, hs, -⟩ | ⟨htype, hs⟩⟩ := h.head rfl
    · rw [onResponse_accepted htype]
      exact fun _ => hf (.inl hs)
    · rw [onResponse_filled htype]
      by_cases h0 : r.leavesQty = 0
      · simp [OMOrder.Funded, OMOrder.IsOpen, h0]
      · exact fun _ => Nat.pos_of_ne_zero h0
    · rw [onResponse_canceled htype]
      simp [OMOrder.Funded, OMOrder.IsOpen]

def SlotView.Leaving (v : SlotView) : Prop :=
  (∀ r ∈ v.requests, r.type ≠ .new) ∧ (v.resting ≠ [] → v.order.orderState = .pendingCancel)

theorem SlotStep.leaving (h : SlotOk c t d v) (k : SlotStep P c t d v w) (hp : ∀ q, ¬ P q)
    (hl : v.Leaving) : w.Leaving := by
  obtain ⟨hnew, hrest⟩ := hl
  cases k with
  | stay => exact ⟨hnew, hrest⟩
  | sendNew _ id price qty placed state => exact absurd placed (hp qty)
  | sendCancel _ req state type id =>
    refine ⟨fun r hr => ?_, fun _ => rfl⟩
    rcases List.mem_append.mp hr with hr | hr
    · exact hnew r hr
    · rw [List.mem_singleton.mp hr, type]
      simp
  | accept order req reqs resps fills r q os type head tail rests =>
    exact absurd type (hnew req (List.mem_cons_self ..))
  | trade _ fills q q' os before tail rests =>
    refine ⟨hnew, fun hos => hrest fun hnil => hos ?_⟩
    rw [hnil, rests_nil] at before
    subst before
    obtain ⟨-, rfl⟩ := tail.zero
    exact rests_zero.mp rests
  | cancel order req reqs resps r o type id head =>
    exact ⟨fun r hr => hnew r (List.mem_cons_of_mem _ hr), fun h => absurd rfl h⟩
  | reject order req reqs resps os type none =>
    exact ⟨fun r hr => hnew r (List.mem_cons_of_mem _ hr), hrest⟩
  | deliver order reqs r resps os =>
    refine ⟨hnew, fun hos => ?_⟩
    have hs := hrest hos
    -- a fill that emptied the slot would have left nothing resting
    obtain ⟨o, ho⟩ := List.exists_mem_of_ne_nil _ hos
    have hopen := ((h.step (P := P) (.deliver order reqs r resps os)).open_of_resting ho).2.2.2.2
    obtain ⟨-, ⟨htype, hs'⟩ | ⟨htype, -⟩ | ⟨htype, -⟩⟩ := h.head rfl
    · exact absurd (hs.symm.trans hs') (by simp)
    · simp only [onResponse_filled htype] at hopen ⊢
      by_cases h0 : r.leavesQty = 0
      · exact absurd (if_pos h0) hopen
      · rw [if_neg h0]
        exact hs
    · exact absurd (by simp [onResponse_canceled htype]) hopen

theorem SlotOk.gone_of_leaving (h : SlotOk c t d v) (hl : v.Leaving) (hreq : v.requests = [])
    (hresp : v.responses = []) : v.resting = [] := by
  rcases h.quiet hreq hresp with ⟨-, h⟩ | ⟨hs, -⟩ | ⟨-, -, h⟩
  · exact h
  · by_contra hne
    exact absurd (hs.symm.trans (hl.2 hne)) (by simp)
  · exact h

end SlotOk

end Trading

import TradingEcosystem.Library.Trace
import TradingEcosystem.System.SlotProtocol

namespace Trading

open Common Exchange

structure Session where
  client : TradeEngine
  engine : MatchingEngine
  requests : List MEClientRequest
  responses : List MEClientResponse

inductive Action where
  | moveOrders (tickerId : ℕ) (bidPrice askPrice : ℤ) (clip : ℕ) (lossTooLarge : Bool)
  | cancelOrders (tickerId : ℕ)
  | exchange
  | other (req : MEClientRequest)
  | deliver
  deriving DecidableEq, Repr

def Action.Valid (c : ℕ) : Action → Prop
  | .moveOrders _ bidPrice askPrice clip _ =>
      (bidPrice = priceInvalid ∨ PriceInRange bidPrice) ∧
        (askPrice = priceInvalid ∨ PriceInRange askPrice) ∧ clip < 2 ^ 32
  | .other req => req.clientId ≠ c ∧ req.Admissible
  | _ => True

instance (c : ℕ) : (a : Action) → Decidable (a.Valid c)
  | .moveOrders .. => inferInstanceAs (Decidable (_ ∧ _ ∧ _))
  | .cancelOrders _ => isTrue trivial
  | .exchange => isTrue trivial
  | .other _ => inferInstanceAs (Decidable (_ ∧ _))
  | .deliver => isTrue trivial

namespace Session

def new (checked : Bool) (clientId : ℕ) (riskCfg : ℕ → RiskCfg) (hysteresisTicks : ℕ → ℤ) :
    Session :=
  ⟨TradeEngine.new clientId riskCfg hysteresisTicks, MatchingEngine.new checked, [], []⟩

def send (s : Session) (r : TradeEngine × List MEClientRequest) : Session :=
  { s with client := r.1, requests := s.requests ++ r.2 }

def process (s : Session) (req : MEClientRequest) : Outcome Session := do
  let (engine, events) ← s.engine.processClientRequest req
  pure { s with
    engine := engine
    responses := s.responses ++
      (clientResponses events).filter fun r => decide (r.clientId = s.client.clientId) }

def step (s : Session) : Action → Outcome Session
  | .moveOrders tickerId bidPrice askPrice clip lossTooLarge => do
      let r ← s.client.moveOrders tickerId bidPrice askPrice clip lossTooLarge
      pure (s.send r)
  | .cancelOrders tickerId => do
      let r ← s.client.cancelOrders tickerId
      pure (s.send r)
  | .exchange =>
      match s.requests with
      | [] => pure s
      | req :: reqs => { s with requests := reqs }.process req
  | .other req => s.process req
  | .deliver =>
      match s.responses with
      | [] => pure s
      | r :: responses => do
          let client ← s.client.onOrderUpdate r
          pure { s with client := client, responses := responses }

def run (s : Session) : List Action → Outcome Session
  | [] => pure s
  | a :: actions => do
      let s ← s.step a
      s.run actions

def Next (s : Session) (a : Action) (s' : Session) : Prop := s.step a = .ok s'

def slot (s : Session) (tickerId : ℕ) (side : Side) : OMOrder :=
  s.client.orderManager.slot tickerId side

def Quiet (s : Session) : Prop := s.requests = [] ∧ s.responses = []

end Session

def TradeEngine.Places (e : TradeEngine) (tickerId : ℕ) (price : ℤ) (side : Side) (qty : ℕ)
    (lossTooLarge : Bool) : Prop :=
  ((e.orderManager.slot tickerId side).orderState = .invalid ∨
    (e.orderManager.slot tickerId side).orderState = .dead) ∧
  price ≠ priceInvalid ∧ e.risk tickerId lossTooLarge side qty = .allowed

instance (e : TradeEngine) (tickerId : ℕ) (price : ℤ) (side : Side) (qty : ℕ)
    (lossTooLarge : Bool) : Decidable (e.Places tickerId price side qty lossTooLarge) :=
  inferInstanceAs (Decidable (_ ∧ _ ∧ _))

def Session.Places (s : Session) : Action → ℕ → Side → ℕ → Prop
  | .moveOrders tickerId bidPrice askPrice clip lossTooLarge, t, d, q =>
      t = tickerId ∧ q = clip ∧
        s.client.Places t (if d = .buy then bidPrice else askPrice) d clip lossTooLarge
  | _, _, _, _ => False

def slotRequests (t : ℕ) (d : Side) (reqs : List MEClientRequest) : List MEClientRequest :=
  reqs.filter fun r => decide (r.tickerId = t ∧ r.side = d)

def slotResponses (t : ℕ) (d : Side) (resps : List MEClientResponse) : List MEClientResponse :=
  resps.filter fun r => decide (r.tickerId = t ∧ r.side = d)

namespace Session

def view (s : Session) (B : IndexedBooks) (t : ℕ) (d : Side) : SlotView :=
  ⟨s.slot t d, slotRequests t d s.requests, slotResponses t d s.responses,
    ownSide s.client.clientId d (B t)⟩

structure Base (c : ℕ) (s : Session) (B : IndexedBooks) (owner : ℕ → ℕ × Side) : Prop where
  client : s.client.clientId = c
  refines : RefinesAll s.engine B
  exact : ∀ t, (B t).ExactFor c
  orders : ∀ t d, d.IsBuyOrSell → (s.slot t d).orderState ≠ .invalid →
    (s.slot t d).orderId < s.client.orderManager.nextOrderId ∧ owner (s.slot t d).orderId = (t, d)
  requests : ∀ r ∈ s.requests, r.Admissible ∧ r.clientId = c ∧ r.side.IsBuyOrSell ∧
    r.orderId < s.client.orderManager.nextOrderId ∧ owner r.orderId = (r.tickerId, r.side)
  responses : ∀ r ∈ s.responses, r.tickerId < meMaxTickers ∧
    (r.side.IsBuyOrSell ∨ r.type = .cancelRejected ∧ r.side = .invalid)

structure Inv (c : ℕ) (s : Session) (B : IndexedBooks) (owner : ℕ → ℕ × Side) : Prop
    extends Base c s B owner where
  slots : ∀ t d, d.IsBuyOrSell → SlotOk c t d (s.view B t d)

end Session

section Slots

variable {t : ℕ} {d : Side}

theorem slotRequests_append (xs ys : List MEClientRequest) :
    slotRequests t d (xs ++ ys) = slotRequests t d xs ++ slotRequests t d ys :=
  List.filter_append ..

theorem slotResponses_append (xs ys : List MEClientResponse) :
    slotResponses t d (xs ++ ys) = slotResponses t d xs ++ slotResponses t d ys :=
  List.filter_append ..

theorem slotRequests_cons (r : MEClientRequest) (rs : List MEClientRequest) :
    slotRequests t d (r :: rs) =
      if r.tickerId = t ∧ r.side = d then r :: slotRequests t d rs else slotRequests t d rs := by
  simp [slotRequests, List.filter_cons]

theorem slotResponses_cons (r : MEClientResponse) (rs : List MEClientResponse) :
    slotResponses t d (r :: rs) =
      if r.tickerId = t ∧ r.side = d then r :: slotResponses t d rs else slotResponses t d rs := by
  simp [slotResponses, List.filter_cons]

theorem slotResponses_sent {c ticker : ℕ} {events : List Event}
    (h : ∀ r ∈ clientResponses events, r.tickerId = ticker) :
    slotResponses t d ((clientResponses events).filter fun r => decide (r.clientId = c)) =
      if t = ticker then sentTo c d events else [] := by
  unfold slotResponses sentTo
  rw [List.filter_filter]
  split_ifs with ht
  · refine List.filter_congr fun r hr => ?_
    simp [h r hr, ht, Bool.and_comm]
  · refine List.filter_eq_nil_iff.mpr fun r hr => ?_
    simp [h r hr, Ne.symm ht]

end Slots

section Client

variable {c t : ℕ} {d : Side} {s : Session} {B : IndexedBooks} {owner : ℕ → ℕ × Side}

abbrev SlotSteps (P : ℕ → Prop) (c t : ℕ) (d : Side) : SlotView → SlotView → Prop :=
  Relation.ReflTransGen (SlotStep P c t d)

theorem SlotOk.steps {P : ℕ → Prop} {v w : SlotView} (h : SlotOk c t d v)
    (k : SlotSteps P c t d v w) : SlotOk c t d w := by
  induction k with
  | refl => exact h
  | tail _ hk ih => exact ih.step hk

theorem SlotSteps.keep {P : ℕ → Prop} {J : SlotView → Prop} {v w : SlotView}
    (k : SlotSteps P c t d v w) (h : SlotOk c t d v) (hj : J v)
    (hstep : ∀ v w, SlotOk c t d v → SlotStep P c t d v w → J v → J w) : J w := by
  have key : SlotOk c t d w ∧ J w := by
    induction k with
    | refl => exact ⟨h, hj⟩
    | tail _ hk ih => exact ⟨ih.1.step hk, hstep _ _ ih.1 hk ih.2⟩
  exact key.2

theorem SlotSteps.mono {P Q : ℕ → Prop} {v w : SlotView} (h : SlotSteps P c t d v w)
    (hpq : ∀ q, P q → Q q) : SlotSteps Q c t d v w := by
  refine Relation.ReflTransGen.mono (fun v w k => ?_) _ _ h
  cases k with
  | stay => exact .stay _
  | sendNew _ id price qty placed state => exact .sendNew _ id price qty (hpq qty placed) state
  | sendCancel _ req state type id => exact .sendCancel _ req state type id
  | accept order req reqs resps fills r q os type head tail rests =>
    exact .accept order req reqs resps fills r q os type head tail rests
  | trade _ fills q q' os before tail rests => exact .trade _ fills q q' os before tail rests
  | cancel order req reqs resps r o type id head =>
    exact .cancel order req reqs resps r o type id head
  | reject order req reqs resps os type none => exact .reject order req reqs resps os type none
  | deliver order reqs r resps os => exact .deliver order reqs r resps os

theorem Session.Inv.of_base {s' : Session} {B' : IndexedBooks} {owner' : ℕ → ℕ × Side}
    {P : ℕ → Side → ℕ → Prop} (h : s.Inv c B owner) (hb : s'.Base c B' owner')
    (hsteps : ∀ t d, d.IsBuyOrSell → SlotSteps (P t d) c t d (s.view B t d) (s'.view B' t d)) :
    s'.Inv c B' owner' :=
  ⟨hb, fun t d hd => (h.slots t d hd).steps (hsteps t d hd)⟩

theorem Session.view_send_of_ne {r : TradeEngine × List MEClientRequest} {t' : ℕ} {d' : Side}
    (hc : r.1.clientId = s.client.clientId)
    (hslot : r.1.orderManager.slot t' d' = s.slot t' d')
    (hreq : ∀ q ∈ r.2, ¬ (q.tickerId = t' ∧ q.side = d')) :
    (s.send r).view B t' d' = s.view B t' d' := by
  have hnil : slotRequests t' d' r.2 = [] :=
    List.filter_eq_nil_iff.mpr fun q hq => by simpa using hreq q hq
  simp only [Session.view, Session.send, Session.slot, slotRequests_append, hnil, List.append_nil,
    hslot, hc]

theorem Session.Inv.sendNew (h : s.Inv c B owner) (hc : c < meMaxNumClients)
    (hnext : s.client.orderManager.nextOrderId < meMaxOrderIds) (ht : t < meMaxTickers)
    (hd : d.IsBuyOrSell) {price : ℤ} (hp : PriceInRange price) {qty : ℕ} (hq : qty < 2 ^ 32)
    (hidle : (s.slot t d).orderState = .invalid ∨ (s.slot t d).orderState = .dead) :
    let r := s.client.orderManager.newOrder c t price d qty
    let s' := s.send ({ s.client with orderManager := r.1 }, r.2)
    s'.Base c B (Function.update owner s.client.orderManager.nextOrderId (t, d)) ∧
      ∀ t' d', d'.IsBuyOrSell →
        SlotSteps (fun q => t' = t ∧ d' = d ∧ q = qty) c t' d' (s.view B t' d')
          (s'.view B t' d') := by
  intro r s'
  have hslot : ∀ t' d', d'.IsBuyOrSell → (t', d') ≠ (t, d) → s'.slot t' d' = s.slot t' d' :=
    fun t' d' hd' hne => slot_setSlot_of_ne hd hd' hne
  have hself : s'.slot t d = ⟨t, s.client.orderManager.nextOrderId, d, price, qty, .pendingNew⟩ :=
    slot_setSlot ..
  have hnext' : s'.client.orderManager.nextOrderId = s.client.orderManager.nextOrderId + 1 := rfl
  have hupd : ∀ i, i < s.client.orderManager.nextOrderId →
      Function.update owner s.client.orderManager.nextOrderId (t, d) i = owner i :=
    fun i hi => Function.update_of_ne hi.ne _ _
  refine ⟨⟨h.client, h.refines, h.exact, ?_, ?_, h.responses⟩, ?_⟩
  · intro t' d' hd' hs
    rw [hnext']
    by_cases heq : (t', d') = (t, d)
    · obtain ⟨rfl, rfl⟩ := Prod.mk.inj heq
      rw [hself]
      exact ⟨Nat.lt_succ_self _, Function.update_self ..⟩
    · rw [hslot t' d' hd' heq] at hs ⊢
      obtain ⟨hlt, how⟩ := h.orders t' d' hd' hs
      exact ⟨hlt.trans (Nat.lt_succ_self _), (hupd _ hlt).trans how⟩
  · intro q hq'
    rw [hnext']
    rcases List.mem_append.mp hq' with hq' | hq'
    · obtain ⟨hadm, hqc, hqs, hlt, how⟩ := h.requests q hq'
      exact ⟨hadm, hqc, hqs, hlt.trans (Nat.lt_succ_self _), (hupd _ hlt).trans how⟩
    · rw [List.mem_singleton.mp hq']
      refine ⟨⟨ht, .inl rfl, ?_⟩, rfl, hd, Nat.lt_succ_self _, Function.update_self ..⟩
      exact ⟨hd, hp, ⟨hc, hnext⟩, hq⟩
  · intro t' d' hd'
    by_cases heq : (t', d') = (t, d)
    · obtain ⟨rfl, rfl⟩ := Prod.mk.inj heq
      refine .single ?_
      have hview : s'.view B t' d' = ⟨⟨t', s.client.orderManager.nextOrderId, d', price, qty,
          .pendingNew⟩, (s.view B t' d').requests ++ [⟨.new, c, t',
          s.client.orderManager.nextOrderId, d', price, qty⟩], (s.view B t' d').responses,
          (s.view B t' d').resting⟩ := by
        simp only [Session.view, hself]
        congr 1
        refine (slotRequests_append ..).trans ?_
        simp [r, OrderManager.newOrder, slotRequests]
      rw [hview]
      exact .sendNew _ _ _ _ ⟨rfl, rfl, rfl⟩ hidle
    · have hview : s'.view B t' d' = s.view B t' d' := by
        refine Session.view_send_of_ne rfl (hslot t' d' hd' heq) fun q hq' => ?_
        rw [List.mem_singleton.mp hq']
        rintro ⟨rfl, rfl⟩
        exact heq rfl
      rw [hview]

theorem Session.Inv.sendCancel (h : s.Inv c B owner) (hc : c < meMaxNumClients)
    (hnext : s.client.orderManager.nextOrderId ≤ meMaxOrderIds) (ht : t < meMaxTickers)
    (hd : d.IsBuyOrSell) (hlive : (s.slot t d).orderState = .live) :
    let r := s.client.orderManager.cancelOrder c t d
    let s' := s.send ({ s.client with orderManager := r.1 }, r.2)
    s'.Base c B owner ∧
      ∀ t' d', d'.IsBuyOrSell →
        SlotSteps (fun _ => False) c t' d' (s.view B t' d') (s'.view B t' d') := by
  intro r s'
  have hslot : ∀ t' d', d'.IsBuyOrSell → (t', d') ≠ (t, d) → s'.slot t' d' = s.slot t' d' :=
    fun t' d' hd' hne => slot_setSlot_of_ne hd hd' hne
  have hself : s'.slot t d = { s.slot t d with orderState := .pendingCancel } := slot_setSlot ..
  obtain ⟨hticker, hside⟩ : (s.slot t d).tickerId = t ∧ (s.slot t d).side = d :=
    (h.slots t d hd).named ⟨by simp [Session.view, hlive], by simp [Session.view, hlive]⟩
  obtain ⟨hlt, how⟩ := h.orders t d hd (by simp [hlive])
  refine ⟨⟨h.client, h.refines, h.exact, ?_, ?_, h.responses⟩, ?_⟩
  · intro t' d' hd' hs
    by_cases heq : (t', d') = (t, d)
    · obtain ⟨rfl, rfl⟩ := Prod.mk.inj heq
      rw [hself]
      exact ⟨hlt, how⟩
    · rw [hslot t' d' hd' heq] at hs ⊢
      exact h.orders t' d' hd' hs
  · intro q hq'
    rcases List.mem_append.mp hq' with hq' | hq'
    · exact h.requests q hq'
    · rw [List.mem_singleton.mp hq']
      refine ⟨⟨hticker.symm ▸ ht, .inr rfl, ?_⟩, rfl, hside.symm ▸ hd, hlt, ?_⟩
      · exact ⟨hc, hlt.trans_le hnext⟩
      · exact how.trans (Prod.ext hticker.symm hside.symm)
  · intro t' d' hd'
    by_cases heq : (t', d') = (t, d)
    · obtain ⟨rfl, rfl⟩ := Prod.mk.inj heq
      refine .single ?_
      have hview : s'.view B t' d' = ⟨{ s.slot t' d' with orderState := .pendingCancel },
          (s.view B t' d').requests ++ r.2, (s.view B t' d').responses,
          (s.view B t' d').resting⟩ := by
        simp only [Session.view, hself]
        congr 1
        refine (slotRequests_append ..).trans ?_
        congr 1
        refine List.filter_eq_self.mpr fun q hq' => ?_
        rw [List.mem_singleton.mp hq']
        simpa using ⟨hticker, hside⟩
      rw [hview]
      exact .sendCancel (s.view B t' d') _ hlive rfl rfl
    · have hview : s'.view B t' d' = s.view B t' d' := by
        refine Session.view_send_of_ne rfl (hslot t' d' hd' heq) fun q hq' => ?_
        rw [List.mem_singleton.mp hq']
        rintro ⟨hqt, hqd⟩
        exact heq (Prod.ext (hqt.symm.trans hticker) (hqd.symm.trans hside))
      rw [hview]

theorem Session.send_nil (s : Session) : s.send (s.client, []) = s := by
  simp [Session.send]

theorem Session.send_send (s : Session) (e e' : TradeEngine) (xs ys : List MEClientRequest) :
    (s.send (e, xs)).send (e', ys) = s.send (e', xs ++ ys) := by
  simp [Session.send]

theorem Session.Inv.moveOrder (h : s.Inv c B owner) (hc : c < meMaxNumClients)
    (ht : t < meMaxTickers) (hd : d.IsBuyOrSell) {price : ℤ}
    (hp : price = priceInvalid ∨ PriceInRange price) {qty : ℕ} (hq : qty < 2 ^ 32) (loss : Bool)
    (hnext : (s.client.moveOrder t price d qty loss).1.orderManager.nextOrderId ≤ meMaxOrderIds) :
    ∃ owner', (s.send (s.client.moveOrder t price d qty loss)).Base c B owner' ∧
      ∀ t' d', d'.IsBuyOrSell →
        SlotSteps (fun q => t' = t ∧ d' = d ∧ q = qty ∧ s.client.Places t price d qty loss) c t' d'
          (s.view B t' d') ((s.send (s.client.moveOrder t price d qty loss)).view B t' d') := by
  obtain rfl := h.client
  unfold TradeEngine.moveOrder at *
  rcases moveOrder_cases s.client.orderManager s.client.clientId t price d qty
    (s.client.risk t loss d qty) with hr | ⟨hidle, hprice, hrisk, hr⟩ | ⟨hlive, hr⟩
  · have hsend : s.send ({ s.client with orderManager := s.client.orderManager }, []) = s :=
      s.send_nil
    simp only [hr]
    rw [hsend]
    exact ⟨owner, h.toBase, fun t' d' _ => .refl⟩
  · rw [hr] at hnext ⊢
    obtain ⟨hbase, hsteps⟩ := h.sendNew hc hnext ht hd (hp.resolve_left hprice) hq hidle
    refine ⟨_, hbase, fun t' d' hd' => (hsteps t' d' hd').mono ?_⟩
    rintro q ⟨rfl, rfl, rfl⟩
    exact ⟨rfl, rfl, rfl, hidle, hprice, hrisk⟩
  · rw [hr] at hnext ⊢
    obtain ⟨hbase, hsteps⟩ := h.sendCancel hc hnext ht hd hlive
    exact ⟨owner, hbase, fun t' d' hd' => (hsteps t' d' hd').mono fun _ => False.elim⟩

theorem TradeEngine.le_nextOrderId_moveOrder (e : TradeEngine) (t : ℕ) (price : ℤ) (d : Side)
    (qty : ℕ) (loss : Bool) :
    e.orderManager.nextOrderId ≤ (e.moveOrder t price d qty loss).1.orderManager.nextOrderId := by
  unfold TradeEngine.moveOrder
  rcases moveOrder_cases e.orderManager e.clientId t price d qty (e.risk t loss d qty) with
    hr | ⟨-, -, -, hr⟩ | ⟨-, hr⟩
  · simp [hr]
  · simp [hr, OrderManager.newOrder]
  · simp [hr, OrderManager.cancelOrder]

theorem TradeEngine.slot_moveOrder_of_ne {e : TradeEngine} (hd : d.IsBuyOrSell) {t' : ℕ} {d' : Side}
    (hd' : d'.IsBuyOrSell) (hne : (t', d') ≠ (t, d)) (price : ℤ) (qty : ℕ) (loss : Bool) :
    (e.moveOrder t price d qty loss).1.orderManager.slot t' d' = e.orderManager.slot t' d' := by
  unfold TradeEngine.moveOrder
  rcases moveOrder_cases e.orderManager e.clientId t price d qty (e.risk t loss d qty) with
    hr | ⟨-, -, -, hr⟩ | ⟨-, hr⟩
  · simp [hr]
  · rw [hr]
    exact slot_setSlot_of_ne hd hd' hne
  · rw [hr]
    exact slot_setSlot_of_ne hd hd' hne

theorem Session.Inv.moveOrders (h : s.Inv c B owner) (hc : c < meMaxNumClients) {bid ask : ℤ}
    (hbid : bid = priceInvalid ∨ PriceInRange bid) (hask : ask = priceInvalid ∨ PriceInRange ask)
    {clip : ℕ} (hq : clip < 2 ^ 32) {loss : Bool} {r : TradeEngine × List MEClientRequest}
    (hr : s.client.moveOrders t bid ask clip loss = .ok r)
    (hnext : r.1.orderManager.nextOrderId ≤ meMaxOrderIds) :
    ∃ owner', (s.send r).Base c B owner' ∧ ∀ t' d', d'.IsBuyOrSell →
      SlotSteps (s.Places (.moveOrders t bid ask clip loss) t' d') c t' d' (s.view B t' d')
        ((s.send r).view B t' d') := by
  obtain ⟨_, ht, hr⟩ := bind_eq_ok.mp hr
  replace ht := of_require ht
  cases hr
  have hbuy : Side.buy.IsBuyOrSell := .inl rfl
  have hsell : Side.sell.IsBuyOrSell := .inr rfl
  obtain ⟨owner₁, hbase₁, hsteps₁⟩ := h.moveOrder hc ht hbuy hbid hq loss
    ((TradeEngine.le_nextOrderId_moveOrder ..).trans hnext)
  have hinv₁ := h.of_base hbase₁ hsteps₁
  obtain ⟨owner₂, hbase₂, hsteps₂⟩ := hinv₁.moveOrder hc ht hsell hask hq loss hnext
  rw [Session.send_send] at hbase₂
  refine ⟨owner₂, hbase₂, fun t' d' hd' => ?_⟩
  have hstep₂ := hsteps₂ t' d' hd'
  rw [Session.send_send] at hstep₂
  refine ((hsteps₁ t' d' hd').mono ?_).trans (hstep₂.mono ?_)
  · rintro q ⟨rfl, rfl, rfl, hplaces⟩
    exact ⟨rfl, rfl, hplaces⟩
  · rintro q ⟨rfl, rfl, rfl, hstate, hprice, hrisk⟩
    have hslot := TradeEngine.slot_moveOrder_of_ne (e := s.client) hbuy hsell
      (show (t', Side.sell) ≠ (t', Side.buy) by simp) bid q loss
    refine ⟨rfl, rfl, ?_, hprice, hrisk⟩
    rw [← hslot]
    exact hstate

theorem Session.Inv.cancelLive (h : s.Inv c B owner) (hc : c < meMaxNumClients)
    (hnext : s.client.orderManager.nextOrderId ≤ meMaxOrderIds) (ht : t < meMaxTickers)
    (hd : d.IsBuyOrSell) :
    (s.send (s.client.cancelLive t d)).Base c B owner ∧ ∀ t' d', d'.IsBuyOrSell →
      SlotSteps (fun _ => False) c t' d' (s.view B t' d')
        ((s.send (s.client.cancelLive t d)).view B t' d') := by
  obtain rfl := h.client
  unfold TradeEngine.cancelLive
  rcases cancelLive_cases s.client.orderManager s.client.clientId t d with ⟨-, hr⟩ | ⟨hlive, hr⟩
  · have hsend : s.send ({ s.client with orderManager := s.client.orderManager }, []) = s :=
      s.send_nil
    simp only [hr]
    rw [hsend]
    exact ⟨h.toBase, fun t' d' _ => .refl⟩
  · rw [hr]
    exact h.sendCancel hc hnext ht hd hlive

theorem TradeEngine.nextOrderId_cancelLive (e : TradeEngine) (t : ℕ) (d : Side) :
    (e.cancelLive t d).1.orderManager.nextOrderId = e.orderManager.nextOrderId := by
  unfold TradeEngine.cancelLive
  rcases cancelLive_cases e.orderManager e.clientId t d with ⟨-, hr⟩ | ⟨-, hr⟩ <;>
    simp [hr, OrderManager.cancelOrder]

theorem Session.Inv.cancelOrders (h : s.Inv c B owner) (hc : c < meMaxNumClients)
    {r : TradeEngine × List MEClientRequest} (hr : s.client.cancelOrders t = .ok r)
    (hnext : s.client.orderManager.nextOrderId ≤ meMaxOrderIds) :
    (s.send r).Base c B owner ∧ ∀ t' d', d'.IsBuyOrSell →
      SlotSteps (fun _ => False) c t' d' (s.view B t' d') ((s.send r).view B t' d') := by
  obtain ⟨_, ht, hr⟩ := bind_eq_ok.mp hr
  replace ht := of_require ht
  cases hr
  obtain ⟨hbase₁, hsteps₁⟩ := h.cancelLive hc hnext ht (.inl rfl)
  have hinv₁ := h.of_base hbase₁ hsteps₁
  obtain ⟨hbase₂, hsteps₂⟩ := hinv₁.cancelLive hc
    ((TradeEngine.nextOrderId_cancelLive ..).le.trans hnext) ht (.inr rfl)
  rw [Session.send_send] at hbase₂
  refine ⟨hbase₂, fun t' d' hd' => ?_⟩
  have hstep₂ := hsteps₂ t' d' hd'
  rw [Session.send_send] at hstep₂
  exact (hsteps₁ t' d' hd').trans hstep₂

end Client

section Exchange

variable {c t : ℕ} {d : Side} {s s' : Session} {B : IndexedBooks} {owner : ℕ → ℕ × Side}
  {req : MEClientRequest}

theorem Session.Base.process (h : s.Base c B owner) (hadm : req.Admissible)
    (hexact : ((B req.tickerId).call req.call).1.ExactFor c) (hs : s.process req = .ok s') :
    s'.Base c (B.step req).1 owner ∧ s'.client = s.client ∧ s'.requests = s.requests ∧
      ∀ t d, slotResponses t d s'.responses = slotResponses t d s.responses ++
        if t = req.tickerId then sentTo c d ((B req.tickerId).call req.call).2 else [] := by
  obtain ⟨⟨engine, events⟩, hproc, hs⟩ := bind_eq_ok.mp hs
  cases hs
  obtain ⟨rfl, href⟩ := h.refines.step_of_ok hadm hproc
  have hresp := fun r hr => call_response (r := r) (h.refines.wf req.tickerId) hadm hr
  refine ⟨⟨h.client, href, fun t => ?_, h.orders, h.requests, fun r hr => ?_⟩, rfl, rfl,
    fun t d => ?_⟩
  · by_cases ht : t = req.tickerId
    · simpa [IndexedBooks.step, ht] using hexact
    · simpa [IndexedBooks.step, ht] using h.exact t
  · rcases List.mem_append.mp hr with hr | hr
    · exact h.responses r hr
    · obtain ⟨hticker, hside⟩ := hresp r (List.mem_filter.mp hr).1
      exact ⟨hticker ▸ hadm.1, hside⟩
  · rw [slotResponses_append, h.client]
    exact congrArg _ (slotResponses_sent fun r hr => (hresp r hr).1)

theorem IndexedBooks.step_self : (B.step req).1 req.tickerId = ((B req.tickerId).call req.call).1 :=
  Function.update_self ..

theorem IndexedBooks.step_of_ne (ht : t ≠ req.tickerId) : (B.step req).1 t = B t :=
  Function.update_of_ne ht ..

theorem MEClientRequest.call_new (hnew : req.type = .new) :
    req.call = .add ⟨req.clientId, req.orderId, req.tickerId, req.side, req.price, req.qty⟩ :=
  if_pos hnew

theorem MEClientRequest.call_cancel (hcancel : req.type = .cancel) :
    req.call = .cancel req.clientId req.orderId req.tickerId :=
  if_neg (by simp [hcancel])

theorem other_call {b : IndexedBook} (hw : b.WF) (hadm : req.Admissible) (hreq : req.clientId ≠ c)
    (hd : d.IsBuyOrSell) {id q : ℕ} {p : ℤ} (hr : Rests id p q (ownSide c d b)) :
    ∃ q', Fills c req.tickerId d id q (sentTo c d (b.call req.call).2) q' ∧
      Rests id p q' (ownSide c d (b.call req.call).1) := by
  obtain ⟨-, htype, hcall⟩ := hadm
  rcases htype with hnew | hcancel
  · rw [MEClientRequest.call_new hnew] at hcall ⊢
    by_cases hside : d = req.side
    · subst hside
      obtain ⟨hsent, hrest⟩ := add_other (n := ⟨req.clientId, req.orderId, req.tickerId, req.side,
        req.price, req.qty⟩) hw hcall.1 hreq hr
      exact ⟨q, (congrArg (Fills c req.tickerId req.side id q · q) hsent).mpr (.nil q), hrest⟩
    · obtain rfl := Side.IsBuyOrSell.eq_opposite hcall.1 hd (Ne.symm hside)
      exact add_passive (n := ⟨req.clientId, req.orderId, req.tickerId, req.side, req.price,
        req.qty⟩) hw hcall.1 hr
  · rw [MEClientRequest.call_cancel hcancel]
    obtain ⟨hsent, hrest⟩ := cancel_other (o := req.orderId) (t := req.tickerId) hw hreq hd
    refine ⟨q, (congrArg (Fills c req.tickerId d id q · q) hsent).mpr (.nil q), ?_⟩
    exact (congrArg (Rests id p q) hrest).mpr hr

theorem other_exactFor {b : IndexedBook} (hw : b.WF) (he : b.ExactFor c) (hadm : req.Admissible)
    (hreq : req.clientId ≠ c) : (b.call req.call).1.ExactFor c := by
  obtain ⟨-, htype, hcall⟩ := hadm
  rcases htype with hnew | hcancel
  · rw [MEClientRequest.call_new hnew] at hcall ⊢
    exact IndexedBook.exactFor_add hw he hcall fun h => absurd h hreq
  · rw [MEClientRequest.call_cancel hcancel]
    exact IndexedBook.exactFor_cancel hw he _ _ _

theorem Session.Inv.other (h : s.Inv c B owner) (hadm : req.Admissible) (hreq : req.clientId ≠ c)
    (hs : s.process req = .ok s') :
    s'.Base c (B.step req).1 owner ∧ ∀ t d, d.IsBuyOrSell →
      SlotSteps (fun _ => False) c t d (s.view B t d) (s'.view (B.step req).1 t d) := by
  have hw := h.refines.wf req.tickerId
  obtain ⟨hbase, hclient, hreqs, hresps⟩ :=
    h.toBase.process hadm (other_exactFor hw (h.exact _) hadm hreq) hs
  refine ⟨hbase, fun t d hd => ?_⟩
  have hview : s'.view (B.step req).1 t d = ⟨s.slot t d, slotRequests t d s.requests,
      slotResponses t d s.responses ++
        if t = req.tickerId then sentTo c d ((B req.tickerId).call req.call).2 else [],
      ownSide c d ((B.step req).1 t)⟩ := by
    simp only [Session.view, Session.slot, hclient, hreqs, hresps, h.client]
  rw [hview]
  by_cases ht : t = req.tickerId
  · subst ht
    obtain ⟨q, hq⟩ := (h.slots _ d hd).rests
    have hq' : Rests (s.slot req.tickerId d).orderId (s.slot req.tickerId d).price q
        (ownSide c d (B req.tickerId)) := h.client ▸ hq
    obtain ⟨q', hfills, hrests⟩ := other_call hw hadm hreq hd hq'
    rw [if_pos rfl, IndexedBooks.step_self]
    exact .single (.trade (s.view B req.tickerId d) _ q q' _ hq hfills hrests)
  · rw [if_neg ht, List.append_nil, IndexedBooks.step_of_ne ht, ← h.client]
    exact .refl

theorem Session.Inv.view_resting (h : s.Inv c B owner) (t : ℕ) (d : Side) :
    (s.view B t d).resting = ownSide c d (B t) := by
  rw [← h.client]
  rfl

theorem Session.Inv.owner_of_resting (h : s.Inv c B owner) {x : MEOrder}
    (hx : x ∈ (B t).book.ladders.entries) (hxc : x.ids.clientId = c) :
    owner x.ids.clientOrderId = (t, x.side) ∧ ownSide c x.side (B t) = [x] := by
  have hw := h.refines.wf t
  have hd := (hw.book.order_ok hx).1
  have hmem : x ∈ (s.view B t x.side).resting := h.view_resting t x.side ▸ mem_ownSide_of hw hx hxc
  obtain ⟨hsingle, hid, -, hstate, -⟩ := (h.slots t x.side hd).open_of_resting hmem
  obtain ⟨-, how⟩ := h.orders t x.side hd hstate
  exact ⟨hid ▸ how, h.view_resting t x.side ▸ hsingle⟩

theorem Session.Inv.side_of_resting (h : s.Inv c B owner)
    (how : owner req.orderId = (req.tickerId, req.side)) {x : MEOrder}
    (hx : x ∈ (B req.tickerId).book.ladders.entries) (hxc : x.ids.clientId = c)
    (hid : x.ids.clientOrderId = req.orderId) : ownSide c req.side (B req.tickerId) = [x] := by
  obtain ⟨hxo, hsingle⟩ := h.owner_of_resting hx hxc
  rw [hid, how] at hxo
  rw [(Prod.mk.inj hxo).2]
  exact hsingle

theorem Session.Inv.own_call (h : s.Inv c B owner) {reqs : List MEClientRequest}
    (hreqs : s.requests = req :: reqs) :
    ((B req.tickerId).call req.call).1.ExactFor c ∧ ∀ d, d.IsBuyOrSell → ∀ v : SlotView,
      v = s.view B req.tickerId d →
      SlotSteps (fun _ => False) c req.tickerId d v
        ⟨v.order, slotRequests req.tickerId d reqs,
          v.responses ++ sentTo c d ((B req.tickerId).call req.call).2,
          ownSide c d ((B req.tickerId).call req.call).1⟩ := by
  obtain ⟨hadm, hc, hs, -, how⟩ := h.requests req (hreqs ▸ List.mem_cons_self ..)
  have hw := h.refines.wf req.tickerId
  have he := h.exact req.tickerId
  have hhead : (s.view B req.tickerId req.side).requests =
      req :: slotRequests req.tickerId req.side reqs := by
    simp [Session.view, hreqs, slotRequests_cons]
  have htail : ∀ d, d ≠ req.side → (s.view B req.tickerId d).requests =
      slotRequests req.tickerId d reqs := by
    intro d hd
    simp [Session.view, hreqs, slotRequests_cons, hd.symm]
  rcases hadm.2.1 with hnew | hcancel
  · have hcall := MEClientRequest.call_new hnew
    have hn : NewOrder.Admissible ⟨req.clientId, req.orderId, req.tickerId, req.side, req.price,
        req.qty⟩ := by
      have := hadm.2.2
      rwa [hcall] at this
    have hnil : ownSide c req.side (B req.tickerId) = [] := by
      rw [← h.view_resting]
      exact (h.slots _ _ hs).resting_of_new hhead hnew
    rw [hcall]
    refine ⟨IndexedBook.exactFor_add hw he hn fun _ x hx hxc hid => ?_, fun d hd v hv => ?_⟩
    · rw [h.side_of_resting how hx hxc hid] at hnil
      cases hnil
    · by_cases hdr : d = req.side
      · subst hdr
        obtain ⟨q, fills, hsent, hfills, hrests⟩ := add_own hw hn.1 hc hnil
        refine .single ?_
        have hvnil : v.resting = [] := by rw [hv, h.view_resting, hnil]
        obtain ⟨order, requests, responses, resting⟩ := v
        obtain rfl : requests = _ := (congrArg SlotView.requests hv).trans hhead
        subst hvnil
        refine (congrArg (fun l => SlotStep _ c _ _ _ ⟨order, _, responses ++ l, _⟩) hsent).mpr ?_
        exact .accept order req _ responses fills _ q _ hnew ⟨rfl, hc, rfl, rfl, rfl⟩ hfills hrests
      · obtain rfl := hs.eq_opposite hd (Ne.symm hdr)
        obtain ⟨q, hq⟩ := (h.slots req.tickerId req.side.opposite hd).rests
        rw [← hv] at hq
        have hq' : Rests v.order.orderId v.order.price q
            (ownSide c req.side.opposite (B req.tickerId)) := by
          rwa [hv, h.view_resting, ← hv] at hq
        obtain ⟨q', hfills, hrests⟩ := add_passive hw hn.1 hq'
        rw [← htail _ hdr, ← hv]
        exact .single (.trade v _ q q' _ hq hfills hrests)
  · rw [MEClientRequest.call_cancel hcancel, hc]
    refine ⟨IndexedBook.exactFor_cancel hw he _ _ _, fun d hd v hv => ?_⟩
    have hvr : v.resting = ownSide c d (B req.tickerId) := by rw [hv, h.view_resting]
    obtain ⟨order, requests, responses, resting⟩ := v
    subst hvr
    by_cases hex : ∃ x ∈ (B req.tickerId).book.ladders.entries,
        x.ids.clientId = c ∧ x.ids.clientOrderId = req.orderId
    · obtain ⟨x, hx, hxc, hid⟩ := hex
      have hsingle := h.side_of_resting how hx hxc hid
      obtain ⟨hsent, hrest, hsent', hrest'⟩ := cancel_own_some (t := req.tickerId) hw he hs hsingle
      rw [hid] at hsent hrest hsent' hrest'
      simp only [IndexedBook.call]
      by_cases hdr : d = req.side
      · subst hdr
        obtain rfl : requests = _ := (congrArg SlotView.requests hv).trans hhead
        rw [hsent, hrest, hsingle]
        exact .single (.cancel order req _ responses _ x hcancel hid ⟨rfl, rfl, rfl, rfl, rfl⟩)
      · obtain rfl := hs.eq_opposite hd (Ne.symm hdr)
        obtain rfl : requests = _ := (congrArg SlotView.requests hv).trans (htail _ hdr)
        rw [hsent', hrest', List.append_nil]
    · have hno : ∀ x ∈ (B req.tickerId).book.ladders.entries, x.ids.clientId = c →
          x.ids.clientOrderId ≠ req.orderId := fun x hx hxc hid => hex ⟨x, hx, hxc, hid⟩
      simp only [IndexedBook.call, cancel_own_none hw hno, sentTo_rejected hd, List.append_nil]
      by_cases hdr : d = req.side
      · subst hdr
        obtain rfl : requests = _ := (congrArg SlotView.requests hv).trans hhead
        refine .single (.reject order req _ responses _ hcancel fun x hx => ?_)
        obtain ⟨hxm, hxc⟩ := mem_ownSide hd hx
        exact hno x hxm hxc
      · obtain rfl : requests = _ := (congrArg SlotView.requests hv).trans (htail _ hdr)
        exact .refl

theorem Session.Inv.exchange (h : s.Inv c B owner) {reqs : List MEClientRequest}
    (hreqs : s.requests = req :: reqs) (hs : { s with requests := reqs }.process req = .ok s') :
    s'.Base c (B.step req).1 owner ∧ ∀ t d, d.IsBuyOrSell →
      SlotSteps (fun _ => False) c t d (s.view B t d) (s'.view (B.step req).1 t d) := by
  obtain ⟨hadm, -⟩ := h.requests req (hreqs ▸ List.mem_cons_self ..)
  obtain ⟨hexact, hsteps⟩ := h.own_call hreqs
  have hbase₀ : Session.Base c { s with requests := reqs } B owner :=
    ⟨h.client, h.refines, h.exact, h.orders,
      fun r hr => h.requests r (hreqs ▸ List.mem_cons_of_mem _ hr), h.responses⟩
  obtain ⟨hbase, hclient, hreqs', hresps⟩ := hbase₀.process hadm hexact hs
  refine ⟨hbase, fun t d hd => ?_⟩
  have hview : s'.view (B.step req).1 t d = ⟨s.slot t d, slotRequests t d reqs,
      slotResponses t d s.responses ++
        if t = req.tickerId then sentTo c d ((B req.tickerId).call req.call).2 else [],
      ownSide c d ((B.step req).1 t)⟩ := by
    simp only [Session.view, Session.slot, hclient, hreqs', hresps, h.client]
  rw [hview]
  by_cases ht : t = req.tickerId
  · subst ht
    rw [if_pos rfl, IndexedBooks.step_self]
    exact hsteps d hd _ rfl
  · rw [if_neg ht, List.append_nil, IndexedBooks.step_of_ne ht]
    have hstay : s.view B t d = ⟨s.slot t d, slotRequests t d reqs, slotResponses t d s.responses,
        ownSide c d (B t)⟩ := by
      simp [Session.view, hreqs, slotRequests_cons, Ne.symm ht, h.client]
    rw [hstay]

end Exchange

section Steps

variable {c : ℕ} {s s' : Session} {B : IndexedBooks} {owner : ℕ → ℕ × Side} {a : Action}

theorem Session.Inv.deliver (h : s.Inv c B owner) {r : MEClientResponse}
    {rs : List MEClientResponse} (hresp : s.responses = r :: rs) {e : TradeEngine}
    (he : s.client.onOrderUpdate r = .ok e) :
    Session.Base c { s with client := e, responses := rs } B owner ∧ ∀ t d, d.IsBuyOrSell →
      SlotSteps (fun _ => False) c t d (s.view B t d)
        (Session.view { s with client := e, responses := rs } B t d) := by
  have heq := TradeEngine.onOrderUpdate_eq he
  have hslot : e.orderManager = s.client.orderManager.setSlot r.tickerId r.side
      ((s.slot r.tickerId r.side).onResponse r) := by rw [heq]; rfl
  have hclient : e.clientId = s.client.clientId := by rw [heq]
  have hnext : e.orderManager.nextOrderId = s.client.orderManager.nextOrderId := by
    rw [hslot, nextOrderId_setSlot]
  obtain ⟨-, hside⟩ := h.responses r (hresp ▸ List.mem_cons_self ..)
  have hrest : ∀ q ∈ rs, q ∈ s.responses := fun q hq => hresp ▸ List.mem_cons_of_mem _ hq
  rcases hside with hside | ⟨htype, hinvalid⟩
  · have hself : e.orderManager.slot r.tickerId r.side =
        (s.slot r.tickerId r.side).onResponse r := by rw [hslot, slot_setSlot]
    have hne : ∀ t d, d.IsBuyOrSell → (t, d) ≠ (r.tickerId, r.side) →
        e.orderManager.slot t d = s.slot t d := by
      intro t d hd hne
      rw [hslot]
      exact slot_setSlot_of_ne hside hd hne
    have hhead : (s.view B r.tickerId r.side).responses =
        r :: slotResponses r.tickerId r.side rs := by
      simp [Session.view, hresp, slotResponses_cons]
    have hfound := (h.slots r.tickerId r.side hside).head hhead
    refine ⟨⟨hclient.trans h.client, h.refines, h.exact, fun t d hd hs => ?_, ?_,
      fun q hq => h.responses q (hrest q hq)⟩, fun t d hd => ?_⟩
    · change (e.orderManager.slot t d).orderState ≠ _ at hs
      change (e.orderManager.slot t d).orderId < e.orderManager.nextOrderId ∧
        owner (e.orderManager.slot t d).orderId = _
      rw [hnext]
      by_cases heq : (t, d) = (r.tickerId, r.side)
      · obtain ⟨rfl, rfl⟩ := Prod.mk.inj heq
        rw [hself, orderId_onResponse]
        refine h.orders _ _ hside fun hs' => ?_
        have hfound' := hfound.2
        simp [Session.view, hs'] at hfound'
      · rw [hne t d hd heq] at hs ⊢
        exact h.orders t d hd hs
    · intro q hq
      obtain ⟨hadm, hqc, hqs, hlt, how⟩ := h.requests q hq
      exact ⟨hadm, hqc, hqs, hnext.symm ▸ hlt, how⟩
    · by_cases heq : (t, d) = (r.tickerId, r.side)
      · obtain ⟨rfl, rfl⟩ := Prod.mk.inj heq
        have hbefore : s.view B r.tickerId r.side = ⟨s.slot r.tickerId r.side,
            slotRequests r.tickerId r.side s.requests, r :: slotResponses r.tickerId r.side rs,
            ownSide s.client.clientId r.side (B r.tickerId)⟩ := by
          simp [Session.view, hresp, slotResponses_cons]
        have hafter : Session.view { s with client := e, responses := rs } B r.tickerId r.side =
            ⟨(s.slot r.tickerId r.side).onResponse r, slotRequests r.tickerId r.side s.requests,
              slotResponses r.tickerId r.side rs,
              ownSide s.client.clientId r.side (B r.tickerId)⟩ := by
          simp only [Session.view, Session.slot, hclient]
          rw [hself]
          rfl
        rw [hbefore, hafter]
        exact .single (.deliver ..)
      · have hafter : Session.view { s with client := e, responses := rs } B t d =
            s.view B t d := by
          have : ¬ (r.tickerId = t ∧ r.side = d) := fun h => heq (Prod.ext h.1.symm h.2.symm)
          simp only [Session.view, Session.slot, hclient, hresp, slotResponses_cons, if_neg this]
          rw [hne t d hd heq]
          rfl
        rw [hafter]
  · have hsame : e.orderManager = s.client.orderManager := by
      rw [hslot]
      have : (s.slot r.tickerId r.side).onResponse r = s.slot r.tickerId r.side := by
        simp [OMOrder.onResponse, htype]
      rw [this]
      exact setSlot_slot ..
    refine ⟨⟨hclient.trans h.client, h.refines, h.exact, ?_, ?_,
      fun q hq => h.responses q (hrest q hq)⟩, fun t d hd => ?_⟩
    · intro t d hd hs
      simp only [Session.slot, hsame] at hs ⊢
      exact h.orders t d hd hs
    · intro q hq
      dsimp only
      rw [hsame]
      exact h.requests q hq
    · have hafter : Session.view { s with client := e, responses := rs } B t d = s.view B t d := by
        have : ¬ (r.tickerId = t ∧ r.side = d) := by
          rintro ⟨-, rfl⟩
          rcases hd with hd | hd <;> rw [hinvalid] at hd <;> cases hd
        simp only [Session.view, Session.slot, hclient, hresp, slotResponses_cons, if_neg this,
          hsame]
      rw [hafter]

def Session.nextOrderId (s : Session) : ℕ := s.client.orderManager.nextOrderId

theorem Session.exchange_cases (hs : s.Next .exchange s') :
    s' = s ∨ ∃ req reqs, s.requests = req :: reqs ∧
      { s with requests := reqs }.process req = .ok s' := by
  unfold Session.Next Session.step at hs
  cases hreqs : s.requests with
  | nil =>
    simp only [hreqs] at hs
    cases hs
    exact .inl rfl
  | cons req reqs =>
    simp only [hreqs] at hs
    exact .inr ⟨req, reqs, rfl, hs⟩

theorem Session.deliver_cases (hs : s.Next .deliver s') :
    s' = s ∨ ∃ r rs e, s.responses = r :: rs ∧ s.client.onOrderUpdate r = .ok e ∧
      s' = { s with client := e, responses := rs } := by
  unfold Session.Next Session.step at hs
  cases hresps : s.responses with
  | nil =>
    simp only [hresps] at hs
    cases hs
    exact .inl rfl
  | cons r rs =>
    simp only [hresps] at hs
    obtain ⟨e, he, hs⟩ := bind_eq_ok.mp hs
    cases hs
    exact .inr ⟨r, rs, e, rfl, he, rfl⟩

-- All that a step can do to the client's own state.
theorem Session.client_cases (hs : s.Next a s') :
    s'.client = s.client ∨
      (∃ t bid ask clip loss, s'.client =
        ((s.client.moveOrder t bid .buy clip loss).1.moveOrder t ask .sell clip loss).1) ∨
      (∃ t, s'.client = ((s.client.cancelLive t .buy).1.cancelLive t .sell).1) ∨
      ∃ r rs, s.responses = r :: rs ∧ s.client.onOrderUpdate r = .ok s'.client := by
  have hprocess : ∀ {s s' : Session} {req : MEClientRequest}, s.process req = .ok s' →
      s'.client = s.client := by
    intro s s' req h
    obtain ⟨_, -, h⟩ := bind_eq_ok.mp h
    cases h
    rfl
  cases a with
  | moveOrders t bid ask clip loss =>
    obtain ⟨r, hr, hs⟩ := bind_eq_ok.mp hs
    cases hs
    obtain ⟨_, -, hr⟩ := bind_eq_ok.mp hr
    cases hr
    exact .inr (.inl ⟨t, bid, ask, clip, loss, rfl⟩)
  | cancelOrders t =>
    obtain ⟨r, hr, hs⟩ := bind_eq_ok.mp hs
    cases hs
    obtain ⟨_, -, hr⟩ := bind_eq_ok.mp hr
    cases hr
    exact .inr (.inr (.inl ⟨t, rfl⟩))
  | exchange =>
    rcases Session.exchange_cases hs with rfl | ⟨req, reqs, -, hreq⟩
    · exact .inl rfl
    · have hclient := hprocess hreq
      exact .inl hclient
  | other req => exact .inl (hprocess hs)
  | deliver =>
    rcases Session.deliver_cases hs with rfl | ⟨r, rs, e, hresps, he, rfl⟩
    · exact .inl rfl
    · exact .inr (.inr (.inr ⟨r, rs, hresps, he⟩))

theorem Session.le_nextOrderId (hs : s.Next a s') : s.nextOrderId ≤ s'.nextOrderId := by
  unfold Session.nextOrderId
  obtain h | ⟨t, bid, ask, clip, loss, h⟩ | ⟨t, h⟩ | ⟨r, rs, -, h⟩ := Session.client_cases hs
  · rw [h]
  · rw [h]
    exact (TradeEngine.le_nextOrderId_moveOrder ..).trans (TradeEngine.le_nextOrderId_moveOrder ..)
  · rw [h]
    refine ((TradeEngine.nextOrderId_cancelLive ..).trans ?_).ge
    exact TradeEngine.nextOrderId_cancelLive ..
  · rw [TradeEngine.onOrderUpdate_eq h]
    exact Nat.le_refl _

theorem Session.Inv.step (h : s.Inv c B owner) (hc : c < meMaxNumClients) (ha : a.Valid c)
    (hs : s.Next a s') (hnext : s'.nextOrderId ≤ meMaxOrderIds) :
    ∃ B' owner', s'.Inv c B' owner' ∧ ∀ t d, d.IsBuyOrSell →
      SlotSteps (s.Places a t d) c t d (s.view B t d) (s'.view B' t d) := by
  have hle := (Session.le_nextOrderId hs).trans hnext
  suffices ∃ B' owner', s'.Base c B' owner' ∧ ∀ t d, d.IsBuyOrSell →
      SlotSteps (s.Places a t d) c t d (s.view B t d) (s'.view B' t d) by
    obtain ⟨B', owner', hbase, hsteps⟩ := this
    exact ⟨B', owner', h.of_base hbase hsteps, hsteps⟩
  cases a with
  | moveOrders t bid ask clip loss =>
    obtain ⟨r, hr, hs⟩ := bind_eq_ok.mp hs
    cases hs
    obtain ⟨hbid, hask, hq⟩ := ha
    obtain ⟨owner', hbase, hsteps⟩ := h.moveOrders hc hbid hask hq hr hnext
    exact ⟨B, owner', hbase, hsteps⟩
  | cancelOrders t =>
    obtain ⟨r, hr, hs⟩ := bind_eq_ok.mp hs
    cases hs
    obtain ⟨hbase, hsteps⟩ := h.cancelOrders hc hr hle
    exact ⟨B, owner, hbase, hsteps⟩
  | exchange =>
    rcases Session.exchange_cases hs with rfl | ⟨req, reqs, hreqs, hreq⟩
    · exact ⟨B, owner, h.toBase, fun _ _ _ => .refl⟩
    · obtain ⟨hbase, hsteps⟩ := h.exchange hreqs hreq
      exact ⟨_, owner, hbase, hsteps⟩
  | other req =>
    obtain ⟨hbase, hsteps⟩ := h.other ha.2 ha.1 hs
    exact ⟨_, owner, hbase, hsteps⟩
  | deliver =>
    rcases Session.deliver_cases hs with rfl | ⟨r, rs, e, hresps, he, rfl⟩
    · exact ⟨B, owner, h.toBase, fun _ _ _ => .refl⟩
    · obtain ⟨hbase, hsteps⟩ := h.deliver hresps he
      exact ⟨B, owner, hbase, hsteps⟩

theorem Session.inv_new (checked : Bool) (c : ℕ) (cfg : ℕ → RiskCfg) (hysteresis : ℕ → ℤ) :
    (Session.new checked c cfg hysteresis).Inv c IndexedBooks.new fun _ => (0, .invalid) where
  client := rfl
  refines := refinesAll_new checked
  exact := fun _ => IndexedBook.exactFor_new
  orders := fun t d _ hs => absurd rfl hs
  requests := by simp [Session.new]
  responses := by simp [Session.new]
  slots := fun t d hd => by
    have hnil : ownSide c d (IndexedBooks.new t) = [] := by
      rcases hd with rfl | rfl <;> rfl
    unfold Session.view
    rw [show ownSide (Session.new checked c cfg hysteresis).client.clientId d
      (IndexedBooks.new t) = [] from hnil]
    exact .idle (.inl rfl) (by simp [Session.new, slotRequests])

def Session.Run (c : ℕ) (Q : Session → Action → Prop) (s s' : Session) : Prop :=
  Trace.Reach Session.Next (fun s a => a.Valid c ∧ Q s a) s s'

theorem Session.run_append (s : Session) (xs ys : List Action) :
    s.run (xs ++ ys) = s.run xs >>= fun s' => s'.run ys := by
  induction xs generalizing s with
  | nil => rfl
  | cons x xs ih =>
    simp only [List.cons_append, Session.run]
    cases s.step x with
    | error e => rfl
    | ok s₁ => exact ih s₁

theorem Session.Run.of_run {Q : Session → Action → Prop} {actions : List Action}
    (hs : s.run actions = .ok s') (hv : ∀ a ∈ actions, a.Valid c)
    (hq : ∀ a ∈ actions, ∀ s, Q s a) : Session.Run c Q s s' := by
  have key : ∀ s₀, Session.Run c Q s₀ s → Session.Run c Q s₀ s' := by
    intro s₀ hrun
    induction actions generalizing s with
    | nil =>
      cases hs
      exact hrun
    | cons a actions ih =>
      obtain ⟨s₁, hstep, hs⟩ := bind_eq_ok.mp hs
      have ha := And.intro (hv a (List.mem_cons_self ..)) (hq a (List.mem_cons_self ..) s)
      exact ih hs (fun x hx => hv x (List.mem_cons_of_mem _ hx))
        (fun x hx => hq x (List.mem_cons_of_mem _ hx)) (.step hrun ha hstep)
  exact key s .refl

theorem Session.Run.le_nextOrderId {Q : Session → Action → Prop} (h : Session.Run c Q s s') :
    s.nextOrderId ≤ s'.nextOrderId := by
  induction h with
  | refl => exact Nat.le_refl _
  | step _ _ hb ih => exact ih.trans (Session.le_nextOrderId hb)

theorem Session.Run.slots {Q : Session → Action → Prop} {J : ℕ → Side → SlotView → Prop}
    (h : Session.Run c Q s s') (hc : c < meMaxNumClients)
    (hnext : s'.nextOrderId ≤ meMaxOrderIds) (hi : s.Inv c B owner)
    (hj : ∀ t d, d.IsBuyOrSell → J t d (s.view B t d))
    (hstep : ∀ s a t d v w, d.IsBuyOrSell → Q s a → SlotOk c t d v →
      SlotStep (s.Places a t d) c t d v w → J t d v → J t d w) :
    ∃ B' owner', s'.Inv c B' owner' ∧ ∀ t d, d.IsBuyOrSell → J t d (s'.view B' t d) := by
  induction h with
  | refl => exact ⟨B, owner, hi, hj⟩
  | @step s₁ s₂ a hrun hx hb ih =>
    obtain ⟨B₁, owner₁, hi₁, hj₁⟩ := ih ((Session.le_nextOrderId hb).trans hnext)
    obtain ⟨B₂, owner₂, hi₂, hsteps⟩ := hi₁.step hc hx.1 hb hnext
    refine ⟨B₂, owner₂, hi₂, fun t d hd => ?_⟩
    refine (hsteps t d hd).keep (hi₁.slots t d hd) (hj₁ t d hd) fun v w hv hk hjv => ?_
    exact hstep s₁ a t d v w hd hx.2 hv hk hjv

def quoteActions : List Action :=
  [.moveOrders 0 100 105 10 false, .exchange, .exchange, .other ⟨.new, 2, 0, 7, .sell, 100, 4⟩,
    .deliver, .deliver, .moveOrders 0 102 105 10 false, .other ⟨.new, 2, 0, 8, .sell, 100, 3⟩,
    .exchange, .deliver]

end Steps

end Trading

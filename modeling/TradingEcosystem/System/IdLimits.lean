import TradingEcosystem.Exchange.OrderIds
import TradingEcosystem.System.LateJoiner
import TradingEcosystem.Trading.OrderManager

namespace Trading

open Common Exchange

def IndexesOrder (u : MEMarketUpdate) : Prop :=
  u.type = .add ∨ u.type = .modify ∨ u.type = .cancel

def IdsInRange (us : List MEMarketUpdate) : Prop :=
  ∀ u ∈ us, IndexesOrder u → u.orderId < meMaxOrderIds

section Pool

variable {α : Type} (m : MemPool α)

theorem findFree_ne_outOfRange (store : ℕ → ObjectBlock α) (numElems initial fuel index : ℕ) :
    MemPool.findFree store numElems initial fuel index ≠ .error .outOfRange := by
  induction fuel generalizing index with
  | zero => simp [MemPool.findFree]
  | succ fuel ih =>
    unfold MemPool.findFree
    generalize (if index + 1 = numElems then 0 else index + 1) = next
    dsimp only
    split_ifs
    · simp
    · simp
    · exact ih next

theorem allocate_ne_outOfRange (object : α) : m.allocate object ≠ .error .outOfRange := by
  refine bind_ne_error (require_ne_error (by decide)) fun _ => ?_
  refine bind_ne_error (bind_ne_error (findFree_ne_outOfRange _ _ _ _ _) fun _ => ?_) fun _ => ?_
  · simp
  · simp

theorem deallocate_ne_outOfRange (index : ℕ) : m.deallocate index ≠ .error .outOfRange := by
  refine bind_ne_error (require_ne_error (by decide)) fun _ => ?_
  exact bind_ne_error (require_ne_error (by decide)) fun _ => by simp

theorem read_ne_outOfRange (index : ℕ) : m.read index ≠ .error .outOfRange := by
  unfold MemPool.read
  split_ifs <;> simp

theorem write_ne_outOfRange (index : ℕ) (f : α → α) : m.write index f ≠ .error .outOfRange :=
  bind_ne_error (read_ne_outOfRange m index) fun _ => by simp

end Pool

section Tables

variable {m : MarketOrderBook} {s : Ladders MarketOrder} {u : MEMarketUpdate}
  {us : List MEMarketUpdate}

theorem Mirrors.refers_lt (h : Mirrors m s) (hu : Refers s u) : u.orderId < meMaxOrderIds := by
  obtain ⟨o, ho, hid, -⟩ := hu
  obtain ⟨a, hl, rfl⟩ := h.linked
  rw [Ladders.entries_mapOrders] at ho
  obtain ⟨e, he, rfl⟩ := List.mem_map.mp ho
  exact hid ▸ hl.ids e he

theorem Mirrors.idsInRange (h : Mirrors m s) (hu : ApplicableAll s us) : IdsInRange us := by
  induction us generalizing m s with
  | nil => exact fun _ hx => absurd hx List.not_mem_nil
  | cons u us ih =>
    obtain ⟨m₁, c, -, h₁⟩ := h.step hu.1
    intro x hx hix
    rcases List.mem_cons.mp hx with rfl | hx
    · have happ := hu.1
      unfold Applicable at happ
      rcases hix with htype | htype | htype <;> rw [htype] at happ
      · exact happ.id_lt
      · exact h.refers_lt happ.1
      · exact h.refers_lt happ
    · exact ih h₁ hu.2 x hx hix

theorem findOrder_ne_outOfRange (σ : SnapshotSynthesizer) (h : u.orderId < meMaxOrderIds) :
    σ.findOrder u ≠ .error .outOfRange := by
  unfold SnapshotSynthesizer.findOrder
  rw [require_of _ h, ok_bind]
  cases σ.tickerOrders u.tickerId u.orderId <;> simp

theorem applyUpdate_ne_outOfRange (σ : SnapshotSynthesizer)
    (h : IndexesOrder u → u.orderId < meMaxOrderIds) : σ.applyUpdate u ≠ .error .outOfRange := by
  unfold SnapshotSynthesizer.applyUpdate
  cases htype : u.type with
  | add =>
    rw [require_of _ (h (.inl htype)), ok_bind]
    refine bind_ne_error (require_ne_error (by decide)) fun _ => ?_
    exact bind_ne_error (allocate_ne_outOfRange _ _) fun _ => by simp
  | modify =>
    refine bind_ne_error (findOrder_ne_outOfRange σ (h (.inr (.inl htype)))) fun _ => ?_
    refine bind_ne_error (read_ne_outOfRange _ _) fun _ => ?_
    refine bind_ne_error (require_ne_error (by decide)) fun _ => ?_
    exact bind_ne_error (write_ne_outOfRange _ _ _) fun _ => by simp
  | cancel =>
    refine bind_ne_error (findOrder_ne_outOfRange σ (h (.inr (.inr htype)))) fun _ => ?_
    exact bind_ne_error (deallocate_ne_outOfRange _ _) fun _ => by simp
  | _ => simp

theorem consume_ne_outOfRange (σ : SnapshotSynthesizer) (next : ℕ)
    (ht : ∀ u ∈ us, u.tickerId < meMaxTickers) (h : IdsInRange us) :
    σ.consume (publish next us) ≠ .error .outOfRange := by
  induction us generalizing σ next with
  | nil => simp [publish, SnapshotSynthesizer.consume]
  | cons u us ih =>
    have hu : (MDPMarketUpdate.mk next u).meMarketUpdate.tickerId < meMaxTickers :=
      ht u (List.mem_cons_self ..)
    refine bind_ne_error ?_ fun σ' => ?_
    · refine bind_ne_error (by simp [require_of _ hu]) fun _ => ?_
      refine bind_ne_error (applyUpdate_ne_outOfRange σ (h u (List.mem_cons_self ..))) fun _ => ?_
      exact bind_ne_error (require_ne_error (by decide)) fun _ => by simp
    · exact ih σ' (next + 1) (fun x hx => ht x (List.mem_cons_of_mem _ hx))
        fun x hx => h x (List.mem_cons_of_mem _ hx)

end Tables

section Exchange

variable {b : IndexedBook} {c : Call} {calls : List Call}

theorem call_fits (h : IdsInRange (marketUpdates (b.call c).2)) : b.Fits c := by
  cases c with
  | add n =>
    intro hq
    refine h ⟨.add, b.book.nextMarketOrderId, n.tickerId, n.side, n.price,
      (b.book.swept b.fillId n).leavesQty, (b.book.remainder b.fillId n).priority⟩ ?_ (.inl rfl)
    simp only [IndexedBook.call, IndexedBook.add, PriceTimeBook.place, if_neg hq,
      PriceTimeBook.accepted, List.cons_append, marketUpdates_response, marketUpdates_append]
    exact List.mem_append_right _ (List.mem_singleton_self _)
  | cancel clientId orderId tickerId => trivial

theorem run_fits (h : IdsInRange (marketUpdates (b.run calls).2)) :
    Trace.Every (fun b c => (IndexedBook.call b c).1) IndexedBook.Fits b calls := by
  induction calls generalizing b with
  | nil => trivial
  | cons c calls ih =>
    have happ : marketUpdates (b.run (c :: calls)).2 =
        marketUpdates (b.call c).2 ++ marketUpdates ((b.call c).1.run calls).2 :=
      marketUpdates_append ..
    rw [happ] at h
    exact ⟨call_fits fun u hu => h u (List.mem_append_left _ hu),
      ih fun u hu => h u (List.mem_append_right _ hu)⟩

theorem run_tickerId {t : ℕ} (hw : b.WF) (hc : ∀ c ∈ calls, c.Admissible ∧ callTicker c = t) :
    ∀ u ∈ marketUpdates (b.run calls).2, u.tickerId = t := by
  induction calls generalizing b with
  | nil => exact fun u hu => absurd hu (by simp [IndexedBook.run, runCalls])
  | cons c calls ih =>
    obtain ⟨hadm, hticker⟩ := hc c (List.mem_cons_self ..)
    intro u hu
    have happ : marketUpdates (b.run (c :: calls)).2 =
        marketUpdates (b.call c).2 ++ marketUpdates ((b.call c).1.run calls).2 :=
      marketUpdates_append ..
    rw [happ] at hu
    rcases List.mem_append.mp hu with hu | hu
    · exact (call_update hw hadm hu).1.trans hticker
    · exact ih (IndexedBook.wf_call hw hadm) (fun x hx => hc x (List.mem_cons_of_mem _ hx)) u hu

end Exchange

end Trading

namespace Exchange

open Common

/-- A NEW is left with a remainder to rest when the next id is past the tables. -/
def MEOrderBook.OutgrowsIds (p : MEOrderBook) (c : Call) : Prop :=
  ∃ n ladders, c = .add n ∧ p.book.decode = some ladders ∧ meMaxOrderIds ≤ p.nextMarketOrderId ∧
    crossingQty n.side n.price (ladders.side n.side.opposite) < n.qty

section Run

variable {p p' : MEOrderBook} {b : IndexedBook} {c : Call} {calls : List Call} {events : List Event}

theorem Refines.fits_iff (h : Refines p b) (hw : b.WF) (hc : c.Admissible) :
    b.Fits c ↔ ¬ p.OutgrowsIds c := by
  have hnext : p.nextMarketOrderId = b.book.nextMarketOrderId := by
    obtain ⟨s, -, -, hnext⟩ := h
    exact hnext
  cases c with
  | add n =>
    have hok := hw.book.sides _ hc.1.opposite
    have hleaves : (b.book.swept b.fillId n).leavesQty =
        n.qty - crossingQty n.side n.price (b.book.ladders.side n.side.opposite) :=
      sweep_leavesQty ⟨n.tickerId, n.clientId, n.side, n.clientOrderId, b.fillId⟩ n.price n.qty
        hc.1 hok.nonEmpty hok.sorted
    constructor
    · rintro hfits ⟨n', ladders, heq, hdecode, hfull, hcross⟩
      cases heq
      rw [h.decode] at hdecode
      cases hdecode
      have := hfits (by omega)
      omega
    · intro hout hq
      by_contra hfull
      exact hout ⟨n, _, rfl, h.decode, by omega, by omega⟩
  | cancel clientId orderId tickerId =>
    refine ⟨?_, fun _ => trivial⟩
    rintro - ⟨n, ladders, heq, -⟩
    cases heq

theorem Refines.run_of_ok (h : Refines p b) (hw : b.WF) (hc : ∀ c ∈ calls, c.Admissible)
    (hrun : p.run calls = .ok (p', events)) :
    events = (b.run calls).2 ∧
      (Trace.Every (fun b c => (IndexedBook.call b c).1) IndexedBook.Fits b calls ↔
        Trace.Each MEOrderBook.Next (fun p c => ¬ p.OutgrowsIds c) p calls) :=
  h.run_every (fun _ _ _ h hw hc => h.fits_iff hw hc) hw hc hrun

end Run

end Exchange

namespace Trading

open Common Exchange

inductive OMCall where
  | moveOrder (tickerId : ℕ) (price : ℤ) (side : Side) (qty : ℕ) (risk : RiskCheckResult)
  | cancelLive (tickerId : ℕ) (side : Side)
  | onOrderUpdate (r : MEClientResponse)

namespace OrderManager

def call (clientId : ℕ) (m : OrderManager) : OMCall → Outcome (OrderManager × List MEClientRequest)
  | .moveOrder tickerId price side qty risk =>
      pure (m.moveOrder clientId tickerId price side qty risk)
  | .cancelLive tickerId side => pure (m.cancelLive clientId tickerId side)
  | .onOrderUpdate r => do
      let m ← m.onOrderUpdate r
      pure (m, [])

def run (clientId : ℕ) (m : OrderManager) :
    List OMCall → Outcome (OrderManager × List MEClientRequest)
  | [] => pure (m, [])
  | c :: calls => do
      let (m, reqs) ← m.call clientId c
      let (m, more) ← m.run clientId calls
      pure (m, reqs ++ more)

def Next (clientId : ℕ) (m : OrderManager) (c : OMCall) (m' : OrderManager) : Prop :=
  ∃ reqs, m.call clientId c = .ok (m', reqs)

def OutgrowsIds (m : OrderManager) : OMCall → Prop
  | .moveOrder tickerId price side _ risk =>
      ((m.slot tickerId side).orderState = .invalid ∨
        (m.slot tickerId side).orderState = .dead) ∧
      price ≠ priceInvalid ∧ risk = .allowed ∧ meMaxOrderIds ≤ m.nextOrderId
  | _ => False

end OrderManager

def NewIdsInRange (reqs : List MEClientRequest) : Prop :=
  ∀ r ∈ reqs, r.type = .new → r.orderId < meMaxOrderIds

section Client

variable {m m' : OrderManager} {clientId : ℕ} {c : OMCall} {calls : List OMCall}
  {reqs : List MEClientRequest}

theorem cancelOrder_newIds (m : OrderManager) (clientId tickerId : ℕ) (side : Side) :
    NewIdsInRange (m.cancelOrder clientId tickerId side).2 := by
  intro r hr htype
  rw [List.mem_singleton.mp hr] at htype
  cases htype

theorem newOrder_newIds (clientId tickerId : ℕ) (price : ℤ) (side : Side) (qty : ℕ) :
    NewIdsInRange (m.newOrder clientId tickerId price side qty).2 ↔
      m.nextOrderId < meMaxOrderIds := by
  simp [NewIdsInRange, OrderManager.newOrder]

theorem moveOrder_newIds (clientId tickerId : ℕ) (price : ℤ) (side : Side) (qty : ℕ)
    (risk : RiskCheckResult) :
    NewIdsInRange (m.moveOrder clientId tickerId price side qty risk).2 ↔
      ¬ m.OutgrowsIds (.moveOrder tickerId price side qty risk) := by
  have hnil : NewIdsInRange [] := fun _ hr => absurd hr List.not_mem_nil
  unfold OrderManager.moveOrder OrderManager.OutgrowsIds
  dsimp only
  cases hs : (m.slot tickerId side).orderState <;> dsimp only
  case invalid =>
    split_ifs with h
    · simp [newOrder_newIds, h]
    · simp only [hnil, true_iff]
      exact fun hout => h ⟨hout.2.1, hout.2.2.1⟩
  case dead =>
    split_ifs with h
    · simp [newOrder_newIds, h]
    · simp only [hnil, true_iff]
      exact fun hout => h ⟨hout.2.1, hout.2.2.1⟩
  case live =>
    split_ifs <;> simp [hnil, cancelOrder_newIds]
  case pendingNew => simp [hnil]
  case pendingCancel => simp [hnil]

theorem call_newIds (h : m.call clientId c = .ok (m', reqs)) :
    NewIdsInRange reqs ↔ ¬ m.OutgrowsIds c := by
  have hnil : NewIdsInRange [] := fun _ hr => absurd hr List.not_mem_nil
  cases c with
  | moveOrder tickerId price side qty risk =>
    have hreqs : (m.moveOrder clientId tickerId price side qty risk).2 = reqs :=
      congrArg Prod.snd (Except.ok.inj h)
    rw [← hreqs]
    exact moveOrder_newIds ..
  | cancelLive tickerId side =>
    have hreqs : (m.cancelLive clientId tickerId side).2 = reqs :=
      congrArg Prod.snd (Except.ok.inj h)
    rw [← hreqs]
    refine iff_of_true ?_ id
    rcases cancelLive_cases m clientId tickerId side with ⟨-, heq⟩ | ⟨-, heq⟩ <;> rw [heq]
    · exact hnil
    · exact cancelOrder_newIds m clientId tickerId side
  | onOrderUpdate r =>
    obtain ⟨m₁, -, h⟩ := bind_eq_ok.mp h
    cases h
    exact iff_of_true hnil id

theorem newIds_append {xs ys : List MEClientRequest} :
    NewIdsInRange (xs ++ ys) ↔ NewIdsInRange xs ∧ NewIdsInRange ys := by
  simp only [NewIdsInRange, List.mem_append, or_imp, forall_and]

theorem run_newIds (h : m.run clientId calls = .ok (m', reqs)) :
    NewIdsInRange reqs ↔
      Trace.Each (OrderManager.Next clientId) (fun m c => ¬ m.OutgrowsIds c) m calls := by
  induction calls generalizing m reqs with
  | nil =>
    cases h
    exact iff_of_true (fun _ hr => absurd hr List.not_mem_nil) trivial
  | cons c calls ih =>
    obtain ⟨⟨m₁, rs⟩, hcall, h⟩ := bind_eq_ok.mp h
    obtain ⟨⟨m₂, more⟩, hmore, h⟩ := bind_eq_ok.mp h
    cases h
    refine newIds_append.trans (and_congr (call_newIds hcall) ((ih hmore).trans ⟨?_, ?_⟩))
    · rintro heach m₃ ⟨rs₃, hcall₃⟩
      rw [hcall] at hcall₃
      cases hcall₃
      exact heach
    · exact fun heach => heach m₁ ⟨rs, hcall⟩

end Client

structure IndexesTables (checked : Bool) (tickerId : ℕ) (us : List MEMarketUpdate) : Prop where
  ids : IdsInRange us
  synthesizer : (SnapshotSynthesizer.new checked).consume (publish 1 us) ≠ .error .outOfRange
  client : (MarketOrderBook.new checked tickerId).run us ≠ .error .outOfRange

theorem ids_stay_in_tables (checked : Bool) (tickerId clientId : ℕ) (hysteresisTicks : ℕ → ℤ)
    (ht : tickerId < meMaxTickers) {calls : List Call}
    (hc : ∀ c ∈ calls, c.Admissible ∧ callTicker c = tickerId) {p : MEOrderBook}
    {events : List Event} (hrun : (MEOrderBook.new checked tickerId).run calls = .ok (p, events))
    {omCalls : List OMCall} {m : OrderManager} {reqs : List MEClientRequest}
    (hclient : (OrderManager.new hysteresisTicks).run clientId omCalls = .ok (m, reqs)) :
    (IndexesTables checked tickerId (marketUpdates events) ↔
      Trace.Each MEOrderBook.Next (fun p c => ¬ p.OutgrowsIds c)
        (MEOrderBook.new checked tickerId) calls) ∧
    (NewIdsInRange reqs ↔
      Trace.Each (OrderManager.Next clientId) (fun m c => ¬ m.OutgrowsIds c)
        (OrderManager.new hysteresisTicks) omCalls) := by
  refine ⟨?_, run_newIds hclient⟩
  have hadm := fun c hc' => (hc c hc').1
  obtain ⟨rfl, hiff⟩ := (refines_new checked tickerId).run_of_ok IndexedBook.wf_new hadm hrun
  rw [← hiff]
  constructor
  · exact fun h => run_fits h.ids
  · intro hfits
    obtain ⟨happ, -⟩ := run_updates calls IndexedBook.wf_new hadm hfits
    have hids := (mirrors_new checked tickerId).idsInRange happ
    obtain ⟨m', hm', -⟩ := (mirrors_new checked tickerId).run happ
    refine ⟨hids, consume_ne_outOfRange _ _ (fun u hu => ?_) hids, ?_⟩
    · rw [run_tickerId IndexedBook.wf_new hc u hu]
      exact ht
    · rw [hm']
      simp

def sampleQuotes : List OMCall :=
  [.moveOrder 0 99 .buy 5 .allowed, .moveOrder 0 101 .sell 5 .allowed,
    .onOrderUpdate ⟨.accepted, 1, 0, 1, 1, .buy, 99, 0, 5⟩, .moveOrder 0 97 .buy 5 .allowed,
    .onOrderUpdate ⟨.canceled, 1, 0, 1, 1, .buy, 99, qtyInvalid, 5⟩,
    .moveOrder 0 97 .buy 5 .allowed]

theorem ids_stay_in_tables_sample :
    ∃ p events m reqs, (MEOrderBook.new true 0).run sampleCalls = .ok (p, events) ∧
      (OrderManager.new fun _ => 0).run 1 sampleQuotes = .ok (m, reqs) ∧
      IndexesTables true 0 (marketUpdates events) ∧ NewIdsInRange reqs := by
  have hc : ∀ c ∈ sampleCalls, c.Admissible ∧ callTicker c = 0 := by decide
  have hadm := fun c hc' => (hc c hc').1
  obtain ⟨p, hrun, -⟩ := (refines_new true 0).run sampleCalls IndexedBook.wf_new hadm (by decide)
  obtain ⟨m, hclient⟩ : ∃ m, (OrderManager.new fun _ => 0).run 1 sampleQuotes = .ok (m,
      [⟨.new, 1, 0, 1, .buy, 99, 5⟩, ⟨.new, 1, 0, 2, .sell, 101, 5⟩,
        ⟨.cancel, 1, 0, 1, .buy, 99, 5⟩, ⟨.new, 1, 0, 3, .buy, 97, 5⟩]) := ⟨_, rfl⟩
  have hids : NewIdsInRange [⟨.new, 1, 0, 1, .buy, 99, 5⟩, ⟨.new, 1, 0, 2, .sell, 101, 5⟩,
      ⟨.cancel, 1, 0, 1, .buy, 99, 5⟩, ⟨.new, 1, 0, 3, .buy, 97, 5⟩] := by
    unfold NewIdsInRange
    decide
  obtain ⟨-, hiff⟩ := (refines_new true 0).run_of_ok IndexedBook.wf_new hadm hrun
  obtain ⟨htables, hnews⟩ := ids_stay_in_tables true 0 1 (fun _ => 0) (by decide) hc hrun hclient
  exact ⟨p, _, m, _, hrun, hclient,
    htables.mpr (hiff.mp (IndexedBook.fits_run sampleCalls (by decide))),
    hnews.mpr ((run_newIds hclient).mp hids)⟩

theorem millionth_order_outgrows_tables :
    ∃ p p' events u,
      (MEOrderBook.new true 0).run (churn (meMaxOrderIds - 1)) = .ok (p, events) ∧
      p.add 1 10 0 .buy 100 1 = .ok (p', [.response ⟨.accepted, 1, 0, 10, meMaxOrderIds, .buy, 100,
        0, 1⟩, .update u]) ∧
      u.type = .add ∧ u.orderId = meMaxOrderIds ∧
      (∀ σ : SnapshotSynthesizer, σ.applyUpdate u = .error .outOfRange) ∧
      (MarketOrderBook.new true 0).run [u] = .error .outOfRange := by
  obtain ⟨p, hrun, href, hw⟩ := (refines_new true 0).run (churn (meMaxOrderIds - 1))
    IndexedBook.wf_new admissible_churn (by rw [numAdds_churn]; decide)
  have hempty : (IndexedBook.new.run (churn (meMaxOrderIds - 1))).1 = emptyBook meMaxOrderIds :=
    (emptyBook_churn (m := 1)).trans (congrArg emptyBook (by decide))
  rw [hempty] at href hw
  obtain ⟨p', hadd, -⟩ := href.add (n := ⟨1, 10, 0, .buy, 100, 1⟩) hw (by decide) (.inr (by decide))
  refine ⟨p, p', _, ⟨.add, meMaxOrderIds, 0, .buy, 100, 1, 1⟩, hrun, hadd, rfl, rfl, fun σ => ?_,
    ?_⟩
  · rfl
  · exact map_eq_error (show ((MarketOrderBook.new true 0).run [⟨.add, meMaxOrderIds, 0, .buy, 100,
      1, 1⟩]).map (fun _ => ()) = .error .outOfRange by decide +kernel)

end Trading

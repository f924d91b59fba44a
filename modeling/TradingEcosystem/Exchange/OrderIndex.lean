import TradingEcosystem.Exchange.MatchingEngine
import TradingEcosystem.Library.Trace

namespace Exchange

open Common

def crossingLevels (side : Side) (price : ℤ) (ls : List (Level ℤ MEOrder)) :
    List (Level ℤ MEOrder) :=
  ls.filter fun L => !decide (MEOrderBook.noMoreCrosses side price L.price)

def crossingQty (side : Side) (price : ℤ) (ls : List (Level ℤ MEOrder)) : ℕ :=
  ((Ladder.entries (crossingLevels side price ls)).map OrderInfo.qty).sum

/-- The new order rests next to an older one of the same client with the same id: it is larger than
what it can trade with, and it does not trade with the older one. -/
def HidesOrder (ladders : Ladders MEOrder) : Call → Prop
  | .add n => crossingQty n.side n.price (ladders.side n.side.opposite) < n.qty ∧
      ∃ x ∈ ladders.entries, x.ids.clientId = n.clientId ∧ x.ids.clientOrderId = n.clientOrderId ∧
        (x.side = n.side ∨ MEOrderBook.noMoreCrosses n.side n.price x.price)
  | .cancel .. => False

instance (ladders : Ladders MEOrder) : (c : Call) → Decidable (HidesOrder ladders c)
  | .add _ => inferInstanceAs (Decidable (_ ∧ _))
  | .cancel .. => isFalse id

section Sweep

variable (g : MEOrderBook.Aggressor) (price : ℤ) (leavesQty : ℕ) {ls : List (Level ℤ MEOrder)}

theorem crossingQty_stop {side : Side} (hs : side.IsBuyOrSell) {L : Level ℤ MEOrder}
    (hsort : Ladder.Sorted (better side.opposite) (L :: ls))
    (hx : MEOrderBook.noMoreCrosses side price L.price) : crossingQty side price (L :: ls) = 0 := by
  have hnil : crossingLevels side price (L :: ls) = [] := by
    refine List.filter_eq_nil_iff.mpr fun K hK => ?_
    have hKx : MEOrderBook.noMoreCrosses side price K.price := by
      rcases List.mem_cons.mp hK with rfl | hK
      · exact hx
      · have hb := (List.pairwise_cons.mp hsort).1 K.price (List.mem_map_of_mem hK)
        unfold MEOrderBook.noMoreCrosses at *
        rcases hs with rfl | rfl <;> simp [better, Side.opposite] at * <;> omega
    simpa using hKx
  rw [crossingQty, hnil]
  rfl

theorem crossingQty_cons_cons {side : Side} {p : ℤ} {o : MEOrder} {os : List MEOrder}
    (hx : ¬ MEOrderBook.noMoreCrosses side price p) :
    crossingQty side price (⟨p, o :: os⟩ :: ls) =
      o.qty + crossingQty side price (Ladder.keep ⟨p, os⟩ ++ ls) := by
  have hcons : crossingLevels side price (⟨p, o :: os⟩ :: ls) =
      ⟨p, o :: os⟩ :: crossingLevels side price ls :=
    List.filter_cons_of_pos (by simpa using hx)
  have hkeep : crossingLevels side price (Ladder.keep ⟨p, os⟩) = Ladder.keep ⟨p, os⟩ := by
    refine List.filter_eq_self.mpr fun K hK => ?_
    unfold Ladder.keep at hK
    split_ifs at hK
    · cases hK
    · rw [List.mem_singleton.mp hK]
      simpa using hx
  have happ : crossingLevels side price (Ladder.keep ⟨p, os⟩ ++ ls) =
      Ladder.keep ⟨p, os⟩ ++ crossingLevels side price ls := by
    rw [crossingLevels, List.filter_append]
    exact congrArg (· ++ _) hkeep
  simp only [crossingQty, hcons, happ, Ladder.entries_cons, Ladder.entries_append,
    Ladder.entries_keep, List.cons_append, List.map_cons, List.sum_cons]

theorem sweep_leavesQty (hs : g.side.IsBuyOrSell) (hn : Ladder.NonEmpty ls)
    (hsort : Ladder.Sorted (better g.side.opposite) ls) :
    (sweep g price leavesQty ls).leavesQty = leavesQty - crossingQty g.side price ls := by
  induction leavesQty, ls, hn using sweep_induct g price with
  | nil q hn => rfl
  | zero ls hn =>
    rw [sweep_zero]
    exact (Nat.zero_sub _).symm
  | stop q L ls hn hx =>
    rw [sweep_stop g price ls q hx, crossingQty_stop price hs hsort hx]
    rfl
  | part q p o os ls hn h0 hx hq =>
    rw [sweep_part g price os ls h0 hx hq, crossingQty_cons_cons price hx]
    dsimp only
    omega
  | filled q p o os ls hn hn' h0 hx hq ih =>
    have hsort' : Ladder.Sorted (better g.side.opposite) (Ladder.keep ⟨p, os⟩ ++ ls) := by
      refine List.Pairwise.sublist ?_ hsort
      unfold Ladder.keep
      split_ifs
      · exact List.sublist_cons_self _ _
      · exact List.Sublist.refl _
    rw [sweep_filled g price os ls h0 hx hq, crossingQty_cons_cons price hx]
    dsimp only
    rw [ih hsort']
    omega

end Sweep

section Steps

variable {p : MEOrderBook} {b : IndexedBook} {n : NewOrder} {c : Call}

theorem afterSweep_of_leavesQty (hw : b.WF) (hn : n.Admissible)
    (hq : (b.book.swept b.fillId n).leavesQty ≠ 0) {x : MEOrder}
    (hx : x ∈ (b.book.afterSweep b.fillId n).entries) : x ∈ b.book.ladders.entries ∧
      (x.side = n.side ∨ MEOrderBook.noMoreCrosses n.side n.price x.price) := by
  have hs := hn.1
  have hok := hw.book.sides _ hs.opposite
  rcases List.mem_append.mp ((PriceTimeBook.afterSweep_perm hs).mem_iff.mp hx) with hx | hx
  · obtain ⟨rest, hrest, heaten⟩ := sweep_eaten
      ⟨n.tickerId, n.clientId, n.side, n.clientOrderId, b.fillId⟩ n.price n.qty hok.nonEmpty
    have hdone := (sweep_done ⟨n.tickerId, n.clientId, n.side, n.clientOrderId, b.fillId⟩ n.price
      n.qty hs hok.sorted hok.nonEmpty).resolve_left hq
    have hleft : Ladder.entries (b.book.swept b.fillId n).left = rest := by
      change Eaten rest (Ladder.entries (b.book.swept b.fillId n).left)
        (b.book.swept b.fillId n).leavesQty at heaten
      generalize (b.book.swept b.fillId n).leavesQty = q at heaten hq
      generalize Ladder.entries (b.book.swept b.fillId n).left = l at heaten
      cases heaten with
      | whole q => rfl
      | part o os q h h0 hlt => exact absurd rfl hq
    have hmem : x ∈ Ladder.entries (b.book.ladders.side n.side.opposite) := by
      rw [hrest]
      exact List.mem_append_right _ (hleft ▸ hx)
    refine ⟨(b.book.ladders.mem_entries_side hs).mpr (.inr hmem), .inr ?_⟩
    obtain ⟨L, hL, hxL⟩ := Ladder.mem_entries.mp hx
    have hprice := ((hok.sweep ⟨n.tickerId, n.clientId, n.side, n.clientOrderId, b.fillId⟩ n.price
      n.qty).orders L hL x hxL).price_eq
    rw [hprice]
    exact hdone L hL
  · obtain ⟨L, hL, hxL⟩ := Ladder.mem_entries.mp hx
    exact ⟨(b.book.ladders.mem_entries_side hs).mpr (.inl hx),
      .inl ((hw.book.sides _ hs).orders L hL x hxL).side_eq⟩

theorem IndexedBook.exact_call (hw : b.WF) (he : b.Exact) (hc : c.Admissible)
    (hhide : ¬ HidesOrder b.book.ladders c) : (b.call c).1.Exact := by
  cases c with
  | add n =>
    refine IndexedBook.exact_iff.mpr fun k => ?_
    refine IndexedBook.exactFor_add_of hw (IndexedBook.exact_iff.mp he k) hc ?_
    rintro hq rfl x hx hxc ho
    obtain ⟨hmem, hkeep⟩ := afterSweep_of_leavesQty hw hc hq hx
    have hok := hw.book.sides _ hc.1.opposite
    have hleaves := sweep_leavesQty ⟨n.tickerId, n.clientId, n.side, n.clientOrderId, b.fillId⟩
      n.price n.qty hc.1 hok.nonEmpty hok.sorted
    refine hhide ⟨?_, x, hmem, hxc, ho, hkeep⟩
    have hq' : n.qty - crossingQty n.side n.price (b.book.ladders.side n.side.opposite) ≠ 0 :=
      hleaves ▸ hq
    omega
  | cancel clientId orderId tickerId => exact IndexedBook.exact_cancel hw he _ _ _

end Steps

def MEOrderBook.Next (p : MEOrderBook) (c : Call) (p' : MEOrderBook) : Prop :=
  ∃ events, p.call c = .ok (p', events)

def MEOrderBook.HidesOrder (p : MEOrderBook) (c : Call) : Prop :=
  ∃ ladders, p.book.decode = some ladders ∧ Exchange.HidesOrder ladders c

def MEOrderBook.Cancellable (p : MEOrderBook) (x : MEOrder) : Prop :=
  ∀ tickerId, ∃ p' ladders, p.cancel x.ids.clientId x.ids.clientOrderId tickerId =
      .ok (p', PriceTimeBook.canceled x.ids.clientId x.ids.clientOrderId tickerId x) ∧
    p'.book.decode = some ladders ∧
    ∀ y ∈ ladders.entries, y.ids.marketOrderId ≠ x.ids.marketOrderId

section Runs

variable {p p' : MEOrderBook} {b : IndexedBook} {c : Call}

theorem Refines.decode (h : Refines p b) : p.book.decode = some b.book.ladders := by
  obtain ⟨s, htr, hlad, -⟩ := h
  rw [htr.stores.decode, hlad]

theorem Refines.cancellable (h : Refines p b) (hw : b.WF) (he : b.Exact) {x : MEOrder}
    (hx : x ∈ b.book.ladders.entries) : p.Cancellable x := by
  intro tickerId
  have hlookup := (IndexedBook.exact_iff.mp he x.ids.clientId).lookup hw hx rfl
  obtain ⟨p', hcancel, href⟩ := h.cancel hw tickerId (hw.book.order_ok hx).2.2.1.inRange
  have hb : b.cancel x.ids.clientId x.ids.clientOrderId tickerId = (⟨b.book.drop x,
      b.index.forget x⟩, PriceTimeBook.canceled x.ids.clientId x.ids.clientOrderId tickerId x) := by
    unfold IndexedBook.cancel
    rw [hlookup]
  rw [hb] at hcancel href
  exact ⟨p', _, hcancel, href.decode, fun y hy => ((hw.book.mem_drop hx).mp hy).2⟩

theorem Exact.lookup_iff (hw : b.WF) (he : b.Exact) (clientId orderId : ℕ) (x : MEOrder) :
    b.lookup clientId orderId = some x ↔
      x ∈ b.book.ladders.entries ∧ x.ids.clientId = clientId ∧ x.ids.clientOrderId = orderId := by
  constructor
  · intro hl
    obtain ⟨hx, hc, ho, -⟩ := IndexedBook.lookup_eq_some hw hl
    exact ⟨hx, hc, ho⟩
  · rintro ⟨hx, rfl, rfl⟩
    exact (IndexedBook.exact_iff.mp he _).lookup hw hx rfl

theorem every_resting_order_cancellable (checked : Bool) (tickerId : ℕ)
    (h : Trace.Reach MEOrderBook.Next (fun p c => c.Admissible ∧ ¬ p.HidesOrder c)
      (MEOrderBook.new checked tickerId) p) :
    ∃ ladders, p.book.decode = some ladders ∧
      (∀ clientId orderId x, p.restingOrder clientId orderId = some x ↔
        x ∈ ladders.entries ∧ x.ids.clientId = clientId ∧ x.ids.clientOrderId = orderId) ∧
      ∀ x ∈ ladders.entries, p.Cancellable x := by
  have key : ∃ b, Refines p b ∧ b.WF ∧ b.Exact := by
    induction h with
    | refl => exact ⟨_, refines_new checked tickerId, IndexedBook.wf_new, IndexedBook.exact_new⟩
    | step _ hx hb ih =>
      obtain ⟨b, href, hw, he⟩ := ih
      obtain ⟨hc, hhide⟩ := hx
      obtain ⟨events, hcall⟩ := hb
      obtain ⟨-, href'⟩ := href.call_of_ok hw hc hcall
      exact ⟨_, href', IndexedBook.wf_call hw hc,
        IndexedBook.exact_call hw he hc fun hh => hhide ⟨_, href.decode, hh⟩⟩
  obtain ⟨b, href, hw, he⟩ := key
  refine ⟨_, href.decode, fun clientId orderId x => ?_, fun x hx => href.cancellable hw he hx⟩
  rw [href.restingOrder hw]
  exact Exact.lookup_iff hw he clientId orderId x

theorem Refines.reach {calls : List Call} {events : List Event} (h : Refines p b) (hw : b.WF)
    (hc : ∀ c ∈ calls, c.Admissible)
    (hhide : Trace.Every (fun b c => (IndexedBook.call b c).1)
      (fun b c => ¬ Exchange.HidesOrder b.book.ladders c) b calls)
    (hrun : p.run calls = .ok (p', events)) :
    Trace.Reach MEOrderBook.Next (fun p c => c.Admissible ∧ ¬ p.HidesOrder c) p p' := by
  have key : ∀ p₀, Trace.Reach MEOrderBook.Next (fun p c => c.Admissible ∧ ¬ p.HidesOrder c) p₀ p →
      Trace.Reach MEOrderBook.Next (fun p c => c.Admissible ∧ ¬ p.HidesOrder c) p₀ p' := by
    intro p₀ hreach
    induction calls generalizing p b events with
    | nil =>
      cases hrun
      exact hreach
    | cons c calls ih =>
      obtain ⟨⟨p₁, ev⟩, hcall, hrun⟩ := bind_eq_ok.mp hrun
      obtain ⟨⟨p₂, more⟩, hmore, hrun⟩ := bind_eq_ok.mp hrun
      cases hrun
      have hcc := hc c (List.mem_cons_self ..)
      obtain ⟨-, href⟩ := h.call_of_ok hw hcc hcall
      have hnot : ¬ p.HidesOrder c := by
        rintro ⟨ladders, hdecode, hh⟩
        rw [h.decode] at hdecode
        cases hdecode
        exact hhide.1 hh
      exact ih href (IndexedBook.wf_call hw hcc) (fun x hx => hc x (List.mem_cons_of_mem _ hx))
        hhide.2 hmore (.step hreach ⟨hcc, hnot⟩ ⟨ev, hcall⟩)
  exact key p .refl

def reuseCalls : List Call :=
  [.add ⟨1, 10, 0, .sell, 100, 5⟩, .add ⟨3, 20, 0, .buy, 100, 3⟩, .add ⟨3, 20, 0, .buy, 99, 6⟩,
    .cancel 1 10 0, .add ⟨1, 10, 0, .sell, 101, 4⟩]

theorem every_resting_order_cancellable_sample :
    ∃ p events ladders, (MEOrderBook.new true 0).run reuseCalls = .ok (p, events) ∧
      p.book.decode = some ladders ∧ ladders.entries.length = 2 ∧
      (∀ clientId orderId x, p.restingOrder clientId orderId = some x ↔
        x ∈ ladders.entries ∧ x.ids.clientId = clientId ∧ x.ids.clientOrderId = orderId) ∧
      ∀ x ∈ ladders.entries, p.Cancellable x := by
  have hc : ∀ c ∈ reuseCalls, c.Admissible := by decide
  obtain ⟨p, hrun, href, -⟩ := (refines_new true 0).run reuseCalls IndexedBook.wf_new hc (by decide)
  obtain ⟨ladders, hdecode, hrest, hcancel⟩ := every_resting_order_cancellable true 0
    ((refines_new true 0).reach IndexedBook.wf_new hc (by decide) hrun)
  refine ⟨p, _, ladders, hrun, hdecode, ?_, hrest, hcancel⟩
  rw [href.decode] at hdecode
  cases hdecode
  decide

theorem reused_id_orphans_order :
    ∃ p p', (MEOrderBook.new true 0).run [.add ⟨1, 10, 0, .buy, 100, 5⟩,
        .add ⟨1, 10, 0, .buy, 99, 7⟩, .cancel 1 10 0] = .ok p ∧
      p.1.book.decode = some ⟨[⟨100, [⟨⟨0, 1, 10, 1⟩, .buy, 100, 5, 1⟩]⟩], []⟩ ∧
      p.1.cidOidToOrder 1 10 = none ∧
      p.1.cancel 1 10 0 = .ok (p', PriceTimeBook.rejected 1 10 0) := by
  obtain ⟨p, hrun, hobs⟩ := map_eq_ok (show
    ((MEOrderBook.new true 0).run [.add ⟨1, 10, 0, .buy, 100, 5⟩, .add ⟨1, 10, 0, .buy, 99, 7⟩,
      .cancel 1 10 0]).map (fun p => (p.1.book.decode, p.1.cidOidToOrder 1 10)) =
      .ok (some ⟨[⟨100, [⟨⟨0, 1, 10, 1⟩, .buy, 100, 5, 1⟩]⟩], []⟩, none) by decide +kernel)
  obtain ⟨hdecode, hindex⟩ := Prod.mk.inj hobs
  refine ⟨p, p.1, hrun, hdecode, hindex, ?_⟩
  have hfind : p.1.findOrder 1 10 = .ok none := by
    simp [MEOrderBook.findOrder, hindex, require_of, meMaxNumClients, meMaxOrderIds]
  simp only [MEOrderBook.cancel, hfind, ok_bind]
  rfl

end Runs

end Exchange

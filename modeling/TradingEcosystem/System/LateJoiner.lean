import TradingEcosystem.Exchange.MatchingEngine
import TradingEcosystem.System.Mirror
import TradingEcosystem.System.TickerBooks

namespace Trading

open Common Exchange

section Emission

variable {b : IndexedBook} {c : Call}

theorem sweep_update (g : MEOrderBook.Aggressor) (price : ℤ) (leavesQty : ℕ)
    (ls : List (Level ℤ MEOrder)) (hn : Ladder.NonEmpty ls) {u : MEMarketUpdate}
    (hu : u ∈ marketUpdates (sweep g price leavesQty ls).events) :
    u.tickerId = g.tickerId ∧ u.type ≠ .add ∧ u.type ≠ .clear := by
  induction leavesQty, ls, hn using sweep_induct g price with
  | nil q hn => cases hu
  | zero ls hn =>
    rw [sweep_zero] at hu
    cases hu
  | stop q L ls hn hc =>
    rw [sweep_stop g price ls q hc] at hu
    cases hu
  | part q p o os ls hn h0 hc hq =>
    rw [sweep_part g price os ls h0 hc hq, marketUpdates_part] at hu
    simp only [List.mem_cons, List.not_mem_nil, or_false] at hu
    rcases hu with rfl | rfl <;> simp
  | filled q p o os ls hn hn' h0 hc hq ih =>
    rw [sweep_filled g price os ls h0 hc hq] at hu
    simp only [marketUpdates_append, marketUpdates_filled, List.mem_append, List.mem_cons,
      List.not_mem_nil, or_false] at hu
    rcases hu with (rfl | rfl) | hu
    · simp
    · simp
    · exact ih hu

theorem swept_update (hw : b.WF) {n : NewOrder} (hs : n.side.IsBuyOrSell) {u : MEMarketUpdate}
    (hu : u ∈ marketUpdates (b.book.swept b.fillId n).events) :
    u.tickerId = n.tickerId ∧ u.type ≠ .add ∧ u.type ≠ .clear :=
  sweep_update _ _ _ _ (hw.book.sides _ hs.opposite).nonEmpty hu

def callTicker : Call → ℕ
  | .add n => n.tickerId
  | .cancel _ _ tickerId => tickerId

theorem cancel_update {clientId orderId tickerId : ℕ} {u : MEMarketUpdate}
    (hu : u ∈ marketUpdates (b.cancel clientId orderId tickerId).2) :
    u.tickerId = tickerId ∧ u.type = .cancel := by
  unfold IndexedBook.cancel at hu
  cases hl : b.lookup clientId orderId with
  | none =>
    rw [hl] at hu
    cases hu
  | some o =>
    rw [hl] at hu
    rw [List.mem_singleton.mp hu]
    exact ⟨rfl, rfl⟩

theorem call_update (hw : b.WF) (hc : c.Admissible) {u : MEMarketUpdate}
    (hu : u ∈ marketUpdates (b.call c).2) : u.tickerId = callTicker c ∧ u.type ≠ .clear := by
  cases c with
  | add n =>
    simp only [IndexedBook.call, IndexedBook.add, PriceTimeBook.place] at hu
    split_ifs at hu with hq
    · obtain ⟨ht, -, hclear⟩ := swept_update hw hc.1 hu
      exact ⟨ht, hclear⟩
    · simp only [PriceTimeBook.accepted, List.cons_append, marketUpdates_response,
        marketUpdates_append, List.mem_append] at hu
      rcases hu with hu | hu
      · obtain ⟨ht, -, hclear⟩ := swept_update hw hc.1 hu
        exact ⟨ht, hclear⟩
      · rw [List.mem_singleton.mp hu]
        exact ⟨rfl, by simp⟩
  | cancel clientId orderId tickerId =>
    obtain ⟨ht, hcancel⟩ := cancel_update hu
    exact ⟨ht, by simp [hcancel]⟩

theorem every_ascends {s : Ladders MarketOrder} {us : List MEMarketUpdate}
    (h : ∀ u ∈ us, u.type ≠ .add) : Trace.Every applyUpdate Ascends s us :=
  (Trace.every_of_mem h).mono fun _ _ hu htype => absurd htype hu

theorem call_ascends (hw : b.WF) (hc : c.Admissible) :
    Trace.Every applyUpdate Ascends (project b.book.ladders) (marketUpdates (b.call c).2) := by
  cases c with
  | add n =>
    have hsweep := every_ascends (s := project b.book.ladders) fun u hu =>
      (swept_update hw hc.1 hu).2.1
    simp only [IndexedBook.call, IndexedBook.add, PriceTimeBook.place]
    split_ifs with hq
    · exact hsweep
    · simp only [PriceTimeBook.accepted, List.cons_append, marketUpdates_response,
        marketUpdates_append]
      refine Trace.every_append.mpr ⟨hsweep, fun _ o ho => ?_, trivial⟩
      have hall : Trace.run applyUpdate (project b.book.ladders)
          (marketUpdates (b.book.swept b.fillId n).events) =
          project (b.book.afterSweep b.fillId n) := (swept_updates hw hc.1).2
      rw [hall] at ho
      obtain ⟨x, hx, rfl⟩ := mem_project.mp ho
      exact (PriceTimeBook.wf_afterSweep hw.book hc.1).fresh x hx
  | cancel clientId orderId tickerId =>
    exact every_ascends fun u hu => by simp [(cancel_update hu).2]

theorem numAddUpdates_append (us vs : List MEMarketUpdate) :
    numAddUpdates (us ++ vs) = numAddUpdates us + numAddUpdates vs := List.countP_append

theorem numAddUpdates_eq_zero {us : List MEMarketUpdate} (h : ∀ u ∈ us, u.type ≠ .add) :
    numAddUpdates us = 0 :=
  List.countP_eq_zero.mpr fun u hu => by simpa using h u hu

theorem numAddUpdates_call (hw : b.WF) (hc : c.Admissible) :
    numAddUpdates (marketUpdates (b.call c).2) ≤ numAdds [c] := by
  cases c with
  | add n =>
    have hsweep := numAddUpdates_eq_zero fun u hu => (swept_update hw hc.1 hu).2.1
    simp only [IndexedBook.call, IndexedBook.add, PriceTimeBook.place]
    split_ifs with hq
    · exact hsweep.le.trans (Nat.zero_le _)
    · simp only [PriceTimeBook.accepted, List.cons_append, marketUpdates_response,
        marketUpdates_append, numAddUpdates_append, hsweep]
      exact Nat.le_refl 1
  | cancel clientId orderId tickerId =>
    simp only [IndexedBook.call, IndexedBook.cancel]
    cases b.lookup clientId orderId <;> exact Nat.le_refl 0

end Emission

section Engine

variable {B : IndexedBooks} {req : MEClientRequest}

def projectAll (B : IndexedBooks) : TickerLadders := fun t => project (B t).book.ladders

theorem callTicker_call (req : MEClientRequest) : callTicker req.call = req.tickerId := by
  unfold MEClientRequest.call
  split_ifs <;> rfl

theorem step_emits (hw : ∀ t, (B t).WF) (hreq : req.Admissible)
    (hroom : (B req.tickerId).book.nextMarketOrderId + numNews [req] ≤ meMaxOrderIds) :
    Trace.Every applyTicker Emitted (projectAll B) (marketUpdates (B.step req).2) ∧
      Trace.run applyTicker (projectAll B) (marketUpdates (B.step req).2) =
        projectAll (B.step req).1 := by
  obtain ⟨ht, -, hc⟩ := hreq
  have hupdate : ∀ u ∈ marketUpdates (B.step req).2, u.tickerId = req.tickerId ∧ u.type ≠ .clear :=
    fun u hu => callTicker_call req ▸ call_update (hw _) hc hu
  have htick := fun u hu => (hupdate u hu).1
  obtain ⟨happ, hall⟩ := call_updates (hw req.tickerId) hc (IndexedBook.fits_of_room hroom)
  constructor
  · have hfeed := every_ticker (S := projectAll B) htick (every_of_applicableAll happ)
    have hasc := every_ticker (S := projectAll B) htick (call_ascends (hw req.tickerId) hc)
    refine (((Trace.every_of_mem hupdate).and hfeed).and hasc).mono ?_
    rintro S u ⟨⟨⟨htu, hclear⟩, hu⟩, hau⟩
    exact ⟨⟨htu ▸ ht, hu⟩, hau, hclear⟩
  · rw [run_ticker htick]
    funext t
    by_cases hs : t = req.tickerId
    · subst hs
      rw [Function.update_self]
      simp only [projectAll, IndexedBooks.step, Function.update_self]
      exact hall
    · simp only [projectAll, IndexedBooks.step, Function.update_of_ne hs]

theorem wf_step (hw : ∀ t, (B t).WF) (hreq : req.Admissible) (t : ℕ) : ((B.step req).1 t).WF := by
  by_cases hs : t = req.tickerId
  · subst hs
    simp only [IndexedBooks.step, Function.update_self]
    exact IndexedBook.wf_call (hw _) hreq.2.2
  · simp only [IndexedBooks.step, Function.update_of_ne hs]
    exact hw t

theorem run_emits (reqs : List MEClientRequest) (hw : ∀ t, (B t).WF)
    (hreqs : ∀ req ∈ reqs, req.Admissible) (hroom : HasRoom B (numNews reqs)) :
    Trace.Every applyTicker Emitted (projectAll B) (marketUpdates (B.run reqs).2) ∧
      Trace.run applyTicker (projectAll B) (marketUpdates (B.run reqs).2) =
        projectAll (B.run reqs).1 ∧
      numAddUpdates (marketUpdates (B.run reqs).2) ≤ numNews reqs := by
  induction reqs generalizing B with
  | nil => exact ⟨trivial, rfl, Nat.le_refl 0⟩
  | cons req reqs ih =>
    rw [numNews_cons] at hroom ⊢
    have hreq := hreqs req (List.mem_cons_self ..)
    obtain ⟨hev, hrun⟩ := step_emits hw hreq (by have := hroom req.tickerId; omega)
    obtain ⟨hev', hrun', hnum'⟩ := ih (wf_step hw hreq)
      (fun x hx => hreqs x (List.mem_cons_of_mem _ hx)) hroom.step
    have hnum := numAddUpdates_call (hw req.tickerId) hreq.2.2
    rw [IndexedBooks.run, marketUpdates_append, Trace.every_append, Trace.run_append,
      numAddUpdates_append, hrun]
    exact ⟨⟨hev, hev'⟩, hrun', Nat.add_le_add hnum hnum'⟩

end Engine

section Joining

def HoldsResting (σ : SnapshotSynthesizer) (e : MatchingEngine) : Prop :=
  ∀ t, ∃ ladders, (e.tickerOrderBook t).book.decode = some ladders ∧
    ∀ i x, σ.order t i = some x ↔
      ∃ o ∈ ladders.entries, o.ids.marketOrderId = i ∧ x = addUpdate t (toMarketOrder o)

structure CycleOf (seqNum : ℕ) (frames : List MEMarketUpdate) (cycle : List MDPMarketUpdate) :
    Prop where
  numbered : cycle.map MDPMarketUpdate.seqNum = List.range cycle.length
  messages : cycle.map MDPMarketUpdate.meMarketUpdate =
    snapshotMarker .snapshotStart seqNum :: frames ++ [snapshotMarker .snapshotEnd seqNum]
  types : ∀ x ∈ frames, x.type = .clear ∨ x.type = .add

variable {M : TickerOrderBook} {b : OrderTable} {B : IndexedBooks} {e : MatchingEngine}
  {σ : SnapshotSynthesizer} {live : List ((ℕ × ℕ) × ℕ)}

theorem Holding.cycleOf (h : Holding σ b live) :
    ∃ cycle, σ.publishSnapshot = .ok cycle ∧
      CycleOf σ.lastIncSeqNum (bookFrames σ.order) cycle := by
  refine ⟨_, h.readable.publishSnapshot, ?_, map_meMarketUpdate_numberFrames _, fun x hx => ?_⟩
  · rw [map_seqNum_numberFrames, length_numberFrames]
  · obtain ⟨t, -, rfl | ⟨i, -, ho⟩⟩ := OrderTable.mem_bookFrames hx
    · exact .inl rfl
    · rw [h.order] at ho
      obtain ⟨o, -, rfl⟩ := Option.map_eq_some_iff.mp ho
      exact .inr rfl

theorem Holding.holdsResting (h : Holding σ b live) (ht : Tracked M (projectAll B) b)
    (hr : RefinesAll e B) : HoldsResting σ e := by
  intro t
  obtain ⟨s, htr, hlad, -⟩ := hr.books t
  refine ⟨_, by rw [htr.stores.decode, ← hlad], fun i x => ?_⟩
  rw [h.order, Option.map_eq_some_iff]
  constructor
  · rintro ⟨o, ho, rfl⟩
    obtain ⟨hmem, hid⟩ := (ht.lists t i o).mp ho
    obtain ⟨y, hy, rfl⟩ := mem_project.mp hmem
    exact ⟨y, hy, hid, rfl⟩
  · rintro ⟨y, hy, hid, rfl⟩
    exact ⟨toMarketOrder y, (ht.lists t i _).mpr ⟨mem_project.mpr ⟨y, hy, rfl⟩, hid⟩, rfl⟩

theorem Tracked.joins (checked : Bool) {S : TickerLadders} {vs : List MEMarketUpdate}
    (h : Tracked M S b) (hvs : Trace.Every applyTicker Emitted S vs) :
    ∃ joiner veteran,
      (TickerOrderBook.new checked).run
        ((List.range meMaxTickers).flatMap (tickerBlock b) ++ vs) = .ok joiner ∧
      M.run vs = .ok veteran ∧ ∀ t, (joiner t).SameView (veteran t) := by
  obtain ⟨hev, hrun⟩ := h.snapshot
  obtain ⟨J, hJ, hmirJ⟩ := mirrors_run (fun t => mirrors_new checked t) hev
  rw [hrun] at hmirJ
  have hfeed := hvs.mono fun S u hu => hu.feedable
  obtain ⟨joiner, hjoin, hjmir⟩ := mirrors_run hmirJ hfeed
  obtain ⟨veteran, hvet, hvmir⟩ := mirrors_run h.mirrors hfeed
  refine ⟨joiner, veteran, ?_, hvet, fun t => (hjmir t).sameView (hvmir t)⟩
  exact (TickerOrderBook.run_append hJ).trans hjoin

theorem run_prefix (checked : Bool) {xs ys : List MEClientRequest}
    (hreqs : ∀ req ∈ xs ++ ys, req.Admissible) (hnews : numNews (xs ++ ys) < meMaxOrderIds) :
    ∃ e, (MatchingEngine.new checked).run xs = .ok (e, (IndexedBooks.new.run xs).2) ∧
      RefinesAll e (IndexedBooks.new.run xs).1 ∧
      marketUpdates (IndexedBooks.new.run xs).2 <+:
        marketUpdates (IndexedBooks.new.run (xs ++ ys)).2 ∧
      Trace.run applyTicker (projectAll IndexedBooks.new)
          (marketUpdates (IndexedBooks.new.run xs).2) =
        projectAll (IndexedBooks.new.run xs).1 := by
  rw [numNews_append] at hnews
  have hxs : ∀ req ∈ xs, req.Admissible := fun req h => hreqs req (List.mem_append_left _ h)
  have hroom : HasRoom IndexedBooks.new (numNews xs) := hasRoom_new (by omega)
  obtain ⟨e, hrun, href⟩ := (refinesAll_new checked).run xs hxs hroom
  obtain ⟨-, hlad, -⟩ := run_emits xs (refinesAll_new checked).wf hxs hroom
  refine ⟨e, hrun, href, ?_, hlad⟩
  rw [IndexedBooks.run_append, marketUpdates_append]
  exact List.prefix_append _ _

theorem snapshot_joins_history (checked : Bool) (reqs : List MEClientRequest)
    (hreqs : ∀ req ∈ reqs, req.Admissible) (hnews : numNews reqs < meMaxOrderIds) :
    ∃ e events, (MatchingEngine.new checked).run reqs = .ok (e, events) ∧
      ∀ n m, n ≤ m → m ≤ (marketUpdates events).length →
        ∃ σ cycle frames early joiner veteran,
          (SnapshotSynthesizer.new checked).consume (publish 1 ((marketUpdates events).take n)) =
            .ok σ ∧
          (TickerOrderBook.new checked).run ((marketUpdates events).take n) = .ok early ∧
          (∀ t i, σ.order t i = ((early t).restingOrder i).map (addUpdate t)) ∧
          (∀ xs ys, reqs = xs ++ ys → ∃ e' events', (MatchingEngine.new checked).run xs =
            .ok (e', events') ∧ ((marketUpdates events').length = n → HoldsResting σ e')) ∧
          σ.publishSnapshot = .ok cycle ∧ CycleOf n frames cycle ∧
          (TickerOrderBook.new checked).run (frames ++ ((marketUpdates events).take m).drop n) =
            .ok joiner ∧
          (TickerOrderBook.new checked).run ((marketUpdates events).take m) = .ok veteran ∧
          ∀ t, (joiner t).SameView (veteran t) := by
  obtain ⟨e, hrun, -⟩ := (refinesAll_new checked).run reqs hreqs (hasRoom_new hnews)
  obtain ⟨hus, -, hnum⟩ := run_emits reqs (refinesAll_new checked).wf hreqs (hasRoom_new hnews)
  refine ⟨e, _, hrun, fun n m hnm hm => ?_⟩
  generalize hu : marketUpdates (IndexedBooks.new.run reqs).2 = us at hus hnum hm ⊢
  have hsplit : us.take m = us.take n ++ (us.take m).drop n := by
    rw [← min_eq_left hnm, ← List.take_take, min_eq_left hnm]
    exact (List.take_append_drop n (us.take m)).symm
  have hpre : Trace.Every applyTicker Emitted (projectAll IndexedBooks.new) (us.take m) := by
    rw [← List.take_append_drop m us, Trace.every_append] at hus
    exact hus.1
  rw [hsplit, Trace.every_append] at hpre
  obtain ⟨early, hearly, htr, hann⟩ := (tracked_new checked).run hpre.1
  have hadds : numAddUpdates (us.take n) < meMaxOrderIds :=
    ((List.take_sublist n us).countP_le.trans hnum).trans_lt hnews
  obtain ⟨σ, live, hcons, hhold, hseq⟩ := synthesizer_consume checked hann hadds
  obtain ⟨cycle, hpub, hcycle⟩ := hhold.cycleOf
  obtain ⟨joiner, veteran, hjoin, hvet, hsame⟩ := htr.joins checked hpre.2
  have hlen : σ.lastIncSeqNum = n := by
    rw [hseq, List.length_take, min_eq_left (hnm.trans hm)]
  rw [hlen] at hcycle
  refine ⟨σ, cycle, bookFrames σ.order, early, joiner, veteran, hcons, hearly, fun t i => ?_, ?_,
    hpub, hcycle, ?_, ?_, hsame⟩
  · rw [htr.restingOrder, hhold.order]
  · rintro xs ys rfl
    obtain ⟨e', hrun', href, hpref, hlad⟩ := run_prefix checked hreqs hnews
    refine ⟨e', _, hrun', fun hlen' => ?_⟩
    rw [hu, List.prefix_iff_eq_take, hlen'] at hpref
    rw [hpref] at hlad
    have htr' : Tracked early (projectAll (IndexedBooks.new.run xs).1) _ := hlad ▸ htr
    exact hhold.holdsResting htr' href
  · rw [hhold.bookFrames_eq]
    exact hjoin
  · rw [hsplit, TickerOrderBook.run_append hearly]
    exact hvet

def sampleRequests : List MEClientRequest :=
  [⟨.new, 1, 0, 10, .sell, 101, 5⟩, ⟨.new, 1, 3, 11, .buy, 100, 7⟩, ⟨.new, 2, 0, 10, .buy, 101, 2⟩,
    ⟨.new, 2, 0, 11, .sell, 101, 4⟩, ⟨.cancel, 1, 3, 11, .buy, 100, 7⟩]

theorem snapshot_joins_history_sample :
    ∃ e events, (MatchingEngine.new true).run sampleRequests = .ok (e, events) ∧
      ∀ n m, n ≤ m → m ≤ (marketUpdates events).length →
        ∃ σ cycle frames early joiner veteran,
          (SnapshotSynthesizer.new true).consume (publish 1 ((marketUpdates events).take n)) =
            .ok σ ∧
          (TickerOrderBook.new true).run ((marketUpdates events).take n) = .ok early ∧
          (∀ t i, σ.order t i = ((early t).restingOrder i).map (addUpdate t)) ∧
          (∀ xs ys, sampleRequests = xs ++ ys → ∃ e' events', (MatchingEngine.new true).run xs =
            .ok (e', events') ∧ ((marketUpdates events').length = n → HoldsResting σ e')) ∧
          σ.publishSnapshot = .ok cycle ∧ CycleOf n frames cycle ∧
          (TickerOrderBook.new true).run (frames ++ ((marketUpdates events).take m).drop n) =
            .ok joiner ∧
          (TickerOrderBook.new true).run ((marketUpdates events).take m) = .ok veteran ∧
          ∀ t, (joiner t).SameView (veteran t) :=
  snapshot_joins_history true sampleRequests (by decide) (by decide)

end Joining

end Trading

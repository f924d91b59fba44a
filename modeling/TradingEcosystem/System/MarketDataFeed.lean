import TradingEcosystem.System.FeedRecovery
import TradingEcosystem.System.LateJoiner
import Mathlib.Data.List.GetD

namespace Trading

open Common Exchange

section Count

variable {b : IndexedBook} {c : Call} {B : IndexedBooks} {req : MEClientRequest}

def updatesOf (events : List Event) : ℕ := (marketUpdates events).length

theorem updatesOf_append (xs ys : List Event) :
    updatesOf (xs ++ ys) = updatesOf xs + updatesOf ys := by
  rw [updatesOf, marketUpdates_append, List.length_append]
  rfl

theorem updatesOf_sweep (g : MEOrderBook.Aggressor) (price : ℤ) (leavesQty : ℕ)
    {ls : List (Level ℤ MEOrder)} (hn : Ladder.NonEmpty ls) :
    updatesOf (sweep g price leavesQty ls).events ≤
      2 * (sweep g price leavesQty ls).removed.length + 2 := by
  induction leavesQty, ls, hn using sweep_induct g price with
  | nil q hn => exact Nat.zero_le _
  | zero ls hn =>
    rw [sweep_zero]
    exact Nat.zero_le _
  | stop q L ls hn hc =>
    rw [sweep_stop g price ls q hc]
    exact Nat.zero_le _
  | part q p o os ls hn h0 hc hq =>
    rw [sweep_part g price os ls h0 hc hq, updatesOf, marketUpdates_part]
    exact Nat.le_refl 2
  | filled q p o os ls hn hn' h0 hc hq ih =>
    rw [sweep_filled g price os ls h0 hc hq]
    simp only [updatesOf, marketUpdates_append, marketUpdates_filled, List.length_append,
      List.length_cons, List.length_nil] at ih ⊢
    omega

theorem updatesOf_call (hw : b.WF) (hc : c.Admissible) :
    updatesOf (b.call c).2 + 2 * (b.call c).1.book.ladders.entries.length ≤
      2 * b.book.ladders.entries.length + 5 * numAdds [c] := by
  cases c with
  | add n =>
    have hsweep := updatesOf_sweep ⟨n.tickerId, n.clientId, n.side, n.clientOrderId, b.fillId⟩
      n.price n.qty (hw.book.sides _ hc.1.opposite).nonEmpty
    have hperm := (@PriceTimeBook.swept_perm b.book n b.fillId hw.book hc.1).length_eq
    rw [List.length_append, List.length_map, List.length_map, List.length_map] at hperm
    change updatesOf (b.book.swept b.fillId n).events ≤
      2 * (b.book.swept b.fillId n).removed.length + 2 at hsweep
    have hadds : numAdds [Call.add n] = 1 := rfl
    simp only [IndexedBook.call, IndexedBook.add, PriceTimeBook.place, hadds]
    split_ifs with hq
    · have hev : updatesOf (b.book.accepted n :: (b.book.swept b.fillId n).events) =
        updatesOf (b.book.swept b.fillId n).events := rfl
      dsimp only
      omega
    · have hrest := (PriceTimeBook.rest_perm (b.book.afterSweep b.fillId n)
        (o := b.book.remainder b.fillId n) hc.1).length_eq
      have hev : updatesOf (b.book.accepted n :: (b.book.swept b.fillId n).events ++
          [PriceTimeBook.added (b.book.remainder b.fillId n)]) =
          updatesOf (b.book.swept b.fillId n).events + 1 := updatesOf_append _ _
      rw [List.length_cons] at hrest
      dsimp only
      omega
  | cancel clientId orderId tickerId =>
    simp only [IndexedBook.call, IndexedBook.cancel]
    cases hl : b.lookup clientId orderId with
    | none => exact Nat.le_of_eq (Nat.zero_add _)
    | some o =>
      obtain ⟨ho, -⟩ := IndexedBook.lookup_eq_some hw hl
      have hlt : (b.book.drop o).ladders.entries.length < b.book.ladders.entries.length := by
        rw [(hw.book.drop_entries ho).length_eq]
        refine List.length_filter_lt_length_iff_exists.mpr ⟨o, ho, ?_⟩
        simp
      have hev : updatesOf (PriceTimeBook.canceled clientId orderId tickerId o) = 1 := rfl
      dsimp only
      omega

def restingCount (B : IndexedBooks) : ℕ :=
  ∑ t ∈ Finset.range meMaxTickers, (B t).book.ladders.entries.length

theorem updatesOf_step (hw : ∀ t, (B t).WF) (hreq : req.Admissible) :
    updatesOf (B.step req).2 + 2 * restingCount (B.step req).1 ≤
      2 * restingCount B + 5 * numNews [req] := by
  have hmem : req.tickerId ∈ Finset.range meMaxTickers := Finset.mem_range.mpr hreq.1
  have hcall := updatesOf_call (hw req.tickerId) hreq.2.2
  have hafter : ∀ t ∈ (Finset.range meMaxTickers).erase req.tickerId,
      ((B.step req).1 t).book.ladders.entries.length = (B t).book.ladders.entries.length := by
    intro t ht
    have hother : (B.step req).1 t = B t := Function.update_of_ne (Finset.ne_of_mem_erase ht) ..
    rw [hother]
  have hself : (B.step req).1 req.tickerId = ((B req.tickerId).call req.call).1 :=
    Function.update_self ..
  rw [restingCount, restingCount, ← Finset.add_sum_erase _ _ hmem,
    ← Finset.add_sum_erase (Finset.range meMaxTickers)
      (fun t => (B t).book.ladders.entries.length) hmem, Finset.sum_congr rfl hafter, hself]
  change updatesOf ((B req.tickerId).call req.call).2 + _ ≤ _
  change _ ≤ _ + 5 * numNews [req] at hcall
  omega

theorem updatesOf_run (reqs : List MEClientRequest) (hw : ∀ t, (B t).WF)
    (hreqs : ∀ req ∈ reqs, req.Admissible) :
    updatesOf (B.run reqs).2 ≤ 2 * restingCount B + 5 * numNews reqs := by
  induction reqs generalizing B with
  | nil => exact Nat.zero_le _
  | cons req reqs ih =>
    have hreq := hreqs req (List.mem_cons_self ..)
    have hstep := updatesOf_step hw hreq
    have hrest := ih (wf_step hw hreq) fun x hx => hreqs x (List.mem_cons_of_mem _ hx)
    rw [IndexedBooks.run, updatesOf_append, numNews_cons]
    omega

theorem length_updates_lt {reqs : List MEClientRequest} (hreqs : ∀ req ∈ reqs, req.Admissible)
    (hnews : numNews reqs < meMaxOrderIds) :
    (marketUpdates (IndexedBooks.new.run reqs).2).length + 1 < 2 ^ 64 := by
  have hrun := updatesOf_run reqs (refinesAll_new true).wf hreqs
  have hnil : restingCount IndexedBooks.new = 0 := rfl
  have hmax : meMaxOrderIds = 1048576 := rfl
  rw [updatesOf, hnil] at hrun
  omega

end Count

section Numbering

variable {τ ι : Type} {us : List MEMarketUpdate} {n j k : ℕ}

def feedOf (us : List MEMarketUpdate) (k : ℕ) : MEMarketUpdate := us.getD (k - 1) (clearUpdate 0)

theorem feedOf_succ (h : k < us.length) : feedOf us (k + 1) = us[k] := by
  rw [feedOf, Nat.add_sub_cancel, List.getD_eq_getElem _ _ h]

theorem feedOf_slice (h : n + j ≤ us.length) :
    ((List.range j).map fun i => feedOf us (n + 1 + i)) = (us.drop n).take j := by
  refine List.ext_getElem (by simp; omega) fun i hi _ => ?_
  rw [List.length_map, List.length_range] at hi
  rw [List.getElem_map, List.getElem_range, List.getElem_take, List.getElem_drop,
    Nat.add_right_comm, feedOf_succ (by omega)]

theorem tableAfter_feedOf (h : k ≤ us.length) :
    tableAfter (feedOf us) k = OrderTable.empty.fold (us.take k) := by
  have hslice := @feedOf_slice us 0 k (by omega)
  rw [List.drop_zero] at hslice
  rw [tableAfter, history, ← hslice]
  congr 1
  exact List.map_congr_left fun i _ => congrArg (feedOf us) (by omega)

theorem tickerId_feedOf (h : ∀ u ∈ us, u.tickerId < meMaxTickers) (k : ℕ) :
    (feedOf us k).tickerId < meMaxTickers := by
  by_cases hk : k - 1 < us.length
  · rw [feedOf, List.getD_eq_getElem _ _ hk]
    exact h _ (List.getElem_mem hk)
  · rw [feedOf, List.getD_eq_default _ _ (Nat.le_of_not_lt hk)]
    exact Nat.zero_lt_succ 7

theorem mem_publish {m : MDPMarketUpdate} (h : m ∈ publish n us) :
    ∃ i, ∃ hi : i < us.length, m = ⟨n + i, us[i]⟩ := by
  induction us generalizing n with
  | nil => cases h
  | cons u us ih =>
    rcases List.mem_cons.mp h with rfl | h
    · exact ⟨0, Nat.zero_lt_succ _, rfl⟩
    · obtain ⟨i, hi, rfl⟩ := ih h
      refine ⟨i + 1, Nat.succ_lt_succ hi, ?_⟩
      rw [List.getElem_cons_succ, Nat.add_right_comm]
      rfl

end Numbering

section Client

variable {τ ι : Type} {us : List MEMarketUpdate} {checked : Bool} {c : MarketDataConsumer τ}
  {d : Delivery τ} {cycles : ι → List MDPMarketUpdate} {M : TickerOrderBook} {S : TickerLadders}
  {b : OrderTable} {n k : ℕ}

def laddersAfter (us : List MEMarketUpdate) : TickerLadders :=
  Trace.run applyTicker (fun _ => ⟨[], []⟩) us

def SnapshotAt (checked : Bool) (us : List MEMarketUpdate) (n : ℕ) (cycle : List MDPMarketUpdate) :
    Prop :=
  ∃ σ, (SnapshotSynthesizer.new checked).consume (publish 1 (us.take n)) = .ok σ ∧
    σ.publishSnapshot = .ok cycle

/-- One message of either stream. Any of them may come at any time, again, or not at all. -/
def Multicast (us : List MEMarketUpdate) (cycles : ι → List MDPMarketUpdate) (d : Delivery τ) :
    Prop :=
  if d.isSnapshot then ∃ k, asMDP d.packet.entry ∈ cycles k
  else asMDP d.packet.entry ∈ publish 1 us

instance (us : List MEMarketUpdate) (cycles : ι → List MDPMarketUpdate) [Fintype ι]
    (d : Delivery τ) : Decidable (Multicast us cycles d) :=
  inferInstanceAs (Decidable (if d.isSnapshot then ∃ k, asMDP d.packet.entry ∈ cycles k
    else asMDP d.packet.entry ∈ publish 1 us))

def BooksEmpty (checked : Bool) (c : MarketDataConsumer τ) : Prop :=
  ∃ M, (TickerOrderBook.new checked).run c.incomingMdUpdates = .ok M ∧
    ∀ t i, (M t).restingOrder i = none

/-- A snapshot is taken only when its messages are those of one cycle and the client's books are
empty: `MarketOrderBook` does not clear a book that holds orders. -/
def CommitsClean (checked : Bool) (cycles : ι → List MDPMarketUpdate) (c : MarketDataConsumer τ)
    (d : Delivery τ) : Prop :=
  Commits c d → FromOneCycle cycles c d ∧ BooksEmpty checked c

theorem Multicast.incremental (h : Multicast us cycles d) (hd : d.isSnapshot = false) :
    ∃ i, ∃ hi : i < us.length, d.packet.seqNum = i + 1 ∧ d.packet.message.update = us[i] := by
  unfold Multicast at h
  rw [hd] at h
  obtain ⟨i, hi, heq⟩ := mem_publish h
  exact ⟨i, hi, (congrArg MDPMarketUpdate.seqNum heq).trans (Nat.add_comm 1 i),
    congrArg MDPMarketUpdate.meMarketUpdate heq⟩

theorem Multicast.genuine (h : Multicast us cycles d) (hlen : us.length + 1 < 2 ^ 64) :
    Genuine (feedOf us) cycles d := by
  unfold Genuine
  cases hd : d.isSnapshot with
  | true =>
    unfold Multicast at h
    rwa [hd] at h
  | false =>
    obtain ⟨i, hi, hseq, hup⟩ := h.incremental hd
    rw [if_neg (by decide), hseq, feedOf_succ hi]
    exact ⟨hup, Nat.succ_pos i, by omega⟩

theorem Tracked.eq_nil (h : Tracked M S b) (hempty : ∀ t i, (M t).restingOrder i = none) :
    S = fun _ => ⟨[], []⟩ := by
  funext t
  have hnone : ∀ o, o ∉ (S t).entries := by
    intro o ho
    have hb := (h.lists t o.ids o).mpr ⟨ho, rfl⟩
    rw [← h.restingOrder, hempty] at hb
    cases hb
  have hside : ∀ {side : Side}, side.IsBuyOrSell → (S t).side side = [] := by
    intro side hs
    refine List.eq_nil_iff_forall_not_mem.mpr fun L hL => ?_
    obtain ⟨o, ho⟩ := List.exists_mem_of_ne_nil _ ((h.mirrors t).nonEmpty hs L hL)
    exact hnone o (((S t).mem_entries_side hs).mpr (.inl (Ladder.mem_entries.mpr ⟨L, hL, ho⟩)))
  exact Ladders.ext_side (Or.inl rfl : Side.IsBuyOrSell .buy) (hside (.inl rfl)) (hside (.inr rfl))

theorem applyTicker_marker (S : TickerLadders) (u : MEMarketUpdate) (h : (!isMarker u) = false) :
    applyTicker S u = S := by
  have hsame : applyUpdate (S u.tickerId) u = S u.tickerId := by
    simp only [isMarker, Bool.not_eq_false', Bool.or_eq_true, decide_eq_true_eq] at h
    rcases h with h | h <;> simp [applyUpdate, h]
  rw [applyTicker, hsame, Function.update_eq_self]

section Veteran

variable {cycle : List MDPMarketUpdate}
  (hus : Trace.Every applyTicker Emitted (fun _ => ⟨[], []⟩) us)

include hus

theorem veteran (checked : Bool) (k : ℕ) :
    ∃ V, (TickerOrderBook.new checked).run (us.take k) = .ok V ∧
      Tracked V (laddersAfter (us.take k)) (OrderTable.empty.fold (us.take k)) ∧
      Trace.Every OrderTable.apply Announces OrderTable.empty (us.take k) := by
  rw [← List.take_append_drop k us, Trace.every_append] at hus
  exact (tracked_new checked).run hus.1

theorem emitted_slice (n j : ℕ) :
    Trace.Every applyTicker Emitted (laddersAfter (us.take n)) ((us.drop n).take j) ∧
      Trace.run applyTicker (laddersAfter (us.take n)) ((us.drop n).take j) =
        laddersAfter (us.take (n + j)) := by
  have hsplit : us.take n ++ (us.drop n).take j = us.take (n + j) := List.take_add.symm
  constructor
  · rw [← List.take_append_drop (n + j) us, Trace.every_append, ← hsplit, Trace.every_append] at hus
    exact hus.1.2
  · rw [laddersAfter, laddersAfter, ← Trace.run_append, hsplit]

theorem SnapshotAt.published (hadds : numAddUpdates us < meMaxOrderIds) (hn : n ≤ us.length)
    (h : SnapshotAt checked us n cycle) :
    ∃ σ : SnapshotSynthesizer, σ.publishSnapshot = .ok cycle ∧ σ.lastIncSeqNum = n ∧
      Describes σ (tableAfter (feedOf us) n) ∧ HoldsAdds σ.order ∧
      bookFrames σ.order =
        (List.range meMaxTickers).flatMap (tickerBlock (OrderTable.empty.fold (us.take n))) := by
  obtain ⟨σ, hcons, hpub⟩ := h
  obtain ⟨V, -, -, hann⟩ := veteran hus checked n
  have hroom : numAddUpdates (us.take n) < meMaxOrderIds :=
    ((List.take_sublist n us).countP_le).trans_lt hadds
  obtain ⟨σ', live, hcons', hhold, hseq⟩ := synthesizer_consume checked hann hroom
  obtain rfl : σ' = σ := Except.ok.inj (hcons'.symm.trans hcons)
  have hdesc := hhold.describes
  have hadd := hdesc.adds hhold.keyed
  refine ⟨σ', hpub, ?_, ?_, fun t i u ht hi hu => (hadd t ht i hi u hu).1, hhold.bookFrames_eq⟩
  · rw [hseq, List.length_take, min_eq_left hn]
  · rw [tableAfter_feedOf hn]
    exact hdesc

end Veteran

theorem scanIncrementals_le {queued : QueuedMarketUpdates τ} {N : ℕ} (hN : N + 1 < 2 ^ 64)
    (h : ∀ e ∈ queued, e.1 ≤ N) {next : ℕ} (hnext : next ≤ N + 1) :
    (MarketDataConsumer.scanIncrementals next queued).nextExp ≤ N + 1 := by
  induction queued generalizing next with
  | nil => exact hnext
  | cons e queued ih =>
    obtain ⟨seqNum, m⟩ := e
    have hle := h (seqNum, m) (List.mem_cons_self ..)
    replace ih := @ih fun e he => h e (List.mem_cons_of_mem _ he)
    rw [MarketDataConsumer.scanIncrementals]
    by_cases hlt : seqNum < next
    · rw [if_pos hlt]
      exact ih hnext
    rw [if_neg hlt]
    by_cases hne : seqNum = next
    · subst hne
      have hmod : (seqNum + 1) % 2 ^ 64 = seqNum + 1 :=
        Nat.mod_eq_of_lt (lt_of_le_of_lt (Nat.succ_le_succ hle) hN)
      rw [if_neg (not_not_intro rfl), hmod]
      exact ih (Nat.succ_le_succ hle)
    · rw [if_pos hne]
      exact hnext

structure Following (checked : Bool) (us : List MEMarketUpdate) (c : MarketDataConsumer τ)
    (M : TickerOrderBook) (k : ℕ) : Prop where
  synced : Synced (feedOf us) c
  queued : ∀ e ∈ c.incrementalQueuedMsgs, e.1 ≤ us.length
  reached : k ≤ us.length
  next : c.inRecovery = false → c.nextExpIncSeqNum = k + 1
  books : (TickerOrderBook.new checked).run c.incomingMdUpdates = .ok M
  tracked : Tracked M (laddersAfter (us.take k)) (OrderTable.empty.fold (us.take k))

theorem following_new (checked : Bool) (us : List MEMarketUpdate) (fd : ℕ) :
    Following checked us (MarketDataConsumer.new fd : MarketDataConsumer τ)
      (TickerOrderBook.new checked) 0 where
  synced := synced_new _ fd
  queued := by simp [MarketDataConsumer.new]
  reached := Nat.zero_le _
  next := fun _ => rfl
  books := rfl
  tracked := tracked_new checked

section Deliver

variable (hus : Trace.Every applyTicker Emitted (fun _ => ⟨[], []⟩) us)

include hus

theorem Following.forwarded (h : Following checked us c M k) (hk : k < us.length) :
    ∃ M', (TickerOrderBook.new checked).run (c.incomingMdUpdates ++ [us[k]]) = .ok M' ∧
      Tracked M' (laddersAfter (us.take (k + 1))) (OrderTable.empty.fold (us.take (k + 1))) := by
  have hslice : (us.drop k).take 1 = [us[k]] := by
    rw [List.drop_eq_getElem_cons hk]
    rfl
  obtain ⟨hemit, hrun⟩ := emitted_slice hus k 1
  rw [hslice] at hemit hrun
  obtain ⟨M', hM', htr⟩ := h.tracked.step hemit.1
  refine ⟨M', ?_, ?_⟩
  · rw [TickerOrderBook.run_append h.books, TickerOrderBook.run, hM', ok_bind]
    rfl
  · have htake : us.take (k + 1) = us.take k ++ [us[k]] := List.take_succ_eq_append_getElem hk
    rw [← hrun, htake, OrderTable.fold_append]
    exact htr

theorem Following.caughtUp (h : Following checked us c M k)
    (hempty : ∀ t i, (M t).restingOrder i = none) (n j : ℕ) :
    ∃ M', (TickerOrderBook.new checked).run (c.incomingMdUpdates ++
        ((List.range meMaxTickers).flatMap (tickerBlock (OrderTable.empty.fold (us.take n))) ++
          ((us.drop n).take j).filter fun u => !isMarker u)) = .ok M' ∧
      Tracked M' (laddersAfter (us.take (n + j))) (OrderTable.empty.fold (us.take (n + j))) := by
  obtain ⟨V, -, hvet, -⟩ := veteran hus checked n
  obtain ⟨hfeed, hsnap⟩ := hvet.snapshot
  have hmir := h.tracked.mirrors
  rw [h.tracked.eq_nil hempty] at hmir
  obtain ⟨M₁, hM₁, hmir₁⟩ := mirrors_run hmir hfeed
  rw [hsnap] at hmir₁
  have htr₁ : Tracked M₁ (laddersAfter (us.take n)) (OrderTable.empty.fold (us.take n)) :=
    ⟨hmir₁, hvet.fifo, hvet.lists, hvet.outside⟩
  obtain ⟨hemit, hrun⟩ := emitted_slice hus n j
  obtain ⟨hfilter, hsame⟩ := hemit.filter applyTicker_marker
  obtain ⟨M₂, hM₂, htr₂, -⟩ := htr₁.run hfilter
  refine ⟨M₂, ?_, ?_⟩
  · rw [TickerOrderBook.run_append h.books, TickerOrderBook.run_append hM₁, hM₂]
  · rw [hsame, hrun, OrderTable.fold_filter _ fun x hx b => apply_marker hx b] at htr₂
    rw [List.take_add, OrderTable.fold_append, ← List.take_add]
    exact htr₂

theorem commit_reaches {p : Packet τ} {cycle : List MDPMarketUpdate}
    (hadds : numAddUpdates us < meMaxOrderIds) (hlen : us.length + 1 < 2 ^ 64)
    (h : Synced (feedOf us) c) (hqueued : ∀ e ∈ c.incrementalQueuedMsgs, e.1 ≤ us.length)
    (he : EndsCycle c.snapshotQueuedMsgs p) (hs : (c.resume p).complete = true)
    (hn : n ≤ us.length) (hcycle : SnapshotAt checked us n cycle)
    (hsub : ∀ x ∈ c.snapshotQueuedMsgs ++ [p.entry], asMDP x ∈ cycle) :
    ∃ j, n + j ≤ us.length ∧ (c.resume p).nextExp = n + j + 1 ∧
      frames (c.snapshotQueuedMsgs ++ [p.entry]) ++ (c.resume p).events =
        (List.range meMaxTickers).flatMap (tickerBlock (OrderTable.empty.fold (us.take n))) ++
          ((us.drop n).take j).filter fun u => !isMarker u := by
  obtain ⟨σ, hpub, hlast, -, hadd, hblocks⟩ := hcycle.published hus hadds hn
  obtain ⟨-, hframes, hend⟩ := committed_cycle h.queue he hadd hpub hsub
  have hid : (p.message.update.orderId + 1) % 2 ^ 64 = n + 1 := by
    rw [hend, hlast]
    exact Nat.mod_eq_of_lt ((Nat.succ_le_succ hn).trans_lt hlen)
  obtain ⟨j, hnext, hev⟩ := scanIncrementals_complete h.incrementals _ hs
  have hle := scanIncrementals_le hlen hqueued (Nat.succ_le_succ hn)
  rw [MarketDataConsumer.resume, hid] at hs ⊢
  rw [hid] at hnext hev
  rw [hnext] at hle
  refine ⟨j, by omega, by rw [hnext]; omega, ?_⟩
  rw [hframes, hblocks, hev, feedOf_slice (by omega)]

theorem Following.deliver (hadds : numAddUpdates us < meMaxOrderIds)
    (hlen : us.length + 1 < 2 ^ 64) (hticker : ∀ u ∈ us, u.tickerId < meMaxTickers)
    (hcycles : ∀ i, ∃ n ≤ us.length, SnapshotAt checked us n (cycles i))
    (h : Following checked us c M k)
    (hd : Multicast us cycles d ∧ CommitsClean checked cycles c d) :
    ∃ M' k', Following checked us (c.deliver d) M' k' := by
  obtain ⟨hmulti, hclean⟩ := hd
  have hpublished : ∀ i, PublishedFrom (feedOf us) (cycles i) := by
    intro i
    obtain ⟨n, hn, hat⟩ := hcycles i
    obtain ⟨σ, hpub, hlast, hdesc, -⟩ := hat.published hus hadds hn
    exact ⟨σ, hpub, hlast ▸ hdesc, hlast ▸ (Nat.succ_le_succ hn).trans_lt hlen⟩
  have hsynced : Synced (feedOf us) (c.deliver d) :=
    (Synced.deliver (tickerId_feedOf hticker) hpublished h.synced
      ⟨hmulti.genuine hlen, fun hc => (hclean hc).1⟩).1
  obtain ⟨isSnapshot, p, fd⟩ := d
  have hrec : Received c fd p isSnapshot (c.deliver ⟨isSnapshot, p, fd⟩) :=
    received_recv h.synced.queue fd isSnapshot p
  unfold CommitsClean Commits at hclean
  generalize c.deliver ⟨isSnapshot, p, fd⟩ = c' at hsynced hclean hrec ⊢
  have hentry : ∀ {b}, isSnapshot = b → b = false → p.seqNum ≤ us.length := by
    rintro b rfl hb
    obtain ⟨i, hi, hseq, -⟩ := hmulti.incremental hb
    exact hseq.trans_le hi
  cases hrec with
  | ignored hr => exact ⟨M, k, h⟩
  | forwarded hr hn =>
    obtain ⟨i, hi, hseq, hup⟩ := hmulti.incremental rfl
    obtain rfl : i = k := by
      have := h.next hr
      dsimp only at hseq
      omega
    obtain ⟨M', hM', htr⟩ := h.forwarded hus hi
    refine ⟨M', i + 1, hsynced, h.queued, hi, fun _ => ?_, ?_, htr⟩
    · rw [MarketDataConsumer.forward, h.next hr]
      exact Nat.mod_eq_of_lt (by omega)
    · rw [← hM', MarketDataConsumer.forward]
      exact congrArg (fun u => (TickerOrderBook.new checked).run (c.incomingMdUpdates ++ [u])) hup
  | gap hr hn =>
    refine ⟨M, k, hsynced, fun e he => ?_, h.reached, fun hf => absurd hf (by simp), h.books,
      h.tracked⟩
    rw [List.mem_singleton.mp he]
    exact hentry rfl rfl
  | buffered hr =>
    refine ⟨M, k, hsynced, fun e he => ?_, h.reached, h.next, h.books, h.tracked⟩
    rcases OrderedMap.mem_of_mem_assign he with rfl | he
    · exact hentry rfl rfl
    · exact h.queued e he
  | assembled hr he => exact ⟨M, k, hsynced, h.queued, h.reached, h.next, h.books, h.tracked⟩
  | discarded hr he hs =>
    exact ⟨M, k, hsynced, h.queued, h.reached, fun hf => absurd (hr.symm.trans hf) (by simp),
      h.books, h.tracked⟩
  | committed hr he hs =>
    obtain ⟨⟨i, hone⟩, M₀, hM₀, hempty⟩ := hclean ⟨hr, rfl⟩
    obtain rfl : M₀ = M := Except.ok.inj (hM₀.symm.trans h.books)
    rw [queuedWith, enqueue_end h.synced.queue he] at hone
    obtain ⟨n, hn, hat⟩ := hcycles i
    obtain ⟨j, hj, hnext, hfor⟩ := commit_reaches hus hadds hlen h.synced h.queued he hs hn hat hone
    obtain ⟨M', hM', htr⟩ := h.caughtUp hus hempty n j
    exact ⟨M', n + j, hsynced, by simp, hj, fun _ => hnext, hfor ▸ hM', htr⟩

end Deliver

def ShowsBook (m : MarketOrderBook) (p : MEOrderBook) : Prop :=
  ∃ ladders, p.book.decode = some ladders ∧ m.book.decode = some (project ladders) ∧
    m.bbo = bboOf (project ladders)

theorem Tracked.showsBook {e : MatchingEngine} {B : IndexedBooks}
    (h : Tracked M (projectAll B) b) (hr : RefinesAll e B) (t : ℕ) :
    ShowsBook (M t) (e.tickerOrderBook t) := by
  obtain ⟨s, htr, hlad, -⟩ := hr.books t
  exact ⟨_, by rw [htr.stores.decode, ← hlad], (h.mirrors t).decode, (h.mirrors t).bbo⟩

theorem Tracked.shows_prefix (checked : Bool) {xs ys : List MEClientRequest}
    (hreqs : ∀ req ∈ xs ++ ys, req.Admissible) (hnews : numNews (xs ++ ys) < meMaxOrderIds)
    (hu : marketUpdates (IndexedBooks.new.run (xs ++ ys)).2 = us)
    (h : Tracked M (laddersAfter (us.take k)) b) :
    ∃ e events, (MatchingEngine.new checked).run xs = .ok (e, events) ∧
      ((marketUpdates events).length = k → ∀ t, ShowsBook (M t) (e.tickerOrderBook t)) := by
  obtain ⟨e, hrun, href, hpref, hlad⟩ := run_prefix checked hreqs hnews
  refine ⟨e, _, hrun, fun hlen => ?_⟩
  rw [hu, List.prefix_iff_eq_take, hlen] at hpref
  rw [hpref] at hlad
  have hladders : laddersAfter (us.take k) = projectAll (IndexedBooks.new.run xs).1 := hlad
  rw [hladders] at h
  exact h.showsBook href

theorem client_books_follow_exchange (checked : Bool) (reqs : List MEClientRequest)
    (hreqs : ∀ req ∈ reqs, req.Admissible) (hnews : numNews reqs < meMaxOrderIds) :
    ∃ e events, (MatchingEngine.new checked).run reqs = .ok (e, events) ∧
      ∀ (cycles : ι → List MDPMarketUpdate) (fd : ℕ) (ds : List (Delivery τ)),
        (∀ i, ∃ n ≤ (marketUpdates events).length,
          SnapshotAt checked (marketUpdates events) n (cycles i)) →
        (∀ d ∈ ds, Multicast (marketUpdates events) cycles d) →
        Trace.Every MarketDataConsumer.deliver (CommitsClean checked cycles)
          (MarketDataConsumer.new fd) ds →
        ∃ c k M veteran, Trace.run MarketDataConsumer.deliver (MarketDataConsumer.new fd) ds = c ∧
          k ≤ (marketUpdates events).length ∧ (c.inRecovery = false → c.nextExpIncSeqNum = k + 1) ∧
          (TickerOrderBook.new checked).run c.incomingMdUpdates = .ok M ∧
          (TickerOrderBook.new checked).run ((marketUpdates events).take k) = .ok veteran ∧
          (∀ t, (M t).SameView (veteran t)) ∧
          ∀ xs ys, reqs = xs ++ ys → ∃ e' events', (MatchingEngine.new checked).run xs =
            .ok (e', events') ∧ ((marketUpdates events').length = k →
              ∀ t, ShowsBook (M t) (e'.tickerOrderBook t)) := by
  obtain ⟨e, hrun, -⟩ := (refinesAll_new checked).run reqs hreqs (hasRoom_new hnews)
  obtain ⟨hus, -, hnum⟩ := run_emits reqs (refinesAll_new checked).wf hreqs (hasRoom_new hnews)
  have hlen := length_updates_lt hreqs hnews
  refine ⟨e, _, hrun, fun cycles fd ds hcycles hds hclean => ?_⟩
  generalize hu : marketUpdates (IndexedBooks.new.run reqs).2 = us at hus hnum hlen hcycles hds ⊢
  have hticker : ∀ u ∈ us, u.tickerId < meMaxTickers := by
    obtain ⟨V, -, -, hann⟩ := veteran hus checked us.length
    rw [List.take_length] at hann
    exact Trace.forall_of_every (fun _ _ h => h.1) hann
  have hstep : ∀ (c : MarketDataConsumer τ) (d : Delivery τ), (∃ M k, Following checked us c M k) →
      Multicast us cycles d ∧ CommitsClean checked cycles c d →
      (∃ M k, Following checked us (c.deliver d) M k) ∧ True := by
    rintro c d ⟨M, k, hc⟩ hd
    exact ⟨hc.deliver hus (hnum.trans_lt hnews) hlen hticker hcycles hd, trivial⟩
  obtain ⟨⟨M, k, h⟩, -⟩ := ((Trace.every_of_mem hds).and hclean).invariant hstep
    ⟨_, _, following_new checked us fd⟩
  obtain ⟨V, hV, hvet, -⟩ := veteran hus checked k
  refine ⟨_, k, M, V, rfl, h.reached, h.next, h.books, hV,
    fun t => (h.tracked.mirrors t).sameView (hvet.mirrors t), ?_⟩
  rintro xs ys rfl
  exact h.tracked.shows_prefix checked hreqs hnews hu

def feedRequests : List MEClientRequest :=
  [⟨.new, 1, 0, 10, .buy, 100, 10⟩, ⟨.cancel, 1, 0, 10, .buy, 100, 10⟩,
    ⟨.new, 1, 0, 11, .buy, 101, 5⟩]

def feedUpdates : List MEMarketUpdate := [bidOne, ⟨.cancel, 1, 0, .buy, 100, 0, 1⟩, bidTwo]

/-- The first update is lost, and a snapshot taken right after it closes the hole. -/
def feedDeliveries : List (Delivery Unit) :=
  ⟨false, ⟨2, ⟨⟨.cancel, 1, 0, .buy, 100, 0, 1⟩, ()⟩⟩, 0⟩ ::
    (sampleCycle 1 bidOne).map (snapshotDelivery ()) ++ [⟨false, ⟨3, ⟨bidTwo, ()⟩⟩, 0⟩]

theorem client_books_follow_exchange_sample :
    ∃ e events M, (MatchingEngine.new true).run feedRequests = .ok (e, events) ∧
      (TickerOrderBook.new true).run (Trace.run MarketDataConsumer.deliver
        (MarketDataConsumer.new 0) feedDeliveries).incomingMdUpdates = .ok M ∧
      ∀ t, ShowsBook (M t) (e.tickerOrderBook t) := by
  have hreqs : ∀ req ∈ feedRequests, req.Admissible := by decide
  have hnews : numNews feedRequests < meMaxOrderIds := by decide
  obtain ⟨e, events, hrun, h⟩ :=
    @client_books_follow_exchange Unit Unit true feedRequests hreqs hnews
  obtain ⟨e₁, hrun₁, -⟩ := (refinesAll_new true).run feedRequests hreqs (hasRoom_new hnews)
  obtain ⟨-, rfl⟩ := Prod.mk.inj (Except.ok.inj (hrun.symm.trans hrun₁))
  have hupdates : marketUpdates (IndexedBooks.new.run feedRequests).2 = feedUpdates := by
    decide +kernel
  rw [hupdates] at h
  obtain ⟨σ, hcons, -, -, hpub⟩ := sampleSynthesizer_one
  have hclean : Trace.Every MarketDataConsumer.deliver
      (fun c d => Commits c d →
        FromOneCycle (fun _ : Unit => sampleCycle 1 bidOne) c d ∧ c.incomingMdUpdates = [])
      (MarketDataConsumer.new 0) feedDeliveries := by decide +kernel
  obtain ⟨c, k, M, V, hc, -, hnext, hM, -, -, hshow⟩ := h (fun _ => sampleCycle 1 bidOne) 0
    feedDeliveries (fun _ => ⟨1, by decide, σ, hcons, hpub⟩) (by decide +kernel)
    (hclean.mono fun c d hd hc => ⟨(hd hc).1, TickerOrderBook.new true, by rw [(hd hc).2]; rfl,
      fun _ _ => rfl⟩)
  have hend : (Trace.run MarketDataConsumer.deliver (MarketDataConsumer.new 0)
        feedDeliveries).inRecovery = false ∧
      (Trace.run MarketDataConsumer.deliver (MarketDataConsumer.new 0)
        feedDeliveries).nextExpIncSeqNum = 4 := by decide +kernel
  rw [hc] at hend
  obtain rfl : k = 3 := Nat.succ.inj ((hnext hend.1).symm.trans hend.2)
  obtain ⟨e', events', hrun', hbooks⟩ := hshow feedRequests [] (List.append_nil _).symm
  obtain ⟨rfl, rfl⟩ := Prod.mk.inj (Except.ok.inj (hrun'.symm.trans hrun))
  exact ⟨e', _, M, hrun', by rw [hc]; exact hM, hbooks (by rw [hupdates]; rfl)⟩

end Client

end Trading

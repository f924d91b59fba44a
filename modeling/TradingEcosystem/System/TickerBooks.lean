import TradingEcosystem.System.Rebuild
import TradingEcosystem.Trading.Clear

namespace Trading

open Common Exchange

abbrev TickerOrderBook := ℕ → MarketOrderBook

namespace TickerOrderBook

def new (checked : Bool) : TickerOrderBook := MarketOrderBook.new checked

def onMarketUpdate (M : TickerOrderBook) (u : MEMarketUpdate) : Outcome TickerOrderBook := do
  require (u.tickerId < meMaxTickers) .assertFailed
  let (book, _) ← (M u.tickerId).onMarketUpdate u
  pure (Function.update M u.tickerId book)

def run (M : TickerOrderBook) : List MEMarketUpdate → Outcome TickerOrderBook
  | [] => pure M
  | u :: us => do
      let M ← M.onMarketUpdate u
      M.run us

theorem run_append {M M' : TickerOrderBook} {us vs : List MEMarketUpdate} (h : M.run us = .ok M') :
    M.run (us ++ vs) = M'.run vs := by
  induction us generalizing M with
  | nil =>
    cases h
    rfl
  | cons u us ih =>
    obtain ⟨M₁, h₁, h⟩ := bind_eq_ok.mp h
    rw [List.cons_append, run, h₁, ok_bind]
    exact ih h

end TickerOrderBook

abbrev TickerLadders := ℕ → Ladders MarketOrder

def applyTicker (S : TickerLadders) (u : MEMarketUpdate) : TickerLadders :=
  Function.update S u.tickerId (applyUpdate (S u.tickerId) u)

def Feedable (S : TickerLadders) (u : MEMarketUpdate) : Prop :=
  u.tickerId < meMaxTickers ∧ Applicable (S u.tickerId) u

structure Emitted (S : TickerLadders) (u : MEMarketUpdate) : Prop where
  feedable : Feedable S u
  ascends : Ascends (S u.tickerId) u
  not_clear : u.type ≠ .clear

variable {M : TickerOrderBook} {S : TickerLadders} {b : OrderTable} {u : MEMarketUpdate}
  {us : List MEMarketUpdate}

theorem update_of_forall {α β : Type} {R : α → β → Prop} {f : ℕ → α} {g : ℕ → β}
    (h : ∀ t, R (f t) (g t)) {t : ℕ} {x : α} {y : β} (hxy : R x y) (s : ℕ) :
    R (Function.update f t x s) (Function.update g t y s) := by
  by_cases hs : s = t
  · simpa [hs] using hxy
  · simpa [hs] using h s

theorem mirrors_onMarketUpdate (h : ∀ t, Mirrors (M t) (S t)) (hu : Feedable S u) :
    ∃ M', M.onMarketUpdate u = .ok M' ∧ ∀ t, Mirrors (M' t) (applyTicker S u t) := by
  obtain ⟨m, c, hm, hmir⟩ := (h u.tickerId).step hu.2
  refine ⟨Function.update M u.tickerId m, ?_, update_of_forall h hmir⟩
  rw [TickerOrderBook.onMarketUpdate, require_of _ hu.1, ok_bind, hm]
  rfl

theorem mirrors_run (h : ∀ t, Mirrors (M t) (S t)) (hus : Trace.Every applyTicker Feedable S us) :
    ∃ M', M.run us = .ok M' ∧ ∀ t, Mirrors (M' t) (Trace.run applyTicker S us t) := by
  induction us generalizing M S with
  | nil => exact ⟨M, rfl, h⟩
  | cons u us ih =>
    obtain ⟨M₁, h₁, hmir⟩ := mirrors_onMarketUpdate h hus.1
    obtain ⟨M₂, h₂, hmir₂⟩ := ih hmir hus.2
    exact ⟨M₂, by rw [TickerOrderBook.run, h₁, ok_bind, h₂], hmir₂⟩

section OneTicker

variable {t : ℕ}

theorem run_ticker (h : ∀ u ∈ us, u.tickerId = t) :
    Trace.run applyTicker S us = Function.update S t (applyAll (S t) us) := by
  induction us generalizing S with
  | nil => exact (Function.update_eq_self t S).symm
  | cons u us ih =>
    obtain rfl := h u (List.mem_cons_self ..)
    rw [Trace.run, List.foldl_cons, ← Trace.run, ih fun v hv => h v (List.mem_cons_of_mem _ hv),
      applyTicker, Function.update_self, Function.update_idem]
    rfl

theorem every_ticker {P : Ladders MarketOrder → MEMarketUpdate → Prop}
    (h : ∀ u ∈ us, u.tickerId = t) (hus : Trace.Every applyUpdate P (S t) us) :
    Trace.Every applyTicker (fun S u => P (S u.tickerId) u) S us := by
  induction us generalizing S with
  | nil => trivial
  | cons u us ih =>
    obtain rfl := h u (List.mem_cons_self ..)
    refine ⟨hus.1, ih (fun v hv => h v (List.mem_cons_of_mem _ hv)) ?_⟩
    rw [applyTicker, Function.update_self]
    exact hus.2

theorem every_of_applicableAll {s : Ladders MarketOrder} (h : ApplicableAll s us) :
    Trace.Every applyUpdate Applicable s us := by
  induction us generalizing s with
  | nil => trivial
  | cons u us ih => exact ⟨h.1, ih h.2⟩

end OneTicker

structure Tracked (M : TickerOrderBook) (S : TickerLadders) (b : OrderTable) : Prop where
  mirrors : ∀ t, Mirrors (M t) (S t)
  fifo : ∀ t, Fifo (S t)
  lists : ∀ t, Lists (b t) (S t)
  outside : ∀ t, meMaxTickers ≤ t → S t = ⟨[], []⟩

theorem tracked_new (checked : Bool) :
    Tracked (TickerOrderBook.new checked) (fun _ => ⟨[], []⟩) OrderTable.empty where
  mirrors := fun t => mirrors_new checked t
  fifo := fun _ => fifo_nil
  lists := fun _ => lists_nil
  outside := fun _ _ => rfl

theorem Tracked.announces (h : Tracked M S b) (hu : Emitted S u) : Announces b u := by
  obtain ⟨⟨ht, happ⟩, -, hclear⟩ := hu
  refine ⟨ht, ?_⟩
  unfold Applicable at happ
  cases htype : u.type with
  | add =>
    rw [htype] at happ
    exact ⟨happ.id_lt, (h.lists _).eq_none happ.fresh⟩
  | modify =>
    rw [htype] at happ
    obtain ⟨⟨o, ho, hid, -, hprice⟩, -⟩ := happ
    exact ⟨o, (h.lists _ _ _).mpr ⟨ho, hid⟩, hprice⟩
  | cancel =>
    rw [htype] at happ
    obtain ⟨o, ho, hid, -⟩ := happ
    simp [(h.lists _ _ _).mpr ⟨ho, hid⟩]
  | clear => exact hclear htype
  | _ => trivial

theorem Tracked.step (h : Tracked M S b) (hu : Emitted S u) :
    ∃ M', M.onMarketUpdate u = .ok M' ∧ Tracked M' (applyTicker S u) (b.apply u) := by
  obtain ⟨M', hM, hmir⟩ := mirrors_onMarketUpdate h.mirrors hu.feedable
  have hside := (h.mirrors u.tickerId).sided
  refine ⟨M', hM, hmir, fun t => ?_, fun t => ?_, fun t ht => ?_⟩
  · by_cases ht : t = u.tickerId
    · rw [applyTicker, ht, Function.update_self]
      exact (h.fifo _).apply hside hu.feedable.2 hu.ascends
    · rw [applyTicker, Function.update_of_ne ht]
      exact h.fifo t
  · by_cases ht : t = u.tickerId
    · rw [applyTicker, ht, Function.update_self]
      exact (h.lists _).apply hside hu.feedable.2
    · rw [applyTicker, Function.update_of_ne ht, OrderTable.apply_other ht]
      exact h.lists t
  · rw [applyTicker, Function.update_of_ne (hu.feedable.1.trans_le ht).ne']
    exact h.outside t ht

theorem Tracked.run (h : Tracked M S b) (hus : Trace.Every applyTicker Emitted S us) :
    ∃ M', M.run us = .ok M' ∧ Tracked M' (Trace.run applyTicker S us) (b.fold us) ∧
      Trace.Every OrderTable.apply Announces b us := by
  induction us generalizing M S b with
  | nil => exact ⟨M, rfl, h, trivial⟩
  | cons u us ih =>
    obtain ⟨M₁, hM₁, h₁⟩ := h.step hus.1
    obtain ⟨M₂, hM₂, h₂, hann⟩ := ih h₁ hus.2
    exact ⟨M₂, by rw [TickerOrderBook.run, hM₁, ok_bind, hM₂], h₂, h.announces hus.1, hann⟩

theorem Tracked.restingOrder (h : Tracked M S b) (t i : ℕ) : (M t).restingOrder i = b t i := by
  rw [(h.mirrors t).restingOrder]
  cases hb : b t i with
  | none =>
    refine List.find?_eq_none.mpr fun o ho hid => ?_
    have := (h.lists t i o).mpr ⟨ho, of_decide_eq_true hid⟩
    simp [hb] at this
  | some o =>
    obtain ⟨ho, hid⟩ := (h.lists t i o).mp hb
    cases hf : (S t).entries.find? fun o => decide (o.ids = i) with
    | none => exact absurd hid (by simpa using List.find?_eq_none.mp hf o ho)
    | some x =>
      have hx : x.ids = i := by simpa using List.find?_some hf
      rw [(h.lists t).eq_of_id (List.mem_of_find?_eq_some hf) ho (hx.trans hid.symm)]

section Frames

def tickerBlock (b : OrderTable) (t : ℕ) : List MEMarketUpdate :=
  clearUpdate t :: idOrder t (b t) meMaxOrderIds

theorem tickerId_tickerBlock {t : ℕ} (hu : u ∈ tickerBlock b t) : u.tickerId = t := by
  rcases List.mem_cons.mp hu with rfl | hu
  · rfl
  · rw [idOrder] at hu
    obtain ⟨i, -, hi⟩ := List.mem_filterMap.mp hu
    obtain ⟨o, -, rfl⟩ := Option.map_eq_some_iff.mp hi
    rfl

theorem Tracked.block (h : Tracked M S b) (t : ℕ) :
    ApplicableAll ⟨[], []⟩ (tickerBlock b t) ∧ applyAll ⟨[], []⟩ (tickerBlock b t) = S t := by
  obtain ⟨happ, hall⟩ := (h.mirrors t).rebuild (h.fifo t) (h.lists t) t meMaxOrderIds
  have hclear : applyUpdate ⟨[], []⟩ (clearUpdate t) = ⟨[], []⟩ := rfl
  rw [tickerBlock, ApplicableAll, applyAll, List.foldl_cons, ← applyAll, hclear]
  exact ⟨⟨rfl, happ⟩, hall.trans (h.mirrors t).belowId_eq_self⟩

theorem Tracked.frames (h : Tracked M S b) {n : ℕ} (hn : n ≤ meMaxTickers) :
    Trace.Every applyTicker Feedable (fun _ => ⟨[], []⟩) ((List.range n).flatMap (tickerBlock b)) ∧
      Trace.run applyTicker (fun _ => ⟨[], []⟩) ((List.range n).flatMap (tickerBlock b)) =
        fun t => if t < n then S t else ⟨[], []⟩ := by
  induction n with
  | zero => exact ⟨trivial, rfl⟩
  | succ n ih =>
    obtain ⟨hev, hrun⟩ := ih (by omega)
    obtain ⟨happ, hall⟩ := h.block n
    have htick : ∀ u ∈ tickerBlock b n, u.tickerId = n := fun u hu => tickerId_tickerBlock hu
    rw [List.range_succ, List.flatMap_append, List.flatMap_singleton, Trace.every_append,
      Trace.run_append, hrun]
    generalize hS : (fun t => if t < n then S t else (⟨[], []⟩ : Ladders MarketOrder)) = S'
    have hnil : S' n = ⟨[], []⟩ := by
      rw [← hS]
      exact if_neg (lt_irrefl n)
    rw [← hnil] at happ hall
    refine ⟨⟨hev, ?_⟩, ?_⟩
    · have hlt : ∀ u ∈ tickerBlock b n, u.tickerId < meMaxTickers := fun u hu => by
        rw [htick u hu]
        omega
      exact (Trace.every_of_mem hlt).and (every_ticker htick (every_of_applicableAll happ))
    · rw [run_ticker htick, hall, ← hS]
      funext t
      rcases lt_trichotomy t n with ht | rfl | ht
      · rw [Function.update_of_ne ht.ne, if_pos ht, if_pos (ht.trans n.lt_succ_self)]
      · rw [Function.update_self, if_pos t.lt_succ_self]
      · rw [Function.update_of_ne ht.ne', if_neg ht.not_gt, if_neg (by omega)]

theorem Tracked.snapshot (h : Tracked M S b) :
    Trace.Every applyTicker Feedable (fun _ => ⟨[], []⟩)
        ((List.range meMaxTickers).flatMap (tickerBlock b)) ∧
      Trace.run applyTicker (fun _ => ⟨[], []⟩)
        ((List.range meMaxTickers).flatMap (tickerBlock b)) = S := by
  obtain ⟨hev, hrun⟩ := h.frames (le_refl meMaxTickers)
  refine ⟨hev, hrun.trans (funext fun t => ?_)⟩
  split_ifs with ht
  · rfl
  · exact (h.outside t (Nat.le_of_not_lt ht)).symm

theorem Holding.bookFrames_eq {σ : SnapshotSynthesizer} {live : List ((ℕ × ℕ) × ℕ)}
    (h : Holding σ b live) :
    bookFrames σ.order = (List.range meMaxTickers).flatMap (tickerBlock b) := by
  have hblock : tickerBlock b = fun t =>
      clearUpdate t :: (List.range meMaxOrderIds).filterMap (σ.order t) := by
    funext t
    rw [tickerBlock, idOrder, funext (h.order t)]
  rw [hblock, bookFrames]

end Frames

end Trading

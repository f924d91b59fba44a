import TradingEcosystem.Exchange.SnapshotSynthesizer
import TradingEcosystem.Trading.ClientBook

namespace Trading

open Common Exchange

abbrev OrderTable := ℕ → ℕ → Option MarketOrder

namespace OrderTable

def empty : OrderTable := fun _ _ => none

def put (b : OrderTable) (tickerId orderId : ℕ) (o : Option MarketOrder) : OrderTable :=
  fun t i => if t = tickerId ∧ i = orderId then o else b t i

def apply (b : OrderTable) (u : MEMarketUpdate) : OrderTable :=
  match u.type with
  | .add => b.put u.tickerId u.orderId (some (marketOrder u))
  | .modify => b.put u.tickerId u.orderId ((b u.tickerId u.orderId).map (·.withQty u.qty))
  | .cancel => b.put u.tickerId u.orderId none
  | .clear => fun t => if t = u.tickerId then fun _ => none else b t
  | _ => b

def fold (b : OrderTable) (us : List MEMarketUpdate) : OrderTable := us.foldl apply b

variable {b : OrderTable} {u : MEMarketUpdate} {us : List MEMarketUpdate}

@[simp] theorem fold_nil : b.fold [] = b := rfl

@[simp] theorem fold_cons : b.fold (u :: us) = (b.apply u).fold us := rfl

theorem fold_append (us vs : List MEMarketUpdate) :
    b.fold (us ++ vs) = (b.fold us).fold vs := List.foldl_append

theorem apply_other {t : ℕ} (ht : t ≠ u.tickerId) : b.apply u t = b t := by
  funext i
  cases htype : u.type <;> simp [apply, put, htype, ht]

theorem fold_other {t : ℕ} (h : ∀ u ∈ us, u.tickerId ≠ t) : b.fold us t = b t := by
  induction us generalizing b with
  | nil => rfl
  | cons u us ih =>
    rw [fold_cons, ih fun v hv => h v (List.mem_cons_of_mem _ hv),
      apply_other (h u (List.mem_cons_self ..)).symm]

theorem fold_filter (p : MEMarketUpdate → Bool) (h : ∀ u, p u = false → ∀ b, apply b u = b) :
    b.fold (us.filter p) = b.fold us := by
  induction us generalizing b with
  | nil => rfl
  | cons u us ih =>
    cases hp : p u with
    | true => rw [List.filter_cons_of_pos hp, fold_cons, fold_cons, ih]
    | false =>
      rw [List.filter_cons_of_neg (by simp [hp]), fold_cons, h u hp b, ih]

def Keyed (b : OrderTable) : Prop := ∀ t i o, b t i = some o → o.ids = i

theorem Keyed.put (h : b.Keyed) {t i : ℕ} {x : Option MarketOrder}
    (hx : ∀ o, x = some o → o.ids = i) : (b.put t i x).Keyed := by
  intro s j o ho
  unfold OrderTable.put at ho
  split_ifs at ho with hc
  · rw [hc.2]
    exact hx o ho
  · exact h s j o ho

theorem Keyed.apply (h : b.Keyed) (u : MEMarketUpdate) : (b.apply u).Keyed := by
  unfold OrderTable.apply
  split
  · refine h.put ?_
    intro o ho
    exact congrArg OrderInfo.ids (Option.some.inj ho).symm
  · refine h.put ?_
    intro o ho
    obtain ⟨x, hx, rfl⟩ := Option.map_eq_some_iff.mp ho
    exact h _ _ x hx
  · exact h.put (by simp)
  · intro s j o ho
    dsimp only at ho
    split_ifs at ho
    exact h s j o ho
  · exact h

theorem Keyed.fold (h : b.Keyed) (us : List MEMarketUpdate) : (b.fold us).Keyed := by
  induction us generalizing b with
  | nil => exact h
  | cons u us ih => exact ih (h.apply u)

theorem keyed_empty : empty.Keyed := by simp [Keyed, empty]

section Frames

def Adds (orders : ℕ → ℕ → Option MEMarketUpdate) : Prop :=
  ∀ t < meMaxTickers, ∀ i < meMaxOrderIds, ∀ u, orders t i = some u →
    u.type = .add ∧ u.tickerId = t ∧ u.orderId = i

variable {orders : ℕ → ℕ → Option MEMarketUpdate}

theorem fold_orders (h : Adds orders) {t n : ℕ} (ht : t < meMaxTickers) (hn : n ≤ meMaxOrderIds)
    (s i : ℕ) :
    b.fold ((List.range n).filterMap (orders t)) s i =
      if s = t ∧ i < n ∧ (orders t i).isSome then (orders t i).map marketOrder else b s i := by
  induction n with
  | zero => simp
  | succ n ih =>
    replace ih := ih (by omega)
    rw [List.range_succ, List.filterMap_append, fold_append]
    cases ho : orders t n with
    | none =>
      have hlt : i < n + 1 ∧ (orders t i).isSome ↔ i < n ∧ (orders t i).isSome := by
        constructor
        · rintro ⟨hi, hs⟩
          refine ⟨lt_of_le_of_ne (Nat.le_of_lt_succ hi) ?_, hs⟩
          rintro rfl
          simp [ho] at hs
        · exact fun ⟨hi, hs⟩ => ⟨hi.trans n.lt_succ_self, hs⟩
      simp only [List.filterMap_cons, ho, List.filterMap_nil, fold_nil, ih, hlt]
    | some u =>
      obtain ⟨hadd, htick, hid⟩ := h t ht n (by omega) u ho
      simp only [List.filterMap_cons, ho, List.filterMap_nil, fold_cons, fold_nil, apply, hadd,
        put, htick, hid, ih]
      by_cases hs : s = t
      · rcases lt_trichotomy i n with hi | rfl | hi
        · simp [hs, hi, hi.ne, hi.trans n.lt_succ_self]
        · simp [hs, ho]
        · simp [hs, hi.ne', Nat.not_lt.mpr hi.le, show ¬ i < n + 1 by omega]
      · simp [hs]

theorem apply_clearUpdate (t : ℕ) :
    b.apply (clearUpdate t) = fun s => if s = t then fun _ => none else b s := rfl

theorem fold_tickers (h : Adds orders) {n : ℕ} (hn : n ≤ meMaxTickers) (s i : ℕ) :
    b.fold ((List.range n).flatMap fun t =>
        clearUpdate t :: (List.range meMaxOrderIds).filterMap (orders t)) s i =
      if s < n then (if i < meMaxOrderIds then (orders s i).map marketOrder else none)
      else b s i := by
  induction n with
  | zero => simp
  | succ n ih =>
    replace ih := ih (by omega)
    rw [List.range_succ, List.flatMap_append, fold_append, List.flatMap_cons, List.flatMap_nil,
      List.append_nil, fold_cons, fold_orders h (by omega) le_rfl,
      apply_clearUpdate]
    rcases lt_trichotomy s n with hs | rfl | hs
    · simp [hs, hs.ne, hs.trans n.lt_succ_self, ih]
    · cases ho : orders s i with
      | none => simp
      | some u => simp
    · simp [hs.ne', Nat.not_lt.mpr hs.le, show ¬ s < n + 1 by omega, ih]

theorem mem_bookFrames {x : MEMarketUpdate} (hx : x ∈ bookFrames orders) :
    ∃ t < meMaxTickers, x = clearUpdate t ∨ ∃ i < meMaxOrderIds, orders t i = some x := by
  obtain ⟨t, ht, hx⟩ := List.mem_flatMap.mp hx
  refine ⟨t, List.mem_range.mp ht, ?_⟩
  rcases List.mem_cons.mp hx with hx | hx
  · exact .inl hx
  · obtain ⟨i, hi, ho⟩ := List.mem_filterMap.mp hx
    exact .inr ⟨i, List.mem_range.mp hi, ho⟩

theorem fold_bookFrames (h : Adds orders) (hb : ∀ t, meMaxTickers ≤ t → b t = fun _ => none)
    (s i : ℕ) :
    b.fold (bookFrames orders) s i =
      if s < meMaxTickers ∧ i < meMaxOrderIds then (orders s i).map marketOrder else none := by
  rw [bookFrames, fold_tickers h le_rfl]
  by_cases hs : s < meMaxTickers
  · simp [hs]
  · simp [hs, hb s (Nat.le_of_not_lt hs)]

end Frames

end OrderTable

end Trading

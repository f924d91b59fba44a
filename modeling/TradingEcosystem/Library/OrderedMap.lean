import Mathlib.Tactic

namespace OrderedMap

variable {K V : Type}

section Assign

variable [LinearOrder K]

def contains (k : K) (m : List (K × V)) : Bool := m.any fun e => decide (e.1 = k)

def assign (k : K) (v : V) : List (K × V) → List (K × V)
  | [] => [(k, v)]
  | e :: m =>
      if k < e.1 then (k, v) :: e :: m
      else if k = e.1 then (k, v) :: m
      else e :: assign k v m

theorem contains_iff {k : K} {m : List (K × V)} : contains k m = true ↔ k ∈ m.map Prod.fst := by
  simp [contains]

theorem mem_of_mem_assign {k : K} {v : V} {m : List (K × V)} {e : K × V}
    (h : e ∈ assign k v m) : e = (k, v) ∨ e ∈ m := by
  induction m with
  | nil => exact .inl (List.mem_singleton.mp h)
  | cons f m ih =>
    rw [assign] at h
    split_ifs at h
    · exact List.mem_cons.mp h
    · rcases List.mem_cons.mp h with he | he
      · exact .inl he
      · exact .inr (List.mem_cons_of_mem _ he)
    · rcases List.mem_cons.mp h with he | he
      · exact .inr (he ▸ List.mem_cons_self ..)
      · rcases ih he with he | he
        · exact .inl he
        · exact .inr (List.mem_cons_of_mem _ he)

theorem assign_last {k : K} {v : V} {m : List (K × V)} (h : ∀ e ∈ m, e.1 < k) :
    assign k v m = m ++ [(k, v)] := by
  induction m with
  | nil => rfl
  | cons e m ih =>
    have he := h e (List.mem_cons_self ..)
    rw [assign, if_neg he.not_gt, if_neg he.ne',
      ih fun f hf => h f (List.mem_cons_of_mem _ hf)]
    rfl

def Sorted (m : List (K × V)) : Prop := (m.map Prod.fst).Pairwise (· < ·)

theorem sorted_assign {k : K} {v : V} {m : List (K × V)} (h : Sorted m) :
    Sorted (assign k v m) := by
  induction m with
  | nil => simp [assign, Sorted]
  | cons e m ih =>
    obtain ⟨hall, hm⟩ := List.pairwise_cons.mp h
    rw [assign]
    split_ifs with hlt heq
    · refine List.pairwise_cons.mpr ⟨fun x hx => ?_, h⟩
      rcases List.mem_cons.mp hx with rfl | hx
      · exact hlt
      · exact hlt.trans (hall x hx)
    · exact List.pairwise_cons.mpr ⟨heq ▸ hall, hm⟩
    · refine List.pairwise_cons.mpr ⟨fun x hx => ?_, ih hm⟩
      obtain ⟨f, hf, rfl⟩ := List.mem_map.mp hx
      rcases mem_of_mem_assign hf with rfl | hf
      · exact lt_of_le_of_ne (not_lt.mp hlt) (Ne.symm heq)
      · exact hall _ (List.mem_map_of_mem hf)

end Assign

section Numbered

def Numbered (m : List (ℕ × V)) : Prop := m.map Prod.fst = List.range m.length

theorem Numbered.concat {m : List (ℕ × V)} (h : Numbered m) (v : V) :
    Numbered (m ++ [(m.length, v)]) := by
  simp only [Numbered, List.map_append, List.map_cons, List.map_nil, List.length_append,
    List.length_cons, List.length_nil, List.range_succ] at h ⊢
  rw [h]

theorem Numbered.key_lt {m : List (ℕ × V)} (h : Numbered m) {e : ℕ × V} (he : e ∈ m) :
    e.1 < m.length := by
  have := List.mem_map_of_mem (f := Prod.fst) he
  rw [h] at this
  exact List.mem_range.mp this

theorem Numbered.contains {m : List (ℕ × V)} (h : Numbered m) (k : ℕ) :
    contains k m = true ↔ k < m.length := by
  rw [contains_iff, h, List.mem_range]

theorem Numbered.assign {m : List (ℕ × V)} (h : Numbered m) {k : ℕ} (hk : m.length ≤ k) (v : V) :
    assign k v m = m ++ [(k, v)] :=
  assign_last fun _ he => (h.key_lt he).trans_le hk

theorem Numbered.getElem {m : List (ℕ × V)} (h : Numbered m) {i : ℕ} (hi : i < m.length) :
    m[i].1 = i := by
  have hmap : (m.map Prod.fst)[i]? = (List.range m.length)[i]? := by rw [h]
  simpa [hi] using hmap

theorem Numbered.eq_take {m k : List (ℕ × V)} (hm : Numbered m) (hk : Numbered k)
    (hsub : ∀ e ∈ m, e ∈ k) : m = k.take m.length := by
  have hget : ∀ i (hi : i < m.length), ∃ hj : i < k.length, k[i] = m[i] := by
    intro i hi
    obtain ⟨j, hj, hji⟩ := List.mem_iff_getElem.mp (hsub m[i] (List.getElem_mem hi))
    obtain rfl : j = i := by rw [← hk.getElem hj, hji, hm.getElem hi]
    exact ⟨hj, hji⟩
  have hlen : m.length ≤ k.length := by
    cases hn : m.length with
    | zero => exact Nat.zero_le _
    | succ n => exact (hget n (by omega)).1
  refine List.ext_getElem (by simp [hlen]) fun i hi _ => ?_
  rw [List.getElem_take, (hget i hi).2]

end Numbered

end OrderedMap

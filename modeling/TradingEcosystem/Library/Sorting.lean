import Mathlib.Tactic
import Mathlib.Data.Prod.Lex

namespace Sorting

variable {κ : Type} [LinearOrder κ]

/-- `order` lists the positions below `n` in an order in which their keys do not decrease; nothing is
said about positions with equal keys. -/
def SortsTo (key : ℕ → κ) (n : ℕ) (order : List ℕ) : Prop :=
  order.Perm (List.range n) ∧ order.Pairwise fun i j => key i ≤ key j

variable {key : ℕ → κ} {n : ℕ}

theorem exists_sortsTo (key : ℕ → κ) (n : ℕ) : ∃ order, SortsTo key n order := by
  refine ⟨(List.range n).mergeSort fun i j => decide (key i ≤ key j),
    List.mergeSort_perm _ _, ?_⟩
  have hsorted : ((List.range n).mergeSort fun i j => decide (key i ≤ key j)).Pairwise
      fun i j => decide (key i ≤ key j) := by
    refine List.pairwise_mergeSort (fun a b c hab hbc => ?_) (fun a b => ?_) _
    · exact decide_eq_true ((of_decide_eq_true hab).trans (of_decide_eq_true hbc))
    · simpa using le_total (key a) (key b)
  exact hsorted.imp of_decide_eq_true

theorem exists_sortsTo_before {i j : ℕ} (hij : i ≠ j) (h : key j ≤ key i) :
    ∃ order, SortsTo key n order ∧ order.Pairwise fun a b => ¬ (a = i ∧ b = j) := by
  obtain ⟨order, hperm, hsorted⟩ :=
    exists_sortsTo (fun a => toLex (key a, if a = j then 0 else 1)) n
  refine ⟨order, ⟨hperm, hsorted.imp fun hle => Prod.Lex.monotone_fst _ _ hle⟩, hsorted.imp ?_⟩
  rintro a b hle ⟨rfl, rfl⟩
  dsimp only at hle
  rw [if_neg hij, if_pos rfl, Prod.Lex.toLex_le_toLex] at hle
  rcases hle with hlt | ⟨-, hle⟩
  · exact absurd hlt h.not_gt
  · exact absurd hle (Nat.not_succ_le_zero 0)

theorem sortsTo_keeps_iff (key : ℕ → κ) (n : ℕ) {same : ℕ → ℕ → Prop} (hsymm : ∀ i j, same i j → same j i) :
    (∀ order, SortsTo key n order → order.Pairwise fun i j => same i j → i < j) ↔
      ∀ i j, i < j → j < n → same i j → key i < key j := by
  constructor
  · intro hkeeps i j hij hj hsame
    by_contra hle
    obtain ⟨order, hsorts, hbefore⟩ :=
      exists_sortsTo_before (n := n) hij.ne (not_lt.mp hle)
    have hnever : order.Pairwise fun a b => ¬ ((a = i ∧ b = j) ∨ a = j ∧ b = i) :=
      (hbefore.and (hkeeps order hsorts)).imp fun {a b} h => by
        rintro (hab | ⟨rfl, rfl⟩)
        · exact h.1 hab
        · exact absurd (h.2 (hsymm _ _ hsame)) hij.not_gt
    have : Std.Symm fun a b => ¬ ((a = i ∧ b = j) ∨ a = j ∧ b = i) :=
      ⟨fun a b h h' => h (h'.symm.imp And.symm And.symm)⟩
    have hmem : ∀ k, k < n → k ∈ order := fun k hk =>
      hsorts.1.mem_iff.mpr (List.mem_range.mpr hk)
    exact hnever.forall (hmem i (hij.trans hj)) (hmem j hj) hij.ne (.inl ⟨rfl, rfl⟩)
  · rintro hkeys order ⟨hperm, hsorted⟩
    have hnodup : order.Nodup := hperm.nodup_iff.mpr List.nodup_range
    refine (hnodup.and hsorted).imp_of_mem fun {a b} ha _ hab hsame => ?_
    refine (lt_or_gt_of_ne hab.1).resolve_right fun hgt => ?_
    have ha' := List.mem_range.mp (hperm.mem_iff.mp ha)
    exact absurd (hkeys b a hgt ha' (hsymm _ _ hsame)) hab.2.not_gt

section Rank

variable {l : List κ} {v t : κ} {j : ℕ}

theorem lt_iff_rank (hl : l.Pairwise (· ≤ ·)) (hj : l[j]? = some v) :
    v < t ↔ j < l.countP (· < t) := by
  induction l generalizing j with
  | nil => cases hj
  | cons x l ih =>
    obtain ⟨hx, hl⟩ := List.pairwise_cons.mp hl
    by_cases hxt : x < t
    · have hcount : (x :: l).countP (· < t) = l.countP (· < t) + 1 :=
        List.countP_cons_of_pos (by simpa using hxt)
      rw [hcount]
      cases j with
      | zero =>
        obtain rfl : x = v := by simpa using hj
        exact iff_of_true hxt (Nat.succ_pos _)
      | succ j =>
        rw [Nat.add_lt_add_iff_right]
        exact ih hl (by simpa using hj)
    · have hge : ∀ y ∈ x :: l, ¬ y < t := by
        intro y hy
        rcases List.mem_cons.mp hy with rfl | hy
        · exact hxt
        · exact not_lt.mpr ((not_lt.mp hxt).trans (hx y hy))
      have hcount : (x :: l).countP (· < t) = 0 := by
        rw [List.countP_eq_zero]
        intro y hy
        simpa using hge y hy
      rw [hcount]
      exact iff_of_false (hge v (List.mem_of_getElem? hj)) (Nat.not_lt_zero _)

end Rank

end Sorting

import Mathlib.Tactic

namespace Xorshift

variable {w : ℕ}

def right (s : ℕ) (x : BitVec w) : BitVec w := x ^^^ (x >>> s)

def left (s : ℕ) (x : BitVec w) : BitVec w := x ^^^ (x <<< s)

def step (a b c : ℕ) (x : BitVec w) : BitVec w := right c (left b (right a x))

theorem right_injective {s : ℕ} (hs : 0 < s) : Function.Injective (right s (w := w)) := by
  intro x y h
  -- the top bits are copied, and each lower bit is masked by a higher one
  have key : ∀ n i, w ≤ i + n → x.getLsbD i = y.getLsbD i := by
    intro n
    induction n with
    | zero =>
      intro i hi
      rw [BitVec.getLsbD_of_ge x i hi, BitVec.getLsbD_of_ge y i hi]
    | succ n ih =>
      intro i hi
      have hbit := congrArg (fun v => BitVec.getLsbD v i) h
      simp only [right, BitVec.getLsbD_xor, BitVec.getLsbD_ushiftRight] at hbit
      rw [ih (s + i) (by omega)] at hbit
      exact Bool.xor_right_inj.mp (by rwa [Bool.xor_comm, Bool.xor_comm _ (y.getLsbD (s + i))] at hbit)
  exact BitVec.eq_of_getLsbD_eq fun i _ => key w i (Nat.le_add_left ..)

theorem left_injective {s : ℕ} (hs : 0 < s) : Function.Injective (left s (w := w)) := by
  intro x y h
  refine BitVec.eq_of_getLsbD_eq fun i => ?_
  induction i using Nat.strong_induction_on with
  | _ i ih =>
    intro hi
    have hbit := congrArg (fun v => BitVec.getLsbD v i) h
    simp only [left, BitVec.getLsbD_xor, BitVec.getLsbD_shiftLeft] at hbit
    rcases Nat.lt_or_ge i s with his | his
    · simpa [his] using hbit
    · rw [ih (i - s) (by omega) (by omega)] at hbit
      exact Bool.xor_right_inj.mp (by
        rwa [Bool.xor_comm, Bool.xor_comm _ (decide (i < w) && _ && _)] at hbit)

section Step

variable {a b c : ℕ} (ha : 0 < a) (hb : 0 < b) (hc : 0 < c)

include ha hb hc

theorem step_injective : Function.Injective (step a b c (w := w)) :=
  (right_injective hc).comp ((left_injective hb).comp (right_injective ha))

omit ha hb hc in
theorem step_zero (a b c : ℕ) : step a b c (0 : BitVec w) = 0 := by
  simp [step, right, left]

theorem step_eq_zero {x : BitVec w} : step a b c x = 0 ↔ x = 0 := by
  constructor
  · intro h
    exact step_injective ha hb hc (h.trans (step_zero a b c).symm)
  · rintro rfl
    exact step_zero a b c

end Step

end Xorshift

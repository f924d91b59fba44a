import Mathlib.Data.Int.Log
import Mathlib.Tactic

namespace Rounding

section Whole

variable {K : Type} [AddGroupWithOne K]

def Keeps (limit : ℕ) (fl : K → K) : Prop := ∀ n : ℕ, n < limit → fl n = n

theorem keeps_id (limit : ℕ) : Keeps limit (id : K → K) := fun _ _ => rfl

end Whole

/-- Rounding with a precision of 53 bits, away from the ends of the range of exponents. -/
def Near (fl : ℚ → ℚ) : Prop := ∀ x, |x| ≤ 2 ^ 200 → |fl x - x| ≤ |x| / 2 ^ 53 + 1 / 2 ^ 200

def toEven (y : ℚ) : ℤ :=
  if y - ⌊y⌋ < 1 / 2 then ⌊y⌋
  else if 1 / 2 < y - ⌊y⌋ then ⌊y⌋ + 1
  else if Even ⌊y⌋ then ⌊y⌋ else ⌊y⌋ + 1

/-- The number of 53 bits next to `x`, whatever its exponent; halves go to even. -/
def nearest (x : ℚ) : ℚ :=
  let ulp : ℚ := 2 ^ (Int.log 2 |x| - 52)
  toEven (x / ulp) * ulp

theorem abs_toEven_sub_le (y : ℚ) : |(toEven y : ℚ) - y| ≤ 1 / 2 := by
  have hlow := Int.floor_le y
  have hhigh := Int.lt_floor_add_one y
  unfold toEven
  split_ifs with h₁ h₂ h₃
  · rw [abs_le]
    constructor <;> linarith
  · push_cast
    rw [abs_le]
    constructor <;> linarith
  · rw [abs_le]
    constructor <;> linarith
  · push_cast
    rw [abs_le]
    constructor <;> linarith

theorem near_nearest : Near nearest := by
  intro x _
  have hslack : (0 : ℚ) ≤ 1 / 2 ^ 200 := by positivity
  by_cases hx : x = 0
  · subst hx
    have hzero : toEven 0 = 0 := by norm_num [toEven]
    simp [nearest, hzero]
  set ulp : ℚ := 2 ^ (Int.log 2 |x| - 52) with hulp
  have hpos : 0 < ulp := by positivity
  have hle : ulp * 2 ^ 52 ≤ |x| := by
    have hlog := Int.zpow_log_le_self (b := 2) (by norm_num) (abs_pos.mpr hx)
    rw [hulp, zpow_sub₀ (by norm_num : (2 : ℚ) ≠ 0)]
    push_cast at hlog
    calc (2 : ℚ) ^ Int.log 2 |x| / 2 ^ (52 : ℤ) * 2 ^ 52 = 2 ^ Int.log 2 |x| := by
          rw [show ((2 : ℚ) ^ (52 : ℤ)) = 2 ^ 52 from by norm_cast]
          field_simp
      _ ≤ |x| := hlog
  have herr : |nearest x - x| = |(toEven (x / ulp) : ℚ) - x / ulp| * ulp := by
    rw [← abs_of_pos hpos, ← abs_mul, abs_of_pos hpos, sub_mul, div_mul_cancel₀ _ hpos.ne']
    rfl
  have hhalf := abs_toEven_sub_le (x / ulp)
  rw [herr]
  calc |(toEven (x / ulp) : ℚ) - x / ulp| * ulp ≤ 1 / 2 * ulp :=
        mul_le_mul_of_nonneg_right hhalf hpos.le
    _ ≤ |x| / 2 ^ 53 := by
        rw [le_div_iff₀ (by norm_num)]
        linarith
    _ ≤ |x| / 2 ^ 53 + 1 / 2 ^ 200 := le_add_of_nonneg_right hslack

theorem near_id : Near id := by
  intro x _
  rw [id, sub_self, abs_zero]
  positivity

variable {fl : ℚ → ℚ} {x step : ℚ}

theorem Near.div (h : Near fl) (hlow : 1 / 2 ^ 50 ≤ step) (hhigh : step ≤ 2 ^ 50)
    (hq : |x / step| ≤ 2 ^ 60) :
    |fl (fl x / step) - x / step| ≤ |x / step| / 2 ^ 51 + 1 / 2 ^ 100 := by
  have hpos : 0 < step := lt_of_lt_of_le (by positivity) hlow
  have hx : |x| ≤ 2 ^ 110 := by
    rw [abs_div, abs_of_pos hpos, div_le_iff₀ hpos] at hq
    calc |x| ≤ 2 ^ 60 * step := hq
      _ ≤ 2 ^ 60 * 2 ^ 50 := by gcongr
      _ = 2 ^ 110 := by norm_num
  have hfirst : |fl x / step - x / step| ≤ |x / step| / 2 ^ 53 + 1 / 2 ^ 150 := by
    have herr := h x (hx.trans (by norm_num))
    rw [← sub_div, abs_div, abs_div, abs_of_pos hpos]
    calc |fl x - x| / step ≤ (|x| / 2 ^ 53 + 1 / 2 ^ 200) / step := by gcongr
      _ = |x| / step / 2 ^ 53 + 1 / 2 ^ 200 / step := by ring
      _ ≤ |x| / step / 2 ^ 53 + 1 / 2 ^ 200 / (1 / 2 ^ 50) := by gcongr
      _ = |x| / step / 2 ^ 53 + 1 / 2 ^ 150 := by norm_num
  have hquot : |fl x / step| ≤ |x / step| + (|x / step| / 2 ^ 53 + 1 / 2 ^ 150) := by
    have htri := abs_sub_abs_le_abs_sub (fl x / step) (x / step)
    linarith
  have hsecond := h (fl x / step) (hquot.trans (by linarith))
  have htri := abs_sub_le (fl (fl x / step)) (fl x / step) (x / step)
  have hnn := abs_nonneg (x / step)
  linarith

end Rounding

import TradingEcosystem.Trading.Account

namespace Trading

open Common Exchange

variable {r : MEClientResponse} {past : List MEClientResponse} {old : ℤ} {maxPosition : ℕ}

/-- `position_` after the fills `past`, of which the last comes first. -/
def positionAfter : List MEClientResponse → PositionInfo
  | [] => ⟨0, 0⟩
  | r :: past => (positionAfter past).addFill r

def netQty (past : List MEClientResponse) : ℤ := (past.map signedQty).sum

def Within (maxPosition : ℕ) : List MEClientResponse → Prop
  | [] => True
  | r :: past => |netQty (r :: past)| ≤ maxPosition ∧ Within maxPosition past

def Flips (old new : ℤ) : Prop := 0 < old ∧ new < 0 ∨ old < 0 ∧ 0 < new

def ExactFill (old new : ℤ) (r : MEClientResponse) : Prop :=
  FillInRange old r ∧ (old * sideToValue r.side < 0 → (int32 (new * old) < 0 ↔ Flips old new))

def ExactAlong : List MEClientResponse → Prop
  | [] => True
  | r :: past => ExactFill (positionAfter past).position (positionAfter (r :: past)).position r ∧
      ExactAlong past

def SafeFill (old : ℤ) (r : MEClientResponse) : Prop :=
  r.execQty < 2 ^ 31 ∧
    (old * sideToValue r.side < 0 → InInt32 ((old + signedQty r) * old))

def SafeAlong : List MEClientResponse → Prop
  | [] => True
  | r :: past => SafeFill (netQty past) r ∧ SafeAlong past

theorem netQty_cons (r : MEClientResponse) (past : List MEClientResponse) :
    netQty (r :: past) = netQty past + signedQty r := by
  rw [add_comm]
  exact List.sum_cons

theorem Within.abs_le (h : Within maxPosition past) : |netQty past| ≤ maxPosition := by
  cases past with
  | nil => exact (abs_zero (α := ℤ)).trans_le (Int.natCast_nonneg _)
  | cons r past => exact h.1

theorem inInt32_of_abs {x : ℤ} (h : |x| ≤ maxPosition) (hmax : maxPosition ≤ 2 ^ 31 - 1) :
    InInt32 x := by
  obtain ⟨hlow, hhigh⟩ := abs_le.mp h
  constructor <;> omega

theorem FillInRange.flip_test (h : FillInRange old r) (hdir : old * sideToValue r.side < 0) :
    int32 ((old + signedQty r) * old) < 0 ↔ Flips old (old + signedQty r) := by
  rw [(h.product hdir).int32_eq, mul_neg_iff, Flips]
  tauto

theorem SafeFill.inRange (h : SafeFill old r) (hs : r.side.IsBuyOrSell)
    (hmax : maxPosition ≤ 2 ^ 31 - 1) (hold : |old| ≤ maxPosition)
    (hnew : |old + signedQty r| ≤ maxPosition) : FillInRange old r := by
  have hvalue : |old * sideToValue r.side| = |old| := by
    rcases hs with hs | hs <;> rw [hs] <;> simp [sideToValue]
  have hsigned : |signedQty r| = r.execQty := by
    rcases hs with hs | hs <;> rw [signedQty, hs] <;> simp [sideToValue]
  have hqty : r.execQty ≤ 2 ^ 31 - 1 := Nat.le_pred_of_lt h.1
  exact ⟨inInt32_of_abs (Nat.abs_cast r.execQty).le hqty, inInt32_of_abs hsigned.le hqty,
    inInt32_of_abs hnew hmax, inInt32_of_abs (hvalue.trans_le hold) hmax,
    fun _ => inInt32_of_abs ((abs_abs old).trans_le hold) hmax,
    inInt32_of_abs ((abs_abs _).trans_le hnew) hmax, h.2⟩

theorem FillInRange.safeFill (h : FillInRange old r) : SafeFill old r :=
  ⟨by exact_mod_cast h.cast.2, h.product⟩

theorem ExactAlong.position (h : ExactAlong past) :
    (positionAfter past).position = netQty past := by
  induction past with
  | nil => rfl
  | cons r past ih =>
    rw [positionAfter, addFill_position_eq h.1.1, ih h.2, netQty_cons]

theorem exactAlong_iff (hmax : maxPosition ≤ 2 ^ 31 - 1) (hs : ∀ r ∈ past, r.side.IsBuyOrSell)
    (hw : Within maxPosition past) : ExactAlong past ↔ SafeAlong past := by
  induction past with
  | nil => exact Iff.rfl
  | cons r past ih =>
    have ih := ih (fun r' hr' => hs r' (List.mem_cons_of_mem r hr')) hw.2
    constructor
    · intro h
      refine ⟨?_, ih.mp h.2⟩
      rw [← h.2.position]
      exact h.1.1.safeFill
    · intro h
      have hpast := ih.mpr h.2
      have hnew : |netQty past + signedQty r| ≤ maxPosition := netQty_cons r past ▸ hw.1
      have hrange : FillInRange (positionAfter past).position r := by
        rw [hpast.position]
        exact h.1.inRange (hs r List.mem_cons_self) hmax hw.2.abs_le hnew
      refine ⟨⟨hrange, ?_⟩, hpast⟩
      rw [positionAfter, addFill_position_eq hrange]
      exact hrange.flip_test

/-- Long 50001 and selling 1: the product is 2500050000, which wraps below 0, so the cost basis of
the remaining 50000 is dropped. -/
theorem long_position_taken_for_a_flip :
    let past := [executed .sell 100 1, executed .buy 100 50001]
    Within (2 ^ 31 - 1) past ∧ ¬ ExactAlong past ∧ int32 (50000 * 50001) < 0 ∧
      ¬ Flips 50001 50000 ∧
      (Account.after 0 (fun _ => (0 : ℚ)) (past.map .addFill)).info.position = 50000 ∧
      (Account.after 0 (fun _ => (0 : ℚ)) (past.map .addFill)).pnl.openVwap (sideToIndex .buy) = 0 := by
  refine ⟨⟨by decide, by decide, trivial⟩, ?_, by decide, ?_, by decide, by decide +kernel⟩
  · intro h
    have hprod := h.1.1.product (by decide)
    exact absurd hprod (by decide)
  · rintro (⟨-, h⟩ | ⟨h, -⟩) <;> exact absurd h (by decide)

theorem exactAlong_iff_sample :
    ExactAlong [executed .sell 99 25, executed .buy 100 10] ↔
      SafeAlong [executed .sell 99 25, executed .buy 100 10] :=
  exactAlong_iff (show 1000 ≤ 2 ^ 31 - 1 by decide) (by decide) ⟨by decide, by decide, trivial⟩

theorem safeAlong_of_small (hmax : maxPosition ≤ 46340) (hs : ∀ r ∈ past, r.side.IsBuyOrSell)
    (hw : Within maxPosition past) : SafeAlong past := by
  induction past with
  | nil => exact trivial
  | cons r past ih =>
    have hold : |netQty past| ≤ 46340 := hw.2.abs_le.trans (by exact_mod_cast hmax)
    have hnew : |netQty past + signedQty r| ≤ 46340 :=
      netQty_cons r past ▸ hw.1.trans (by exact_mod_cast hmax)
    refine ⟨⟨?_, fun _ => ?_⟩, ih (fun r' hr' => hs r' (List.mem_cons_of_mem r hr')) hw.2⟩
    · obtain ⟨h₁, h₂⟩ := abs_le.mp hold
      obtain ⟨h₃, h₄⟩ := abs_le.mp hnew
      rcases hs r List.mem_cons_self with hside | hside <;>
        simp only [signedQty, hside, sideToValue] at h₃ h₄ <;> omega
    · have hmul : |(netQty past + signedQty r) * netQty past| ≤ 46340 * 46340 := by
        rw [abs_mul]
        exact mul_le_mul hnew hold (abs_nonneg _) (by norm_num)
      obtain ⟨h₁, h₂⟩ := abs_le.mp hmul
      constructor <;> omega

end Trading

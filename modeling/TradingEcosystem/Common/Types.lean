import Mathlib.Tactic

namespace Common

def meMaxTickers : ℕ := 8
def meMaxNumClients : ℕ := 256
def meMaxOrderIds : ℕ := 1024 * 1024
def meMaxPriceLevels : ℕ := 131072

def orderIdInvalid : ℕ := 2 ^ 64 - 1
def tickerIdInvalid : ℕ := 2 ^ 32 - 1
def clientIdInvalid : ℕ := 2 ^ 32 - 1
def priceInvalid : ℤ := 2 ^ 63 - 1
def qtyInvalid : ℕ := 2 ^ 32 - 1
def priorityInvalid : ℕ := 2 ^ 64 - 1

-- Named, so that a literal over any number type is the same term wherever it is written.
instance atLeastTwo_two : Nat.AtLeastTwo 2 := ⟨le_rfl⟩
instance atLeastTwo_three : Nat.AtLeastTwo 3 := ⟨by decide⟩
instance atLeastTwo_ten : Nat.AtLeastTwo 10 := ⟨by decide⟩
instance atLeastTwo_hundred : Nat.AtLeastTwo 100 := ⟨by decide⟩
instance atLeastTwo_thousand : Nat.AtLeastTwo 1000 := ⟨by decide⟩

inductive Side where
  | invalid
  | buy
  | sell
  | max
  | unknown (raw : UInt8)
  deriving DecidableEq, Repr

def sideToValue : Side → ℤ
  | .invalid => 0
  | .buy => 1
  | .sell => -1
  | .max => 2
  | .unknown raw => raw.toInt8.toInt

def sideToIndex (side : Side) : ℕ := ((sideToValue side + 1) % 2 ^ 64).toNat

def Side.opposite : Side → Side
  | .buy => .sell
  | .sell => .buy
  | side => side

def Side.IsBuyOrSell (side : Side) : Prop := side = .buy ∨ side = .sell

instance (side : Side) : Decidable side.IsBuyOrSell :=
  inferInstanceAs (Decidable (_ ∨ _))

theorem Side.IsBuyOrSell.opposite {side : Side} (h : side.IsBuyOrSell) :
    side.opposite.IsBuyOrSell := by
  rcases h with rfl | rfl
  · exact .inr rfl
  · exact .inl rfl

theorem Side.IsBuyOrSell.opposite_opposite {side : Side} (h : side.IsBuyOrSell) :
    side.opposite.opposite = side := by
  rcases h with rfl | rfl <;> rfl

theorem Side.IsBuyOrSell.opposite_ne {side : Side} (h : side.IsBuyOrSell) :
    side.opposite ≠ side := by
  rcases h with rfl | rfl <;> decide

theorem Side.IsBuyOrSell.eq_opposite {side other : Side} (h : side.IsBuyOrSell)
    (ho : other.IsBuyOrSell) (hne : side ≠ other) : other = side.opposite := by
  rcases h with rfl | rfl <;> rcases ho with rfl | rfl <;> first | rfl | exact absurd rfl hne

def better (side : Side) (p q : ℤ) : Prop := if side = .buy then q < p else p < q

instance (side : Side) (p q : ℤ) : Decidable (better side p q) :=
  inferInstanceAs (Decidable (if side = .buy then q < p else p < q))

theorem better_trans {side : Side} {p q r : ℤ} (h : better side p q) (k : better side q r) :
    better side p r := by
  unfold better at *
  split_ifs at * <;> omega

theorem better_irrefl (side : Side) (p : ℤ) : ¬ better side p p := by
  unfold better
  split_ifs <;> omega

theorem better_trichotomy (side : Side) (p q : ℤ) :
    better side p q ∨ p = q ∨ better side q p := by
  unfold better
  split_ifs <;> omega

instance (side : Side) : IsStrictTotalOrder ℤ (better side) where
  trichotomous p q hpq hqp := by
    rcases better_trichotomy side p q with h | h | h
    · exact absurd h hpq
    · exact h
    · exact absurd h hqp
  irrefl := better_irrefl side
  trans _ _ _ := better_trans

def priceToIndex (price : ℤ) : ℕ := (price % meMaxPriceLevels).toNat

def PriceInRange (price : ℤ) : Prop := 0 < price ∧ price < meMaxPriceLevels

instance (price : ℤ) : Decidable (PriceInRange price) :=
  inferInstanceAs (Decidable (_ ∧ _))

theorem priceToIndex_of_inRange {price : ℤ} (h : PriceInRange price) :
    (priceToIndex price : ℤ) = price := by
  obtain ⟨h0, h1⟩ := h
  unfold priceToIndex
  rw [Int.emod_eq_of_lt h0.le h1, Int.toNat_of_nonneg h0.le]

theorem priceToIndex_inj {p q : ℤ} (hp : PriceInRange p) (hq : PriceInRange q)
    (h : priceToIndex p = priceToIndex q) : p = q := by
  rw [← priceToIndex_of_inRange hp, ← priceToIndex_of_inRange hq, h]

end Common

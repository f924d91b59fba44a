import TradingEcosystem.Common.Types

namespace Common

def readLE (data : ℕ → UInt8) (i : ℕ) : ℕ → ℕ
  | 0 => 0
  | n + 1 => (data i).toNat + 256 * readLE data (i + 1) n

def toInt64 (n : ℕ) : ℤ := if n < 2 ^ 63 then n else n - 2 ^ 64

def readSide (b : UInt8) : Side :=
  match b.toNat with
  | 0 => .invalid
  | 1 => .buy
  | 255 => .sell
  | 2 => .max
  | _ => .unknown b

def writeLE : ℕ → ℕ → List UInt8
  | 0, _ => []
  | n + 1, v => UInt8.ofNat v :: writeLE n (v / 256)

def ofInt64 (z : ℤ) : ℕ := (z % 2 ^ 64).toNat

def writeSide : Side → UInt8
  | .invalid => 0
  | .buy => 1
  | .sell => 255
  | .max => 2
  | .unknown raw => raw

/-- A packed struct, as the widths and the values of its members. -/
def pack (members : List (ℕ × ℕ)) : List UInt8 := members.flatMap fun m => writeLE m.1 m.2

theorem readLE_congr {data data' : ℕ → UInt8} {i n : ℕ}
    (h : ∀ j, i ≤ j → j < i + n → data j = data' j) : readLE data i n = readLE data' i n := by
  induction n generalizing i with
  | zero => rfl
  | succ n ih =>
    rw [readLE, readLE, h i le_rfl (by omega), ih fun j hj hn => h j (by omega) (by omega)]

section Packed

variable {w v : ℕ}

@[simp] theorem length_writeLE (n v : ℕ) : (writeLE n v).length = n := by
  induction n generalizing v with
  | zero => rfl
  | succ n ih => rw [writeLE, List.length_cons, ih]

theorem length_pack (members : List (ℕ × ℕ)) :
    (pack members).length = (members.map Prod.fst).sum := by
  induction members with
  | nil => rfl
  | cons m ms ih =>
    rw [pack, List.flatMap_cons, List.length_append, length_writeLE, List.map_cons, List.sum_cons,
      ← ih]
    rfl

theorem pack_append (xs ys : List (ℕ × ℕ)) : pack (xs ++ ys) = pack xs ++ pack ys :=
  List.flatMap_append

theorem readLE_writeLE (before after : List UInt8) (n v : ℕ) :
    readLE (fun i => (before ++ (writeLE n v ++ after)).getD i 0) before.length n = v % 256 ^ n := by
  induction n generalizing before v with
  | zero => rw [pow_zero, Nat.mod_one, readLE]
  | succ n ih =>
    have hbyte : (before ++ (writeLE (n + 1) v ++ after)).getD before.length 0 = UInt8.ofNat v := by
      simp [writeLE]
    have htail := ih (before ++ [UInt8.ofNat v]) (v / 256)
    rw [List.length_append, List.length_singleton, List.append_assoc, List.singleton_append,
      ← List.cons_append] at htail
    have hmod : v % 256 ^ (n + 1) = v % 256 + 256 * (v / 256 % 256 ^ n) := by
      rw [Nat.pow_succ', Nat.mod_mul]
    rw [readLE, hbyte, writeLE, htail, UInt8.toNat_ofNat', hmod]

theorem readLE_pack (before after : List (ℕ × ℕ)) (hv : v < 256 ^ w) :
    readLE (fun i => (pack (before ++ (w, v) :: after)).getD i 0) (before.map Prod.fst).sum w = v := by
  have h := readLE_writeLE (pack before) (pack after) w v
  rw [Nat.mod_eq_of_lt hv, length_pack] at h
  rw [pack_append]
  exact h

theorem getD_pack (before after : List (ℕ × ℕ)) (b : UInt8) :
    (pack (before ++ (1, b.toNat) :: after)).getD (before.map Prod.fst).sum 0 = b := by
  have hread := readLE_pack (w := 1) before after b.toNat_lt
  exact UInt8.toNat_inj.mp hread

theorem toInt64_ofInt64 {z : ℤ} (hlo : -2 ^ 63 ≤ z) (hhi : z < 2 ^ 63) :
    toInt64 (ofInt64 z) = z := by
  unfold toInt64 ofInt64
  rcases Int.le_total 0 z with hpos | hneg
  · rw [Int.emod_eq_of_lt hpos (by omega)]
    split_ifs with h
    · exact Int.toNat_of_nonneg hpos
    · omega
  · rcases Int.lt_or_eq_of_le hneg with hneg | rfl
    · have hmod : z % 2 ^ 64 = z + 2 ^ 64 := by omega
      rw [hmod]
      split_ifs with h
      · omega
      · omega
    · rfl

theorem ofInt64_lt (z : ℤ) : ofInt64 z < 256 ^ 8 := by
  unfold ofInt64
  omega

/-- `unknown` stands for the values that have no name. -/
def Side.Named (side : Side) : Prop :=
  ∀ raw, side = .unknown raw → raw ≠ 0 ∧ raw ≠ 1 ∧ raw ≠ 2 ∧ raw ≠ 255

instance Side.instDecidableNamed : (side : Side) → Decidable side.Named
  | .unknown raw => decidable_of_iff (raw ≠ 0 ∧ raw ≠ 1 ∧ raw ≠ 2 ∧ raw ≠ 255)
      ⟨fun h raw' heq => by cases heq; exact h, fun h => h raw rfl⟩
  | .invalid | .buy | .sell | .max => isTrue nofun

theorem readSide_writeSide {side : Side} (h : side.Named) : readSide (writeSide side) = side := by
  cases side with
  | unknown raw =>
    obtain ⟨h0, h1, h2, h3⟩ := h raw rfl
    unfold readSide writeSide
    split
    next hraw => exact absurd (UInt8.toNat_inj.mp hraw) h0
    next hraw => exact absurd (UInt8.toNat_inj.mp hraw) h1
    next hraw => exact absurd (UInt8.toNat_inj.mp hraw) h3
    next hraw => exact absurd (UInt8.toNat_inj.mp hraw) h2
    next => rfl
  | _ => rfl

end Packed

end Common

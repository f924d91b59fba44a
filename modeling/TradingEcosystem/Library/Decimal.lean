import Mathlib.Tactic

namespace Decimal

def digits (s : List Char) : List Char := s.takeWhile Char.isDigit

def afterDigits (s : List Char) : List Char := s.dropWhile Char.isDigit

def skipSpace (s : List Char) : List Char := s.dropWhile Char.isWhitespace

def sign : List Char → ℤ × List Char
  | '-' :: s => (-1, s)
  | '+' :: s => (1, s)
  | s => (1, s)

/-- The integer a text begins with; what follows it does not matter. -/
def int (s : List Char) : Option ℤ :=
  let (sg, s) := sign (skipSpace s)
  if digits s = [] then none else some (sg * Nat.ofDigitChars 10 (digits s) 0)

def fraction : List Char → List Char × List Char
  | '.' :: s => (digits s, afterDigits s)
  | s => ([], s)

def exponent : List Char → ℤ
  | 'e' :: s | 'E' :: s =>
      let (sg, s) := sign s
      sg * Nat.ofDigitChars 10 (digits s) 0
  | _ => 0

def number (s : List Char) : Option ℚ :=
  let (sg, s) := sign (skipSpace s)
  let whole := digits s
  let (frac, s) := fraction (afterDigits s)
  if whole ++ frac = [] then none
  else some (sg * Nat.ofDigitChars 10 (whole ++ frac) 0 * 10 ^ (exponent s - frac.length))

def intText (x : ℤ) : List Char :=
  (if x < 0 then ['-'] else []) ++ Nat.toDigits 10 x.natAbs

def padded (k n : ℕ) : List Char :=
  List.replicate (k - (Nat.toDigits 10 n).length) '0' ++ Nat.toDigits 10 n

def fixed (k : ℕ) (x : ℤ) : List Char :=
  (if x < 0 then ['-'] else []) ++ Nat.toDigits 10 (x.natAbs / 10 ^ k) ++
    '.' :: padded k (x.natAbs % 10 ^ k)

section Digits

variable {ds s : List Char}

theorem isDigit_toDigits (n : ℕ) : ∀ c ∈ Nat.toDigits 10 n, c.isDigit = true :=
  fun _ hc => Nat.isDigit_of_mem_toDigits (by decide) (by decide) hc

def Stops (s : List Char) : Prop := ∀ c ∈ s.head?, c.isDigit = false

theorem digits_append (h : ∀ c ∈ ds, c.isDigit = true) (hs : Stops s) :
    digits (ds ++ s) = ds ∧ afterDigits (ds ++ s) = s := by
  have hstop : s.takeWhile Char.isDigit = [] ∧ s.dropWhile Char.isDigit = s := by
    cases s with
    | nil => exact ⟨rfl, rfl⟩
    | cons c cs =>
      have hc : c.isDigit = false := hs c rfl
      exact ⟨List.takeWhile_cons_of_neg (by simp [hc]), List.dropWhile_cons_of_neg (by simp [hc])⟩
  refine ⟨?_, ?_⟩
  · rw [digits, List.takeWhile_append_of_pos h, hstop.1, List.append_nil]
  · rw [afterDigits, List.dropWhile_append_of_pos h, hstop.2]

theorem isDigit_padded (k n : ℕ) : ∀ c ∈ padded k n, c.isDigit = true := by
  intro c hc
  rcases List.mem_append.mp hc with hc | hc
  · rw [List.eq_of_mem_replicate hc]
    rfl
  · exact isDigit_toDigits n c hc

theorem ofDigitChars_padded (k n : ℕ) : Nat.ofDigitChars 10 (padded k n) 0 = n := by
  rw [padded, Nat.ofDigitChars_append, Nat.ofDigitChars_replicate_zero, Nat.mul_zero,
    Nat.ofDigitChars_ten_toDigits]

theorem length_padded {k n : ℕ} (hk : 0 < k) (h : n < 10 ^ k) : (padded k n).length = k := by
  have hle : (Nat.toDigits 10 n).length ≤ k := (Nat.length_toDigits_le_iff (by decide) hk).mpr h
  rw [padded, List.length_append, List.length_replicate]
  omega

theorem skip_of_digit {c : Char} (h : c.isDigit = true) (s : List Char) :
    sign (skipSpace (c :: s)) = (1, c :: s) := by
  have hspace : c.isWhitespace = false := by
    cases hw : c.isWhitespace with
    | false => rfl
    | true =>
      simp only [Char.isWhitespace, Bool.or_eq_true, decide_eq_true_eq] at hw
      rcases hw with ((rfl | rfl) | rfl) | rfl <;> cases h
  have hsign : c ≠ '-' ∧ c ≠ '+' := by
    refine ⟨?_, ?_⟩ <;> rintro rfl <;> cases h
  rw [skipSpace, List.dropWhile_cons_of_neg (by simp [hspace])]
  unfold sign
  split
  · next heq => exact absurd (List.cons.inj heq).1 hsign.1
  · next heq => exact absurd (List.cons.inj heq).1 hsign.2
  · rfl

theorem skip_minus (s : List Char) : sign (skipSpace ('-' :: s)) = (-1, s) := rfl

theorem sign_signed (x : ℤ) {n : ℕ} (s : List Char) :
    sign (skipSpace ((if x < 0 then ['-'] else []) ++ (Nat.toDigits 10 n ++ s))) =
      (if x < 0 then -1 else 1, Nat.toDigits 10 n ++ s) := by
  split_ifs
  · exact skip_minus _
  · obtain ⟨c, cs, hc⟩ := List.exists_cons_of_ne_nil (Nat.toDigits_ne_nil (n := n) (b := 10))
    have hdigit : c.isDigit = true := isDigit_toDigits n c (by rw [hc]; exact List.mem_cons_self ..)
    rw [List.nil_append, hc, List.cons_append]
    exact skip_of_digit hdigit _

theorem sign_mul_natAbs (x : ℤ) : (if x < 0 then -1 else 1) * (x.natAbs : ℤ) = x := by
  split_ifs <;> omega

theorem int_intText (x : ℤ) (hs : Stops s) : int (intText x ++ s) = some x := by
  obtain ⟨hd, -⟩ := digits_append (isDigit_toDigits x.natAbs) hs
  rw [int, intText, List.append_assoc, sign_signed]
  dsimp only
  rw [hd, if_neg Nat.toDigits_ne_nil, Nat.ofDigitChars_ten_toDigits, sign_mul_natAbs]

theorem number_fixed {k : ℕ} (hk : 0 < k) (x : ℤ) : number (fixed k x) = some ((x : ℚ) / 10 ^ k) := by
  have hpow : 0 < 10 ^ k := Nat.pow_pos (by decide)
  have hdot : Stops ('.' :: padded k (x.natAbs % 10 ^ k)) := by
    rintro c ⟨⟩
    rfl
  obtain ⟨hwhole, hafter⟩ := digits_append (isDigit_toDigits (x.natAbs / 10 ^ k)) hdot
  obtain ⟨hfrac, hend⟩ := digits_append (isDigit_padded k (x.natAbs % 10 ^ k)) (s := [])
    (by rintro c ⟨⟩)
  rw [List.append_nil] at hfrac hend
  have hlen := length_padded hk (Nat.mod_lt x.natAbs hpow)
  -- the digits without the point are the number itself
  have hvalue : Nat.ofDigitChars 10 (Nat.toDigits 10 (x.natAbs / 10 ^ k) ++
      padded k (x.natAbs % 10 ^ k)) 0 = x.natAbs := by
    rw [Nat.ofDigitChars_append, Nat.ofDigitChars_ten_toDigits,
      Nat.ofDigitChars_eq_ofDigitChars_zero, ofDigitChars_padded, hlen]
    exact Nat.div_add_mod ..
  have hsome : Nat.toDigits 10 (x.natAbs / 10 ^ k) ++ padded k (x.natAbs % 10 ^ k) ≠ [] :=
    List.append_ne_nil_of_left_ne_nil Nat.toDigits_ne_nil _
  rw [number, fixed, List.append_assoc, sign_signed]
  dsimp only
  rw [hwhole, hafter, fraction]
  dsimp only
  rw [hfrac, hend, if_neg hsome, hvalue, hlen, show exponent [] = 0 from rfl, zero_sub, zpow_neg, zpow_natCast]
  have hsign : ((if x < 0 then -1 else 1 : ℤ) : ℚ) * (x.natAbs : ℚ) = x := by
    rw [← Int.cast_natCast, ← Int.cast_mul, sign_mul_natAbs]
  rw [hsign, div_eq_mul_inv]

theorem number_intText (x : ℤ) : number (intText x) = some (x : ℚ) := by
  obtain ⟨hdigits, hafter⟩ := digits_append (isDigit_toDigits x.natAbs) (s := [])
    (by rintro c ⟨⟩)
  have hsigned := @sign_signed x x.natAbs []
  rw [List.append_nil] at hdigits hafter hsigned
  have hvalue : ((if x < 0 then -1 else 1 : ℤ) : ℚ) * (x.natAbs : ℚ) = x := by
    rw [← Int.cast_natCast, ← Int.cast_mul, sign_mul_natAbs]
  rw [number, intText, hsigned]
  dsimp only
  rw [hdigits, hafter, show fraction [] = ([], []) from rfl]
  dsimp only
  rw [List.append_nil, if_neg Nat.toDigits_ne_nil, Nat.ofDigitChars_ten_toDigits, hvalue,
    show exponent [] = 0 from rfl, List.length_nil, Nat.cast_zero, sub_zero, zpow_zero, mul_one]

theorem fixed_ne_nil (k : ℕ) (x : ℤ) : fixed k x ≠ [] :=
  List.append_ne_nil_of_right_ne_nil _ (List.cons_ne_nil _ _)

theorem mem_fixed {k : ℕ} {x : ℤ} {c : Char} (h : c ∈ fixed k x) :
    c = '-' ∨ c = '.' ∨ c.isDigit = true := by
  rcases List.mem_append.mp h with h | h
  · rcases List.mem_append.mp h with h | h
    · split_ifs at h
      · exact .inl (List.mem_singleton.mp h)
      · cases h
    · exact .inr (.inr (isDigit_toDigits _ c h))
  · rcases List.mem_cons.mp h with h | h
    · exact .inr (.inl h)
    · exact .inr (.inr (isDigit_padded _ _ c h))

theorem head_intText (x : ℤ) : ∃ c cs, intText x = c :: cs ∧ (c = '-' ∨ c.isDigit = true) := by
  unfold intText
  split_ifs
  · exact ⟨'-', _, rfl, .inl rfl⟩
  · obtain ⟨c, cs, hc⟩ := List.exists_cons_of_ne_nil (Nat.toDigits_ne_nil (n := x.natAbs) (b := 10))
    refine ⟨c, cs, hc, .inr (isDigit_toDigits x.natAbs c ?_)⟩
    rw [hc]
    exact List.mem_cons_self ..

end Digits

end Decimal

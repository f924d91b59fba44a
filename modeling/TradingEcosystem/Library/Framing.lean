import Mathlib.Tactic

namespace Framing

variable {α : Type}

def frames (n : ℕ) (xs : List α) : List (List α) :=
  (List.range (xs.length / n)).map fun k => (xs.drop (n * k)).take n

def rest (n : ℕ) (xs : List α) : List α := xs.drop (n * (xs.length / n))

variable {n : ℕ} {xs ys : List α}

theorem length_rest (n : ℕ) (xs : List α) : (rest n xs).length = xs.length % n := by
  rw [rest, List.length_drop, Nat.mod_def]

theorem length_rest_lt (hn : 0 < n) (xs : List α) : (rest n xs).length < n :=
  length_rest n xs ▸ Nat.mod_lt _ hn

theorem frames_of_lt (h : xs.length < n) : frames n xs = [] := by
  rw [frames, Nat.div_eq_of_lt h]
  rfl

theorem rest_of_lt (h : xs.length < n) : rest n xs = xs := by
  rw [rest, Nat.div_eq_of_lt h]
  rfl

theorem length_drop_div (hn : 0 < n) (h : n ≤ xs.length) :
    xs.length / n = (xs.drop n).length / n + 1 := by
  rw [List.length_drop, Nat.div_eq_sub_div hn h]

theorem frames_cons (hn : 0 < n) (h : n ≤ xs.length) :
    frames n xs = xs.take n :: frames n (xs.drop n) := by
  rw [frames, length_drop_div hn h, List.range_succ_eq_map, List.map_cons, List.map_map]
  refine congrArg₂ List.cons rfl (List.map_congr_left fun k _ => ?_)
  rw [Function.comp_apply, List.drop_drop, Nat.mul_succ, Nat.add_comm]

theorem rest_drop (hn : 0 < n) (h : n ≤ xs.length) : rest n xs = rest n (xs.drop n) := by
  rw [rest, rest, length_drop_div hn h, List.drop_drop, Nat.mul_succ, Nat.add_comm]

theorem append_induct {motive : List α → Prop} (hn : 0 < n)
    (short : ∀ xs, xs.length < n → motive xs)
    (cons : ∀ xs, n ≤ xs.length → motive (xs.drop n) → motive xs) (xs : List α) : motive xs := by
  induction hk : xs.length using Nat.strong_induction_on generalizing xs with
  | _ k ih =>
    by_cases h : xs.length < n
    · exact short xs h
    · have hle := Nat.not_lt.mp h
      refine cons xs hle (ih (xs.drop n).length ?_ (xs.drop n) rfl)
      rw [List.length_drop]
      omega

theorem frames_append (hn : 0 < n) (xs ys : List α) :
    frames n (xs ++ ys) = frames n xs ++ frames n (rest n xs ++ ys) := by
  induction xs using append_induct hn with
  | short xs h => rw [frames_of_lt h, rest_of_lt h, List.nil_append]
  | cons xs h ih =>
    have hle : n ≤ (xs ++ ys).length := by
      rw [List.length_append]
      omega
    rw [frames_cons hn hle, frames_cons hn h, rest_drop hn h, List.take_append_of_le_length h,
      List.drop_append_of_le_length h, ih, List.cons_append]

theorem rest_append (hn : 0 < n) (xs ys : List α) :
    rest n (xs ++ ys) = rest n (rest n xs ++ ys) := by
  induction xs using append_induct hn with
  | short xs h => rw [rest_of_lt h]
  | cons xs h ih =>
    have hle : n ≤ (xs ++ ys).length := by
      rw [List.length_append]
      omega
    rw [rest_drop hn hle, rest_drop hn h, List.drop_append_of_le_length h, ih]

theorem frames_take_flatten (hn : 0 < n) {fs : List (List α)} (hfs : ∀ f ∈ fs, f.length = n)
    (m : ℕ) : frames n (fs.flatten.take m) = fs.take (m / n) := by
  induction fs generalizing m with
  | nil => rw [List.flatten_nil, List.take_nil, List.take_nil, frames_of_lt hn]
  | cons f fs ih =>
    have hf := hfs f (List.mem_cons_self ..)
    rw [List.flatten_cons]
    rcases Nat.lt_or_ge m n with hlt | hge
    · rw [Nat.div_eq_of_lt hlt, List.take_zero]
      exact frames_of_lt (Nat.lt_of_le_of_lt (List.length_take_le _ _) hlt)
    · have htake : (f ++ fs.flatten).take m = f ++ fs.flatten.take (m - n) := by
        rw [List.take_append, hf, List.take_of_length_le (hf.trans_le hge)]
      have hlen : n ≤ (f ++ fs.flatten.take (m - n)).length := by
        rw [List.length_append, hf]
        omega
      rw [htake, frames_cons hn hlen, List.take_left' hf, List.drop_left' hf,
        ih (fun g hg => hfs g (List.mem_cons_of_mem _ hg)), Nat.div_eq_sub_div hn hge,
        List.take_succ_cons]

end Framing

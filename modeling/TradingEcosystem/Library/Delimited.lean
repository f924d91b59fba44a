import Mathlib.Tactic

namespace Delimited

variable {α : Type} [DecidableEq α] {d : α} {x rest : List α}

/-- What reading up to the next `d` yields, time after time until nothing is left. A last piece
needs no `d` behind it. -/
def pieces (d : α) : List α → List (List α)
  | [] => []
  | c :: cs =>
      if c = d then [] :: pieces d cs
      else match pieces d cs with
        | [] => [[c]]
        | p :: ps => (c :: p) :: ps

@[simp] theorem pieces_nil (d : α) : pieces d [] = [] := rfl

@[simp] theorem pieces_delim (d : α) (rest : List α) : pieces d (d :: rest) = [] :: pieces d rest :=
  if_pos rfl

theorem pieces_append (h : d ∉ x) : pieces d (x ++ d :: rest) = x :: pieces d rest := by
  induction x with
  | nil => exact pieces_delim d rest
  | cons c cs ih =>
    have hc : c ≠ d := fun hc => h (hc ▸ List.mem_cons_self ..)
    rw [List.cons_append, pieces, if_neg hc, ih fun hd => h (List.mem_cons_of_mem _ hd)]

theorem pieces_last (h : d ∉ x) (hx : x ≠ []) : pieces d x = [x] := by
  induction x with
  | nil => exact absurd rfl hx
  | cons c cs ih =>
    have hc : c ≠ d := fun hc => h (hc ▸ List.mem_cons_self ..)
    rw [pieces, if_neg hc]
    cases cs with
    | nil => rfl
    | cons b bs => rw [ih (fun hd => h (List.mem_cons_of_mem _ hd)) (List.cons_ne_nil b bs)]

def lines (d : α) (xs : List (List α)) : List α := xs.flatMap fun x => x ++ [d]

theorem pieces_lines {xs : List (List α)} (h : ∀ x ∈ xs, d ∉ x) : pieces d (lines d xs) = xs := by
  induction xs with
  | nil => rfl
  | cons x xs ih =>
    have hx : lines d (x :: xs) = x ++ d :: lines d xs := by simp [lines]
    rw [hx, pieces_append (h x (List.mem_cons_self ..)),
      ih fun y hy => h y (List.mem_cons_of_mem _ hy)]

theorem pieces_fields {xs : List (List α)} (h : ∀ x ∈ xs, d ∉ x) (hd : d ∉ x) (hx : x ≠ []) :
    pieces d (lines d xs ++ x) = xs ++ [x] := by
  induction xs with
  | nil => exact pieces_last hd hx
  | cons y ys ih =>
    have hy : lines d (y :: ys) ++ x = y ++ d :: (lines d ys ++ x) := by simp [lines]
    rw [hy, pieces_append (h y (List.mem_cons_self ..)),
      ih fun z hz => h z (List.mem_cons_of_mem _ hz), List.cons_append]

omit [DecidableEq α] in
theorem intercalate_concat (xs : List (List α)) (x : List α) :
    List.intercalate [d] (xs ++ [x]) = lines d xs ++ x := by
  induction xs with
  | nil => simp [List.intercalate, lines]
  | cons y ys ih =>
    have hne : ys ++ [x] ≠ [] := List.append_ne_nil_of_right_ne_nil ys (List.cons_ne_nil x [])
    obtain ⟨z, zs, hz⟩ := List.exists_cons_of_ne_nil hne
    have hy : lines d (y :: ys) = y ++ [d] ++ lines d ys := rfl
    rw [hy, List.append_assoc, ← ih, List.cons_append, hz]
    simp [List.intercalate]

omit [DecidableEq α] in
theorem mem_intercalate {xs : List (List α)} {c : α} (h : c ∈ List.intercalate [d] xs) :
    c = d ∨ ∃ x ∈ xs, c ∈ x := by
  rcases List.eq_nil_or_concat' xs with rfl | ⟨ys, y, rfl⟩
  · cases h
  rw [intercalate_concat] at h
  rcases List.mem_append.mp h with h | h
  · obtain ⟨x, hx, hc⟩ := List.mem_flatMap.mp h
    rcases List.mem_append.mp hc with hc | hc
    · exact .inr ⟨x, List.mem_append_left _ hx, hc⟩
    · exact .inl (List.mem_singleton.mp hc)
  · exact .inr ⟨y, by simp, h⟩

end Delimited

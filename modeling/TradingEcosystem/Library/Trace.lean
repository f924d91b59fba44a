import Mathlib.Tactic

namespace Trace

variable {S X : Type} {step : S → X → S} {s : S} {xs : List X}

def run (step : S → X → S) : S → List X → S := List.foldl step

def Every (step : S → X → S) (P : S → X → Prop) : S → List X → Prop
  | _, [] => True
  | s, x :: xs => P s x ∧ Every step P (step s x) xs

instance decidableEvery {P : S → X → Prop} [∀ s x, Decidable (P s x)] :
    (s : S) → (xs : List X) → Decidable (Every step P s xs)
  | _, [] => isTrue trivial
  | s, x :: xs =>
      have : Decidable (Every step P (step s x) xs) := decidableEvery _ xs
      inferInstanceAs (Decidable (_ ∧ _))

theorem Every.invariant {Inv : S → Prop} {A B : S → X → Prop}
    (hstep : ∀ s x, Inv s → A s x → Inv (step s x) ∧ B s x) (hs : Inv s)
    (h : Every step A s xs) : Inv (run step s xs) ∧ Every step B s xs := by
  induction xs generalizing s with
  | nil => exact ⟨hs, trivial⟩
  | cons x xs ih =>
    obtain ⟨hinv, hb⟩ := hstep s x hs h.1
    obtain ⟨hrun, hall⟩ := ih hinv h.2
    exact ⟨hrun, hb, hall⟩

theorem Every.and {A B : S → X → Prop} (ha : Every step A s xs) (hb : Every step B s xs) :
    Every step (fun s x => A s x ∧ B s x) s xs := by
  induction xs generalizing s with
  | nil => trivial
  | cons x xs ih => exact ⟨⟨ha.1, hb.1⟩, ih ha.2 hb.2⟩

theorem Every.mono {A B : S → X → Prop} (hab : ∀ s x, A s x → B s x) (h : Every step A s xs) :
    Every step B s xs := by
  induction xs generalizing s with
  | nil => trivial
  | cons x xs ih => exact ⟨hab s x h.1, ih h.2⟩

theorem run_append (s : S) (xs ys : List X) :
    run step s (xs ++ ys) = run step (run step s xs) ys :=
  List.foldl_append

theorem every_append {A : S → X → Prop} {ys : List X} :
    Every step A s (xs ++ ys) ↔ Every step A s xs ∧ Every step A (run step s xs) ys := by
  induction xs generalizing s with
  | nil => simp [Every, run]
  | cons x xs ih => simp [Every, run, ih, and_assoc]

theorem every_of_mem {A : X → Prop} (h : ∀ x ∈ xs, A x) : Every step (fun _ x => A x) s xs := by
  induction xs generalizing s with
  | nil => trivial
  | cons x xs ih =>
    exact ⟨h x (List.mem_cons_self ..), ih fun y hy => h y (List.mem_cons_of_mem _ hy)⟩

theorem forall_of_every {A : S → X → Prop} {P : X → Prop} (hp : ∀ s x, A s x → P x)
    (h : Every step A s xs) : ∀ x ∈ xs, P x := by
  induction xs generalizing s with
  | nil => exact fun x hx => by cases hx
  | cons y xs ih =>
    intro x hx
    rcases List.mem_cons.mp hx with rfl | hx
    · exact hp s x h.1
    · exact ih h.2 x hx

theorem Every.filter {A : S → X → Prop} {p : X → Bool} (hp : ∀ s x, p x = false → step s x = s)
    (h : Every step A s xs) : Every step A s (xs.filter p) ∧
      run step s (xs.filter p) = run step s xs := by
  induction xs generalizing s with
  | nil => exact ⟨trivial, rfl⟩
  | cons x xs ih =>
    obtain ⟨hall, hrun⟩ := ih h.2
    cases hx : p x with
    | true =>
      rw [List.filter_cons_of_pos hx]
      exact ⟨⟨h.1, hall⟩, hrun⟩
    | false =>
      rw [List.filter_cons_of_neg (by simp [hx])]
      rw [hp s x hx] at hall hrun
      have hskip : run step s (x :: xs) = run step s xs :=
        congrArg (fun t => run step t xs) (hp s x hx)
      exact ⟨hall, hrun.trans hskip.symm⟩

/-- The states that steps of `next`, each taken under the condition `P`, lead to from `s`. -/
inductive Reach (next : S → X → S → Prop) (P : S → X → Prop) (s : S) : S → Prop
  | refl : Reach next P s s
  | step {a b : S} {x : X} (h : Reach next P s a) (hx : P a x) (hb : next a x b) : Reach next P s b

/-- Every step of a run of `xs` from `s` satisfies `P`, where a step may fail and end the run. -/
def Each (next : S → X → S → Prop) (P : S → X → Prop) : S → List X → Prop
  | _, [] => True
  | s, x :: xs => P s x ∧ ∀ s', next s x s' → Each next P s' xs

theorem Each.of_append {next : S → X → S → Prop} {P : S → X → Prop} {ys : List X}
    (h : Each next P s (xs ++ ys)) : Each next P s xs := by
  induction xs generalizing s with
  | nil => trivial
  | cons x xs ih => exact ⟨h.1, fun s' hs' => ih (h.2 s' hs')⟩

theorem each_of_forall {next : S → X → S → Prop} {P : S → X → Prop} (h : ∀ s x, P s x) :
    Each next P s xs := by
  induction xs generalizing s with
  | nil => trivial
  | cons x xs ih => exact ⟨h s x, fun _ _ => ih⟩

theorem each_of_invariant {next : S → X → S → Prop} {P : S → X → Prop} {I : S → Prop}
    (hs : I s) (hp : ∀ s x, I s → P s x) (hn : ∀ s x s', I s → next s x s' → I s') :
    Each next P s xs := by
  induction xs generalizing s with
  | nil => trivial
  | cons x xs ih => exact ⟨hp s x hs, fun s' hs' => ih (hn s x s' hs hs')⟩

theorem Each.mono {next : S → X → S → Prop} {P Q : S → X → Prop} (hpq : ∀ s x, P s x → Q s x)
    (h : Each next P s xs) : Each next Q s xs := by
  induction xs generalizing s with
  | nil => trivial
  | cons x xs ih => exact ⟨hpq s x h.1, fun s' hs' => ih (h.2 s' hs')⟩

def decidableEach {next : S → X → S → Prop} {P : S → X → Prop} [∀ s x, Decidable (P s x)]
    {lead : S → X → Option S} (hlead : ∀ s x s', next s x s' ↔ lead s x = some s') :
    (s : S) → (xs : List X) → Decidable (Each next P s xs)
  | _, [] => isTrue trivial
  | s, x :: xs =>
      have : Decidable (∀ s', next s x s' → Each next P s' xs) :=
        match h : lead s x with
        | none => isTrue fun s' hs' => by
            rw [hlead, h] at hs'
            cases hs'
        | some s₁ =>
            have : Decidable (Each next P s₁ xs) := decidableEach hlead s₁ xs
            decidable_of_iff (Each next P s₁ xs) ⟨fun hall s' hs' => by
              rw [hlead, h] at hs'
              cases hs'
              exact hall, fun hall => hall s₁ ((hlead s x s₁).mpr h)⟩
      inferInstanceAs (Decidable (_ ∧ _))

section Reach

variable {next : S → X → S → Prop} {P Q : S → X → Prop} {a : S}

theorem Reach.invariant {Inv : S → Prop} (h : Reach next P s a) (hs : Inv s)
    (hstep : ∀ a x b, Inv a → P a x → next a x b → Inv b) : Inv a := by
  induction h with
  | refl => exact hs
  | step _ hx hb ih => exact hstep _ _ _ ih hx hb

theorem Reach.mono (h : Reach next P s a) (hpq : ∀ a x, P a x → Q a x) : Reach next Q s a := by
  induction h with
  | refl => exact .refl
  | step _ hx hb ih => exact .step ih (hpq _ _ hx) hb

theorem Reach.mono_next {next' : S → X → S → Prop} (h : Reach next P s a)
    (hn : ∀ a x b, next a x b → next' a x b) : Reach next' P s a := by
  induction h with
  | refl => exact .refl
  | step _ hx hb ih => exact .step ih hx (hn _ _ _ hb)

theorem Reach.trans {b : S} (h : Reach next P s a) (k : Reach next P a b) : Reach next P s b := by
  induction k with
  | refl => exact h
  | step _ hx hb ih => exact .step ih hx hb

end Reach

section Checked

variable {ε : Type}

def checked (step : S → X → Except ε S) (P : S → X → Prop) [∀ s x, Decidable (P s x)] (stop : ε) :
    S → List X → Except ε S
  | s, [] => .ok s
  | s, x :: xs =>
      if P s x then step s x >>= fun s' => checked step P stop s' xs else .error stop

theorem reach_of_checked {step : S → X → Except ε S} {P : S → X → Prop}
    [∀ s x, Decidable (P s x)] {stop : ε} {s' : S} (h : checked step P stop s xs = .ok s') :
    Reach (fun s x s' => step s x = .ok s') P s s' := by
  have key : ∀ s₀, Reach (fun s x s' => step s x = .ok s') P s₀ s →
      Reach (fun s x s' => step s x = .ok s') P s₀ s' := by
    intro s₀ hreach
    induction xs generalizing s with
    | nil =>
      cases h
      exact hreach
    | cons x xs ih =>
      unfold checked at h
      split_ifs at h with hx
      cases hstep : step s x with
      | error e =>
        rw [hstep] at h
        cases h
      | ok s₁ =>
        rw [hstep] at h
        exact ih h (.step hreach hx hstep)
  exact key s .refl

def orStop (step : S → X → Option S) (stop : ε) (s : S) (x : X) : Except ε S :=
  (step s x).elim (.error stop) .ok

theorem orStop_eq_ok {step : S → X → Option S} {stop : ε} {x : X} {s' : S} :
    orStop step stop s x = .ok s' ↔ step s x = some s' := by
  unfold orStop
  cases step s x <;> simp

end Checked

end Trace

import Mathlib.Tactic

namespace Unfold

variable {S A : Type} (step : S → A × S) (s₀ : S)

def after : ℕ → S
  | 0 => s₀
  | n + 1 => (step (after n)).2

def item (n : ℕ) : A := (step (after step s₀ n)).1

theorem step_after (n : ℕ) :
    step (after step s₀ n) = (item step s₀ n, after step s₀ (n + 1)) := rfl

theorem invariant (Inv : S → Prop) (R : S → A → S → Prop) (hs : Inv s₀)
    (hstep : ∀ s, Inv s → Inv (step s).2 ∧ R s (step s).1 (step s).2) (n : ℕ) :
    Inv (after step s₀ n) ∧ R (after step s₀ n) (item step s₀ n) (after step s₀ (n + 1)) := by
  have hinv : ∀ n, Inv (after step s₀ n) := by
    intro n
    induction n with
    | zero => exact hs
    | succ n ih => exact (hstep _ ih).1
  exact ⟨hinv n, (hstep _ (hinv n)).2⟩

end Unfold

import Mathlib.Tactic

namespace Common

inductive Fault where
  | nullPointer
  | freedBlock
  | outOfRange
  | assertFreeBlock
  | assertOutOfSpace
  | assertInPool
  | assertInUse
  | assertFailed
  | fatal
  | overflow
  | outOfFuel
  deriving DecidableEq, Repr

abbrev Outcome (α : Type) := Except Fault α

variable {α β : Type}

@[simp] theorem ok_bind (a : α) (f : α → Outcome β) : (Except.ok a >>= f) = f a := rfl

@[simp] theorem error_bind (e : Fault) (f : α → Outcome β) :
    ((Except.error e : Outcome α) >>= f) = .error e := rfl

@[simp] theorem pure_ok (a : α) : (pure a : Outcome α) = .ok a := rfl

theorem bind_eq_ok {x : Outcome α} {f : α → Outcome β} {b : β} :
    (x >>= f) = .ok b ↔ ∃ a, x = .ok a ∧ f a = .ok b := by
  cases x with
  | error e => simp
  | ok a => simp

theorem bind_ne_error {x : Outcome α} {f : α → Outcome β} {e : Fault} (hx : x ≠ .error e)
    (hf : ∀ a, f a ≠ .error e) : (x >>= f) ≠ .error e := by
  cases x with
  | error e' =>
    intro h
    exact hx (congrArg Except.error (Except.error.inj h))
  | ok a => exact hf a

theorem map_eq_ok {x : Outcome α} {f : α → β} {b : β} (h : x.map f = .ok b) :
    ∃ a, x = .ok a ∧ f a = b := by
  cases x with
  | error e => cases h
  | ok a => exact ⟨a, rfl, Except.ok.inj h⟩

theorem map_eq_error {x : Outcome α} {f : α → β} {e : Fault} (h : x.map f = .error e) :
    x = .error e := by
  cases x with
  | error e' => exact congrArg _ (Except.error.inj h)
  | ok a => cases h

def deref : Option ℕ → Outcome ℕ
  | none => .error .nullPointer
  | some a => .ok a

@[simp] theorem deref_some (a : ℕ) : deref (some a) = .ok a := rfl

@[simp] theorem deref_none : deref none = .error .nullPointer := rfl

def require (p : Prop) [Decidable p] (fault : Fault) : Outcome Unit :=
  if p then .ok () else .error fault

theorem require_of {p : Prop} [Decidable p] (fault : Fault) (h : p) : require p fault = .ok () :=
  if_pos h

theorem require_of_not {p : Prop} [Decidable p] (fault : Fault) (h : ¬ p) :
    require p fault = .error fault :=
  if_neg h

theorem of_require {p : Prop} [Decidable p] {fault : Fault} {u : Unit}
    (h : require p fault = .ok u) : p := by
  by_contra hn
  rw [require_of_not _ hn] at h
  cases h

theorem require_ne_error {p : Prop} [Decidable p] {fault e : Fault} (h : fault ≠ e) :
    require p fault ≠ .error e := by
  unfold require
  split_ifs <;> simp [h]

def InInt64 (x : ℤ) : Prop := -2 ^ 63 ≤ x ∧ x < 2 ^ 63

instance instDecidableInInt64 (x : ℤ) : Decidable (InInt64 x) :=
  inferInstanceAs (Decidable (_ ∧ _))

/-- The result of a step of `int64_t` arithmetic: past the type it is undefined. -/
def int64 (x : ℤ) : Outcome ℤ := do
  require (InInt64 x) .overflow
  pure x

theorem int64_eq_ok {x y : ℤ} : int64 x = .ok y ↔ InInt64 x ∧ x = y := by
  unfold int64
  by_cases h : InInt64 x
  · rw [require_of _ h, ok_bind, pure_ok]
    simp [h]
  · rw [require_of_not _ h, error_bind]
    simp [h]

end Common

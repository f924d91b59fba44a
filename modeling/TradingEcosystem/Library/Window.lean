import Mathlib.Tactic

namespace Window

variable {α : Type} {store : ℕ → α} {n lo k : ℕ} {xs ys : List α} {x : α}

/-- The cells of a ring of `n` hold the elements of `xs` from the `lo`-th on. -/
def Shows (store : ℕ → α) (n lo : ℕ) (xs : List α) : Prop :=
  ∀ k x, lo ≤ k → xs[k]? = some x → store (k % n) = x

theorem mod_ne_of_lt {j : ℕ} (hlo : lo ≤ j) (hjk : j < k) (hk : k < lo + n) : j % n ≠ k % n := by
  intro he
  have hdvd : n ∣ k - j := (Nat.modEq_iff_dvd' hjk.le).mp he
  have hle := Nat.le_of_dvd (Nat.sub_pos_of_lt hjk) hdvd
  omega

theorem shows_nil : Shows store n lo [] := by
  intro k x _ h
  cases h

theorem Shows.mono {lo' : ℕ} (h : Shows store n lo xs) (hle : lo ≤ lo') : Shows store n lo' xs :=
  fun k x hk hx => h k x (hle.trans hk) hx

theorem Shows.write (h : Shows store n lo xs) (hroom : xs.length < lo + n) (x : α) :
    Shows (Function.update store (xs.length % n) x) n lo (xs ++ [x]) := by
  intro k y hk hy
  rcases Nat.lt_or_ge k xs.length with hlt | hge
  · rw [List.getElem?_append_left hlt] at hy
    rw [Function.update_of_ne (mod_ne_of_lt hk hlt hroom)]
    exact h k y hk hy
  · have hlen := (List.getElem?_eq_some_iff.mp hy).1
    rw [List.length_append, List.length_singleton] at hlen
    obtain rfl : k = xs.length := by omega
    rw [Function.update_self]
    simpa using hy

theorem take_succ (h : xs[k]? = some x) : xs.take (k + 1) = xs.take k ++ [x] := by
  rw [List.take_add_one, h]
  rfl

end Window

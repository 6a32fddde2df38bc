/-
Content laid out along the natural numbers.

`between f a b` is everything `f` puts at the positions `a, a + 1, ..., b - 1`, in order.
-/
import Mathlib.Data.List.Range

namespace Ranges

open List

variable {α β : Type*}

/-- The items at the positions `a ≤ h < b`, in order of position. -/
def between (f : ℕ → List α) (a b : ℕ) : List α :=
  (List.range' a (b - a)).flatMap f

@[simp] theorem between_self (f : ℕ → List α) (a : ℕ) : between f a a = [] := by
  simp [between]

section

variable {a b c : ℕ} (f : ℕ → List α) (hab : a ≤ b)
include f hab

theorem between_append (hbc : b ≤ c) :
    between f a b ++ between f b c = between f a c := by
  have hsplit : List.range' a (b - a) ++ List.range' b (c - b) = List.range' a (c - a) := by
    have h := List.range'_append_1 (s := a) (m := b - a) (n := c - b)
    rw [show a + (b - a) = b by omega, show (b - a) + (c - b) = c - a by omega] at h
    exact h
  rw [between, between, between, ← flatMap_append, hsplit]

theorem between_succ :
    between f a (b + 1) = between f a b ++ f b := by
  rw [← between_append f hab (Nat.le_succ b)]
  simp [between]

theorem between_isPrefix (hbc : b ≤ c) :
    between f a b <+: between f a c :=
  ⟨between f b c, between_append f hab hbc⟩

end

theorem mem_between {f : ℕ → List α} {a b : ℕ} {x : α} :
    x ∈ between f a b ↔ ∃ h, a ≤ h ∧ h < b ∧ x ∈ f h := by
  simp only [between, mem_flatMap, mem_range'_1]
  constructor
  · rintro ⟨h, hh, hx⟩
    exact ⟨h, by omega, by omega, hx⟩
  · rintro ⟨h, ha, hb, hx⟩
    exact ⟨h, by omega, hx⟩

theorem filter_between (p : α → Bool) (f : ℕ → List α) (a b : ℕ) :
    (between f a b).filter p = between (fun h => (f h).filter p) a b := by
  simp only [between, filter_flatMap]

end Ranges

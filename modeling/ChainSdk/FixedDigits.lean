/-
Numbers written with a fixed number of digits, most significant digit first.

A store that sorts its keys as strings sorts numbers as numbers only if they are all written with
the same number of digits.
-/
import Mathlib.Algebra.Group.Nat.Defs
import Mathlib.Data.List.Basic

namespace FixedDigits

open List

variable {b w n m : ℕ}

/-! ## Digits -/

/-- The lowest `w` digits of `n` in base `b`. -/
def digits (b : ℕ) : ℕ → ℕ → List ℕ
  | 0, _ => []
  | w + 1, n => n / b ^ w % b :: digits b w n

theorem digits_lt_base (hb : 0 < b) : ∀ d ∈ digits b w n, d < b := by
  induction w with
  | zero => simp [digits]
  | succ w ih =>
    intro d hd
    rw [digits, mem_cons] at hd
    rcases hd with rfl | hd
    · exact Nat.mod_lt _ hb
    · exact ih d hd

/-! ## Order -/

theorem digits_lt_digits (hlt : n % b ^ w < m % b ^ w) : digits b w n < digits b w m := by
  induction w with
  | zero =>
    rw [Nat.pow_zero] at hlt
    omega
  | succ w ih =>
    rw [digits, digits, cons_lt_cons_iff]
    rw [Nat.mod_pow_succ, Nat.mod_pow_succ] at hlt
    -- the leading digits decide, unless they are the same
    rcases Nat.lt_trichotomy (n / b ^ w % b) (m / b ^ w % b) with hhead | hhead | hhead
    · exact .inl hhead
    · rw [hhead] at hlt
      exact .inr ⟨hhead, ih (by omega)⟩
    · exfalso
      have hb : 0 < b ^ w := by
        apply Nat.pos_of_ne_zero
        intro hzero
        rw [hzero, Nat.div_zero, Nat.div_zero] at hhead
        omega
      have hm : m % b ^ w < b ^ w := Nat.mod_lt _ hb
      have hmul : b ^ w * (m / b ^ w % b + 1) ≤ b ^ w * (n / b ^ w % b) :=
        Nat.mul_le_mul_left _ hhead
      rw [Nat.mul_add] at hmul
      generalize n % b ^ w = low at hlt
      generalize m % b ^ w = low' at hlt hm
      omega

theorem map_lt_map {α β : Type*} [LT α] [LT β] {f : α → β} {xs ys : List α}
    (hf : ∀ x ∈ xs, ∀ y ∈ ys, x < y → f x < f y) (h : xs < ys) : xs.map f < ys.map f := by
  induction xs generalizing ys with
  | nil =>
    cases ys with
    | nil => exact absurd h (not_lt_nil _)
    | cons y ys => simp
  | cons x xs ih =>
    cases ys with
    | nil => exact absurd h (not_lt_nil _)
    | cons y ys =>
      rw [cons_lt_cons_iff] at h
      rw [map_cons, map_cons, cons_lt_cons_iff]
      rcases h with hhead | ⟨rfl, htail⟩
      · exact .inl (hf x (by simp) y (by simp) hhead)
      · refine .inr ⟨rfl, ih (fun a ha c hc => hf a (by simp [ha]) c (by simp [hc])) htail⟩

/-! ## Reading the number back -/

/-- The number a list of digits stands for. -/
def value (b : ℕ) (ds : List ℕ) : ℕ := ds.foldl (fun acc d => acc * b + d) 0

theorem foldl_digits (acc : ℕ) :
    (digits b w n).foldl (fun acc d => acc * b + d) acc = acc * b ^ w + n % b ^ w := by
  induction w generalizing acc with
  | zero => simp [digits, Nat.mod_one]
  | succ w ih =>
    rw [digits, foldl_cons, ih, Nat.mod_pow_succ, Nat.pow_succ, Nat.add_mul,
      Nat.mul_assoc, Nat.mul_comm b, Nat.mul_comm (n / b ^ w % b)]
    omega

theorem value_digits (hn : n < b ^ w) : value b (digits b w n) = n := by
  rw [value, foldl_digits, Nat.zero_mul, Nat.zero_add, Nat.mod_eq_of_lt hn]

end FixedDigits

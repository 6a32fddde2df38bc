/-
Loops with an exit in the middle.

A loop is a body that either goes round again with a new state or leaves with a result; `iterate`
runs it for a number of rounds and answers `none` when they are used up.
-/
import Mathlib.Data.Nat.Notation

namespace Loops

open List

variable {S R : Type*}

/-- What a round of a loop ends with. -/
inductive Outcome (S R : Type*)
  | next (s : S)
  | done (r : R)

/-- At most `rounds` rounds of a loop. -/
def iterate (body : S → Outcome S R) : ℕ → S → Option R
  | 0, _ => none
  | rounds + 1, s =>
    match body s with
    | .next s' => iterate body rounds s'
    | .done r => some r

theorem iterate_invariant (body : S → Outcome S R) (Inv : S → Prop) (Post : R → Prop)
    (hnext : ∀ s s', Inv s → body s = .next s' → Inv s')
    (hdone : ∀ s r, Inv s → body s = .done r → Post r) :
    ∀ {rounds : ℕ} {s : S} {r : R}, Inv s → iterate body rounds s = some r → Post r := by
  intro rounds
  induction rounds with
  | zero =>
    intro s r _ hrun
    exact absurd hrun (by simp [iterate])
  | succ rounds ih =>
    intro s r hs hrun
    unfold iterate at hrun
    rcases hbody : body s with s' | r'
    · rw [hbody] at hrun
      exact ih (hnext s s' hs hbody) hrun
    · rw [hbody] at hrun
      obtain rfl : r' = r := Option.some.inj hrun
      exact hdone s r' hs hbody

theorem iterate_exits (body : S → Outcome S R) (Inv : S → Prop) (μ : S → ℕ)
    (hnext : ∀ s s', Inv s → body s = .next s' → Inv s' ∧ μ s' < μ s) :
    ∀ {rounds : ℕ} {s : S}, Inv s → μ s < rounds → ∃ r, iterate body rounds s = some r := by
  intro rounds
  induction rounds with
  | zero =>
    intro s _ hlt
    exact absurd hlt (Nat.not_lt_zero _)
  | succ rounds ih =>
    intro s hs hlt
    unfold iterate
    rcases hbody : body s with s' | r
    · obtain ⟨hs', hsmaller⟩ := hnext s s' hs hbody
      exact ih hs' (by omega)
    · exact ⟨r, rfl⟩

theorem exists_of_mem_mapM {α β ε : Type*} {f : α → Except ε β} {l : List α} {out : List β}
    (hrun : l.mapM f = .ok out) {b : β} (hb : b ∈ out) : ∃ a ∈ l, f a = .ok b := by
  induction l generalizing out with
  | nil =>
    rw [← Except.ok.inj hrun] at hb
    exact absurd hb not_mem_nil
  | cons a l ih =>
    rw [mapM_cons] at hrun
    rcases hfirst : f a with e | c
    · rw [hfirst] at hrun
      exact absurd hrun (by simp [bind, Except.bind])
    rcases hrest : l.mapM f with e | cs
    · rw [hfirst, hrest] at hrun
      exact absurd hrun (by simp [bind, Except.bind])
    rw [hfirst, hrest] at hrun
    rw [← Except.ok.inj hrun] at hb
    rcases mem_cons.mp hb with rfl | hlater
    · exact ⟨a, mem_cons_self, hfirst⟩
    · obtain ⟨a', ha', hresult⟩ := ih hrest hlater
      exact ⟨a', mem_cons_of_mem a ha', hresult⟩

end Loops

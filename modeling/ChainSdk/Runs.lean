/-
Runs of a deterministic step function over a list of inputs.

Nothing here knows what the state or the inputs are.
-/
import Mathlib.Data.List.Induction
import Mathlib.Order.Basic

namespace Runs

open List

variable {S T I J O α : Type*}

/-! ## The steps of a run -/

/-- The pairs *(state before, input)* of the run of `step` from `s`. -/
def steps (step : S → I → S) : S → List I → List (S × I)
  | _, [] => []
  | s, i :: is => (s, i) :: steps step (step s i) is

section

variable (step : S → I → S)

@[simp] theorem steps_nil (s : S) : steps step s [] = [] := rfl

@[simp] theorem steps_cons (s : S) (i : I) (is : List I) :
    steps step s (i :: is) = (s, i) :: steps step (step s i) is := rfl

theorem steps_append (s : S) (is js : List I) :
    steps step s (is ++ js) = steps step s is ++ steps step (is.foldl step s) js := by
  induction is generalizing s with
  | nil => rfl
  | cons i is ih => simp only [cons_append, steps_cons, foldl_cons, ih]

theorem mem_steps_iff (s t : S) (i : I) (is : List I) :
    (t, i) ∈ steps step s is ↔
      ∃ pre post, is = pre ++ i :: post ∧ t = pre.foldl step s := by
  induction is generalizing s with
  | nil => simp
  | cons j is ih =>
    rw [steps_cons, mem_cons, ih]
    constructor
    · rintro (h | ⟨pre, post, rfl, rfl⟩)
      · obtain ⟨rfl, rfl⟩ := Prod.mk.inj h
        exact ⟨[], is, rfl, rfl⟩
      · exact ⟨j :: pre, post, rfl, rfl⟩
    · rintro ⟨pre, post, heq, rfl⟩
      cases pre with
      | nil =>
        obtain ⟨rfl, rfl⟩ := cons.inj heq
        exact .inl rfl
      | cons k pre =>
        obtain ⟨rfl, rfl⟩ := cons.inj heq
        exact .inr ⟨pre, post, rfl, rfl⟩

end

theorem steps_of_forall {step : S → I → S} {C : I → Prop} {s : S} {is : List I}
    (hC : ∀ i ∈ is, C i) : ∀ p ∈ steps step s is, C p.2 := by
  rintro ⟨t, i⟩ hp
  obtain ⟨pre, post, rfl, -⟩ := (mem_steps_iff step s t i is).mp hp
  exact hC i (by simp)

/-! ## Invariants -/

section

variable (step : S → I → S) (Inv : S → Prop) (C : S → I → Prop)
  (hstep : ∀ s i, Inv s → C s i → Inv (step s i))
include step Inv C hstep

theorem foldl_invariant :
    ∀ {s : S} {is : List I}, Inv s → (∀ p ∈ steps step s is, C p.1 p.2) →
      Inv (is.foldl step s) := by
  intro s is
  induction is generalizing s with
  | nil => intro hs _; exact hs
  | cons i is ih =>
    intro hs hC
    have hhead : C s i := hC (s, i) (by simp)
    exact ih (hstep s i hs hhead) (fun p hp => hC p (by simp [hp]))

theorem steps_invariant :
    ∀ {s : S} {is : List I}, Inv s → (∀ p ∈ steps step s is, C p.1 p.2) →
      ∀ p ∈ steps step s is, Inv p.1 := by
  rintro s is hs hC ⟨t, i⟩ hp
  obtain ⟨pre, post, rfl, rfl⟩ := (mem_steps_iff step s t i is).mp hp
  rw [steps_append] at hC
  exact foldl_invariant step Inv C hstep hs (fun q hq => hC q (mem_append_left _ hq))

end

section

variable (step : S → I → S)

theorem steps_iff (Inv : S → Prop) (A B C : S → I → Prop)
    (hiff : ∀ s i, Inv s → A s i → (B s i ↔ C s i))
    (hkeep : ∀ s i, Inv s → A s i → C s i → Inv (step s i)) :
    ∀ {s : S} {is : List I}, Inv s → (∀ p ∈ steps step s is, A p.1 p.2) →
      ((∀ p ∈ steps step s is, B p.1 p.2) ↔ ∀ p ∈ steps step s is, C p.1 p.2) := by
  intro s is
  induction is generalizing s with
  | nil => intro _ _; simp
  | cons i is ih =>
    intro hinv hA
    have hhead : A s i := hA (s, i) (by simp)
    have htail : ∀ p ∈ steps step (step s i) is, A p.1 p.2 := fun p hp => hA p (by simp [hp])
    simp only [steps_cons, forall_mem_cons]
    constructor
    · rintro ⟨hone, hrest⟩
      have hC := (hiff s i hinv hhead).mp hone
      exact ⟨hC, (ih (hkeep s i hinv hhead hC) htail).mp hrest⟩
    · rintro ⟨hC, hrest⟩
      exact ⟨(hiff s i hinv hhead).mpr hC, (ih (hkeep s i hinv hhead hC) htail).mpr hrest⟩

theorem steps_safe_iff (Inv P : S → Prop) (A C : S → I → Prop)
    (hInv : ∀ s i, Inv s → A s i → Inv (step s i))
    (hP : ∀ s i, Inv s → A s i → P s → (P (step s i) ↔ C s i)) {s : S} {is : List I} (hs : Inv s)
    (hPs : P s) (hA : ∀ p ∈ steps step s is, A p.1 p.2) :
    (∀ p ∈ steps step s is, P (step p.1 p.2)) ↔ ∀ p ∈ steps step s is, C p.1 p.2 := by
  apply steps_iff step (fun s => Inv s ∧ P s) A (fun s i => P (step s i)) C
  · exact fun s i hinv hstep => hP s i hinv.1 hstep hinv.2
  · exact fun s i hinv hstep hC => ⟨hInv s i hinv.1 hstep, (hP s i hinv.1 hstep hinv.2).mpr hC⟩
  · exact ⟨hs, hPs⟩
  · exact hA

/-! ## Measures that never decrease -/

theorem foldl_monotone [Preorder α] (step : S → I → S) (Inv : S → Prop)
    (C : S → I → Prop) (μ : S → α) (hstep : ∀ s i, Inv s → C s i → Inv (step s i))
    (hμ : ∀ s i, Inv s → C s i → μ s ≤ μ (step s i)) :
    ∀ {s : S} {is : List I}, Inv s → (∀ p ∈ steps step s is, C p.1 p.2) →
      μ s ≤ μ (is.foldl step s) := by
  intro s is hs hC
  exact (foldl_invariant step (fun t => Inv t ∧ μ s ≤ μ t) C
    (fun t i ht hi => ⟨hstep t i ht.1 hi, ht.2.trans (hμ t i ht.1 hi)⟩) ⟨hs, le_rfl⟩ hC).2

/-! ## Outputs and simulation -/

def outputs (out : S → I → O) (s : S) (is : List I) : List O :=
  (steps step s is).map (fun p => out p.1 p.2)

@[simp] theorem outputs_nil (out : S → I → O) (s : S) : outputs step out s [] = [] := rfl

@[simp] theorem outputs_cons (out : S → I → O) (s : S) (i : I) (is : List I) :
    outputs step out s (i :: is) = out s i :: outputs step out (step s i) is := rfl

theorem outputs_const (out : I → O) (s : S) (is : List I) :
    outputs step (fun _ => out) s is = is.map out := by
  induction is generalizing s with
  | nil => rfl
  | cons i is ih => rw [outputs_cons, ih, map_cons]

end

section

variable (step : S → I → S) (out : S → I → List O) (Inv : S → List O → Prop) (C : S → I → Prop)
  (hstep : ∀ s i hist, Inv s hist → C s i → Inv (step s i) (hist ++ out s i))
include step out Inv C hstep

theorem history_invariant :
    ∀ {s : S} {hist : List O} {is : List I}, Inv s hist →
      (∀ p ∈ steps step s is, C p.1 p.2) →
      Inv (is.foldl step s) (hist ++ (outputs step out s is).flatten) := by
  intro s hist is
  induction is generalizing s hist with
  | nil => intro hs _; simpa using hs
  | cons i is ih =>
    intro hs hC
    have hi : C s i := hC (s, i) (by simp)
    rw [outputs_cons, flatten_cons, ← append_assoc]
    exact ih (hstep s i hist hs hi) (fun p hp => hC p (by simp [hp]))

theorem output_invariant
    {s : S} {is : List I} (hinit : Inv s []) (hC : ∀ p ∈ steps step s is, C p.1 p.2) :
    Inv (is.foldl step s) (outputs step out s is).flatten := by
  have hrun := history_invariant step out Inv C hstep hinit hC
  rwa [nil_append] at hrun

end

theorem foldl_related (stepA : S → I → S) (stepB : T → I → T) (R : List I → S → T → Prop)
    {is : List I} {s : S} {t : T} (hinit : R [] s t)
    (hstep : ∀ pre i post, is = pre ++ i :: post → ∀ s t, R pre s t →
      R (pre ++ [i]) (stepA s i) (stepB t i)) :
    ∀ pre post, is = pre ++ post → R pre (pre.foldl stepA s) (pre.foldl stepB t) := by
  intro pre
  induction pre using List.reverseRecOn with
  | nil => exact fun _ _ => hinit
  | append_singleton pre i ih =>
    intro post hsplit
    rw [append_assoc] at hsplit
    rw [foldl_append, foldl_append]
    exact hstep pre i post hsplit _ _ (ih (i :: post) hsplit)

theorem lockstep (stepA : S → I → S) (stepB : T → I → T) (outA : S → I → O) (outB : T → I → O)
    (R : ℕ → S → T → Prop) (C : S → I → Prop) (is : List I) :
    ∀ {n : ℕ} {s : S} {t : T}, R n s t → (∀ p ∈ steps stepA s is, C p.1 p.2) →
      (∀ k s t i, k < n + is.length → C s i → R k s t →
        R (k + 1) (stepA s i) (stepB t i) ∧ outA s i = outB t i) →
      R (n + is.length) (is.foldl stepA s) (is.foldl stepB t) ∧
        outputs stepA outA s is = outputs stepB outB t is := by
  induction is with
  | nil => exact fun hinit _ _ => ⟨hinit, rfl⟩
  | cons i is ih =>
    intro n s t hinit hC hstep
    rw [length_cons] at hstep ⊢
    have hi : C s i := hC (s, i) (by simp)
    obtain ⟨hnext, hout⟩ := hstep n s t i (by omega) hi hinit
    obtain ⟨hend, houts⟩ := ih hnext (fun p hp => hC p (by simp [hp]))
      (fun k s t j hk => hstep k s t j (by omega))
    rw [outputs_cons, hout, houts]
    refine ⟨?_, rfl⟩
    rw [Nat.add_comm is.length 1, ← Nat.add_assoc]
    exact hend

end Runs

/-
Submission to DA: `submitToDA` of `block/internal/submitting/da_submitter.go`, which sends one batch
of items until DA has acknowledged all of it.

The batch is a first part of the items that fits into a blob limit.
-/
import ChainSdk.ForcedInclusionRetriever

namespace ChainSdk

open Except List

/-- `datypes.ResultSubmit`, the fields a submission reads. -/
structure ResultSubmit where
  code : StatusCode
  submittedCount : ℕ
  height : ℕ
  deriving DecidableEq

inductive SubmitError
  /-- The items and their marshalled forms differ in number. -/
  | lengthMismatch (items marshaled : ℕ)
  /-- `ErrOversizedItem`, from the size of the first item or from DA. -/
  | oversizedItem (size maxBytes : ℕ)
  | oversizedSingle
  | noItemsFit (maxBytes : ℕ)
  | contextCanceled
  deriving DecidableEq

def SubmitError.IsOversized : SubmitError → Prop
  | .oversizedItem _ _ | .oversizedSingle => True
  | _ => False

namespace DaSubmitter

variable {α : Type}

/-! ## The batch -/

/-- The loop of `limitBatchBySize` over the items with their encodings, at an index and with a
total size so far. -/
def limitLoop (maxBytes : ℕ) :
    ℕ → ℕ → List (α × Blob) → Except SubmitError (List (α × Blob))
  | _, _, [] => .ok []
  | i, total, p :: ps =>
    if maxBytes < p.2.length then
      if i = 0 then .error (.oversizedItem p.2.length maxBytes) else .ok []
    else if maxBytes < total + p.2.length then .ok []
    else (limitLoop maxBytes (i + 1) (total + p.2.length) ps).map (p :: ·)

def limitBatchBySize (maxBytes : ℕ) (items : List (α × Blob)) :
    Except SubmitError (List (α × Blob)) :=
  match limitLoop maxBytes 0 0 items with
  | .error e => .error e
  | .ok batch => if batch.length = 0 then .error (.noItemsFit maxBytes) else .ok batch

def totalSize (items : List (α × Blob)) : ℕ := (items.map (·.2.length)).sum

section

variable {i maxBytes : ℕ} {items batch : List (α × Blob)}

theorem limitLoop_ok (maxBytes : ℕ) (hi : i ≠ 0) (total : ℕ) (items : List (α × Blob)) :
    ∃ batch, limitLoop maxBytes i total items = .ok batch := by
  induction items generalizing i total with
  | nil => exact ⟨[], rfl⟩
  | cons p items ih =>
    unfold limitLoop
    split_ifs
    · exact ⟨[], rfl⟩
    · exact ⟨[], rfl⟩
    · obtain ⟨batch, hbatch⟩ := ih (Nat.succ_ne_zero i) (total + p.2.length)
      exact ⟨p :: batch, by rw [hbatch]; rfl⟩

theorem limitLoop_spec {total : ℕ} (htotal : total ≤ maxBytes)
    (hbatch : limitLoop maxBytes i total items = .ok batch) :
    batch = items.take batch.length ∧ total + totalSize batch ≤ maxBytes := by
  induction items generalizing i total batch with
  | nil =>
    rw [← ok.inj hbatch]
    exact ⟨rfl, htotal⟩
  | cons p items ih =>
    unfold limitLoop at hbatch
    split_ifs at hbatch with _ _ hfull
    · rw [← ok.inj hbatch]
      exact ⟨rfl, htotal⟩
    · rw [← ok.inj hbatch]
      exact ⟨rfl, htotal⟩
    · rcases hrest : limitLoop maxBytes (i + 1) (total + p.2.length) items with e | rest
      · rw [hrest] at hbatch
        exact absurd hbatch (by simp [Except.map])
      rw [hrest] at hbatch
      obtain ⟨htake, hsize⟩ := ih (not_lt.mp hfull) hrest
      rw [← ok.inj hbatch, length_cons, take_succ_cons, ← htake, totalSize,
        map_cons, sum_cons, ← Nat.add_assoc]
      exact ⟨rfl, hsize⟩

theorem limitBatchBySize_spec (hbatch : limitBatchBySize maxBytes items = .ok batch) :
    batch ≠ [] ∧ batch = items.take batch.length ∧ totalSize batch ≤ maxBytes := by
  unfold limitBatchBySize at hbatch
  rcases hloop : limitLoop maxBytes 0 0 items with e | batch'
  · simp [hloop] at hbatch
  rw [hloop] at hbatch
  dsimp only at hbatch
  split_ifs at hbatch with hlength
  obtain rfl := ok.inj hbatch
  obtain ⟨htake, hsize⟩ := limitLoop_spec (Nat.zero_le _) hloop
  exact ⟨fun h => hlength (congrArg List.length h), htake, by omega⟩

theorem limitBatchBySize_isOk_iff (maxBytes : ℕ) (p : α × Blob) (items : List (α × Blob)) :
    (∃ batch, limitBatchBySize maxBytes (p :: items) = .ok batch) ↔ p.2.length ≤ maxBytes := by
  unfold limitBatchBySize limitLoop
  by_cases hbig : maxBytes < p.2.length
  · simp [hbig]
  rw [if_neg hbig, if_neg (by omega)]
  obtain ⟨batch, hbatch⟩ := limitLoop_ok maxBytes (Nat.succ_ne_zero 0) (0 + p.2.length) items
  rw [hbatch]
  refine ⟨fun _ => by omega, fun _ => ⟨p :: batch, ?_⟩⟩
  simp [Except.map]

theorem limitBatchBySize_oversized {p : α × Blob} (hbig : maxBytes < p.2.length) :
    limitBatchBySize maxBytes (p :: items) = .error (.oversizedItem p.2.length maxBytes) := by
  unfold limitBatchBySize limitLoop
  rw [if_pos hbig, if_pos rfl]

end

/-! ## A reply -/

/-- What one attempt comes to: the items taken, and the items to go on with, or the result. -/
structure AttemptOutcome (α : Type) where
  submitted : List α
  next : Except (Except SubmitError Unit) (List α)

def AttemptOutcome.rest (outcome : AttemptOutcome α) : List α :=
  match outcome.next with
  | .error _ => []
  | .ok rest => rest

/-- The body of the loop of `submitToDA` after `Submit`. DA takes no more items than it was
sent. -/
def onReply (items : List α) (res : ResultSubmit) : AttemptOutcome α :=
  match res.code with
  | .success =>
    { submitted := items.take res.submittedCount
      next :=
        if res.submittedCount = items.length then .error (.ok ())
        else .ok (items.drop res.submittedCount) }
  | .tooBig =>
    { submitted := []
      next :=
        if items.length = 1 then .error (.error .oversizedSingle)
        else .ok (items.take (if items.length / 2 = 0 then 1 else items.length / 2)) }
  | .contextCanceled => { submitted := [], next := .error (.error .contextCanceled) }
  -- the mempool's replies and all others only differ in how long to wait
  | _ => { submitted := [], next := .ok items }

end DaSubmitter

end ChainSdk

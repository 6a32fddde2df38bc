/-
The vocabulary the components share: byte strings, instants, the genesis document
(`pkg/genesis/genesis.go`) and the execution-layer interface of `core/execution/execution.go` as far
as the sequencers and the syncer use it.

An execution client is code outside this repository.
-/
import Mathlib.Algebra.Group.Int.Defs
import Mathlib.Algebra.Group.Nat.Defs
import Mathlib.Data.List.AList

namespace ChainSdk

open AList Function Option

/-! ## Bytes and instants -/

/-- A Go `[]byte`. -/
abbrev Bytes := List UInt8

/-- A transaction, `types.Tx`. -/
abbrev Tx := Bytes

abbrev Blob := Bytes

abbrev Hash := Bytes

abbrev Signature := Bytes

/-- An instant in nanoseconds since the Unix epoch. -/
abbrev Time := ℤ

def zeroTime : Time := -62135596800000000000

def millisecond : Time := 1000000

/-! ## Genesis -/

structure Genesis where
  chainID : String
  startTime : Time
  initialHeight : ℕ
  proposerAddress : Bytes
  /-- Height at which the first DA header/data has been published. -/
  daStartHeight : ℕ
  /-- Number of DA blocks that make an epoch. -/
  daEpochForcedInclusion : ℕ
  deriving DecidableEq

/-! ## The execution client -/

def defaultMaxBlobSize : ℕ := 5 * 1024 * 1024

inductive FilterStatus
  | filterOK
  | filterRemove
  | filterPostpone
  deriving DecidableEq, Repr

structure ExecutionInfo where
  maxGas : ℕ
  deriving DecidableEq, Repr

/-- An implementation of `Executor.FilterTxs` together with its documented contract:
one status a transaction. `Except.error` is the "errors during filtering" case. -/
structure TxFilter where
  filterTxs : (txs : List Tx) → (maxBytes maxGas : ℕ) →
    (hasForceIncludedTransaction : Bool) → Except String (List FilterStatus)
  length_eq : ∀ txs maxBytes maxGas forced statuses,
    filterTxs txs maxBytes maxGas forced = .ok statuses → statuses.length = txs.length

/-- The loop of `CosmosExecutor.FilterTxs`: empty transactions are removed, those that
would push the accepted bytes over the limit are postponed. -/
def cosmosFilterLoop (maxBytes : ℕ) : ℕ → List Tx → List FilterStatus
  | _, [] => []
  | cumulativeBytes, tx :: txs =>
    if tx.length = 0 then
      .filterRemove :: cosmosFilterLoop maxBytes cumulativeBytes txs
    else if 0 < maxBytes ∧ maxBytes < cumulativeBytes + tx.length then
      .filterPostpone :: cosmosFilterLoop maxBytes cumulativeBytes txs
    else
      .filterOK :: cosmosFilterLoop maxBytes (cumulativeBytes + tx.length) txs

theorem cosmosFilterLoop_length (maxBytes cumulativeBytes : ℕ) (txs : List Tx) :
    (cosmosFilterLoop maxBytes cumulativeBytes txs).length = txs.length := by
  induction txs generalizing cumulativeBytes with
  | nil => rfl
  | cons tx txs ih =>
    rw [cosmosFilterLoop]
    split_ifs <;> simp only [List.length_cons, ih]

def cosmosFilterTxs (cancelled : Bool) : TxFilter where
  filterTxs := fun txs maxBytes _ _ =>
    if cancelled then .error "context canceled" else .ok (cosmosFilterLoop maxBytes 0 txs)
  length_eq := by
    intro txs maxBytes maxGas forced statuses h
    cases cancelled with
    | true => simp at h
    | false =>
      simp only [Bool.false_eq_true, if_false, Except.ok.injEq] at h
      rw [← h, cosmosFilterLoop_length]

/-! ## Maps -/

section

variable {α β : Type} [DecidableEq α] {s : AList (fun _ : α => β)} {a k : α} {b : β}

theorem lookup_of_lookup_erase (hlookup : (s.erase a).lookup k = some b) : s.lookup k = some b := by
  by_cases hk : k = a
  · rw [hk] at hlookup
    simp at hlookup
  · rwa [lookup_erase_ne hk] at hlookup

theorem forall_lookup_insert {P : α → β → Prop} (hs : ∀ k v, s.lookup k = some v → P k v)
    (hab : P a b) : ∀ k v, (s.insert a b).lookup k = some v → P k v := by
  intro k v hlookup
  by_cases hk : k = a
  · rw [hk, lookup_insert] at hlookup
    rw [hk, ← some.inj hlookup]
    exact hab
  · rw [lookup_insert_ne hk] at hlookup
    exact hs k v hlookup

theorem forall_update_some {f : α → Option β} {P : α → β → Prop}
    (hf : ∀ k v, k ≠ a → f k = some v → P k v) (hab : P a b) :
    ∀ k v, update f a (some b) k = some v → P k v := by
  intro k v hk
  by_cases hka : k = a
  · rw [hka, update_self] at hk
    rw [hka, ← some.inj hk]
    exact hab
  · rw [update_of_ne hka] at hk
    exact hf k v hka hk

theorem isSome_lookup_insert (hk : (s.lookup k).isSome ∨ a = k) :
    ((s.insert a b).lookup k).isSome := by
  by_cases hka : k = a
  · rw [hka, lookup_insert]
    rfl
  · rw [lookup_insert_ne hka]
    exact hk.resolve_right (Ne.symm hka)

theorem eq_empty_of_lookup (hs : ∀ k, s.lookup k = none) : s = ∅ := by
  apply AList.ext
  rcases hentries : s.entries with _ | ⟨e, es⟩
  · rfl
  · refine absurd ?_ (lookup_eq_none.mp (hs e.1))
    rw [mem_keys, keys, hentries]
    exact List.mem_cons_self

/-- Adds an entry unless there is one with its key. -/
def insertNew (key : β → α) (s : AList (fun _ : α => β)) (b : β) : AList (fun _ : α => β) :=
  if (s.lookup (key b)).isSome then s else s.insert (key b) b

theorem lookup_foldl_insertNew (key : β → α) (bs : List β) (s : AList (fun _ : α => β)) (k : α) :
    (bs.foldl (insertNew key) s).lookup k = (s.lookup k).or (bs.find? (key · = k)) := by
  induction bs generalizing s with
  | nil => simp
  | cons b bs ih =>
    have hone : (insertNew key s b).lookup k =
        (s.lookup k).or (if key b = k then some b else none) := by
      unfold insertNew
      by_cases hk : key b = k
      · rw [if_pos hk, ← hk]
        rcases hlookup : s.lookup (key b) with _ | b'
        · simp
        · simp [hlookup]
      · rw [if_neg hk, or_none]
        split_ifs
        · rfl
        · rw [lookup_insert_ne (Ne.symm hk)]
    rw [List.foldl_cons, ih, hone, Option.or_assoc, List.find?_cons]
    by_cases hk : key b = k <;> simp [hk]

end

end ChainSdk

/-
What the single and the based sequencer share: the position in the forced-inclusion stream
(`pkg/sequencers/common/checkpoint.go`) and the way a `GetNextBatch` call moves it.

Both sequencers keep three separately updated things: the DA height the node is told (`daHeight`),
the checkpoint, and the transactions of the epoch being worked through.
-/
import ChainSdk.ForcedInclusionRetriever
import Mathlib.Tactic.Linarith

namespace ChainSdk

open List

/-- `seqcommon.Checkpoint`: the DA height being processed and the index of the next
transaction in it. -/
structure Checkpoint where
  daHeight : ℕ
  txIndex : ℕ
  deriving DecidableEq

/-- The position of a sequencer. `epochTxs` is `cachedForcedInclusionTxs` in the single
and `currentBatchTxs` in the based sequencer. -/
structure EpochReader where
  daHeight : ℕ
  checkpoint : Checkpoint
  epochTxs : List Tx
  fiRetriever : ForcedInclusionRetriever

/-- What a sequencer keeps to spread the blocks of an epoch over time. -/
structure EpochClock where
  currentDAEndTime : Time
  currentEpochTxCount : ℕ
  deriving DecidableEq

section

variable (c : EpochClock)

/-- The clock part of `fetchNextDAEpoch`: the count is the epoch's, the end time is only
ever raised. -/
def EpochClock.takeEpoch (validTxs : List Tx) (timestamp : Time) : EpochClock where
  currentEpochTxCount := validTxs.length
  currentDAEndTime :=
    if c.currentDAEndTime < timestamp then timestamp else c.currentDAEndTime

def EpochClock.timestamp (txIndexForTimestamp : ℕ) : Time :=
  c.currentDAEndTime - c.currentEpochTxCount * millisecond + txIndexForTimestamp * millisecond

theorem EpochClock.timestamp_mono {i j : ℕ} (hle : i ≤ j) : c.timestamp i ≤ c.timestamp j := by
  unfold timestamp millisecond
  linarith

theorem EpochClock.timestamp_le_end {i : ℕ} (hle : i ≤ c.currentEpochTxCount) :
    c.timestamp i ≤ c.currentDAEndTime := by
  unfold timestamp millisecond
  linarith

theorem EpochClock.takeEpoch_end (validTxs : List Tx) (timestamp : Time) :
    (c.takeEpoch validTxs timestamp).currentDAEndTime = max c.currentDAEndTime timestamp := by
  show (if c.currentDAEndTime < timestamp then timestamp else c.currentDAEndTime) = _
  split_ifs with hlt
  · exact (max_eq_right hlt.le).symm
  · exact (max_eq_left (not_lt.mp hlt)).symm

end

/-- The transactions of an event that are not larger than the limit. -/
def dropOversized (maxBytes : ℕ) (txs : List Tx) : List Tx :=
  txs.filter (fun tx => tx.length ≤ maxBytes)

namespace EpochReader

variable (p : EpochReader)

/-- The guard of the fetch: nothing is cached, or all of it is consumed. -/
def needsFetch : Bool :=
  0 < p.daHeight ∧ (p.epochTxs.length = 0 ∨ p.epochTxs.length ≤ p.checkpoint.txIndex)

def remaining : List Tx :=
  if 0 < p.epochTxs.length ∧ p.checkpoint.txIndex < p.epochTxs.length then
    p.epochTxs.drop p.checkpoint.txIndex
  else []

/-- The part of `fetchNextDAEpoch` after a successful retrieval. -/
def takeEpoch (maxBytes : ℕ) (event : ForcedInclusionEvent) (r : ForcedInclusionRetriever) :
    EpochReader :=
  { p with epochTxs := dropOversized maxBytes event.txs, fiRetriever := r }

/-- The checkpoint update: count what was consumed and, at the end of the cached
transactions, move on to the DA height after `daHeight`. -/
def advance (daHeight consumedCount : ℕ) : EpochReader :=
  if p.epochTxs.length ≤ p.checkpoint.txIndex + consumedCount then
    { p with checkpoint := ⟨daHeight + 1, 0⟩, epochTxs := [], daHeight := daHeight + 1 }
  else
    { p with checkpoint := { p.checkpoint with
        txIndex := p.checkpoint.txIndex + consumedCount } }

end EpochReader

section

variable {p : EpochReader}

theorem EpochReader.advance_fiRetriever (p : EpochReader) (daHeight consumedCount : ℕ) :
    (p.advance daHeight consumedCount).fiRetriever = p.fiRetriever := by
  unfold advance
  split_ifs
  · rfl
  · rfl

theorem EpochReader.remaining_of_needsFetch (hneeds : p.needsFetch = true) :
    p.remaining = [] := by
  simp only [needsFetch, decide_eq_true_eq] at hneeds
  unfold remaining
  rw [if_neg (by omega)]

theorem EpochReader.daHeight_pos_of_needsFetch (hneeds : p.needsFetch = true) : 0 < p.daHeight := by
  simp only [needsFetch, decide_eq_true_eq] at hneeds
  exact hneeds.1

theorem EpochReader.remaining_of_nil (hempty : p.epochTxs = []) :
    p.remaining = [] := by
  unfold remaining
  rw [hempty, if_neg (by simp)]

theorem EpochReader.remaining_of_ne_nil (hne : p.remaining ≠ []) :
    p.checkpoint.txIndex < p.epochTxs.length ∧
      p.remaining = p.epochTxs.drop p.checkpoint.txIndex := by
  unfold remaining at hne ⊢
  split_ifs at hne ⊢ with hleft
  · exact ⟨hleft.2, rfl⟩
  · exact absurd rfl hne

theorem EpochReader.daHeight_eq_zero (hneeds : p.needsFetch = false)
    (hnone : p.remaining = []) : p.daHeight = 0 := by
  simp only [needsFetch, decide_eq_false_iff_not] at hneeds
  unfold remaining at hnone
  split_ifs at hnone with hleft
  · have hlen := congrArg List.length hnone
    rw [length_drop, length_nil] at hlen
    omega
  · omega

end

/-! ## The filter loop -/

/-- The statuses a sequencer works with: when the filter fails, everything is accepted. -/
def statusesOrAccept (filter : TxFilter) (txs : List Tx) (maxBytes maxGas : ℕ)
    (hasForced : Bool) : List FilterStatus :=
  match filter.filterTxs txs maxBytes maxGas hasForced with
  | .ok statuses => statuses
  | .error _ => List.replicate txs.length .filterOK

theorem statusesOrAccept_length (filter : TxFilter) (txs : List Tx) (maxBytes maxGas : ℕ)
    (hasForced : Bool) :
    (statusesOrAccept filter txs maxBytes maxGas hasForced).length = txs.length := by
  unfold statusesOrAccept
  rcases hres : filter.filterTxs txs maxBytes maxGas hasForced with e | statuses
  · exact length_replicate
  · exact filter.length_eq txs maxBytes maxGas hasForced statuses hres

/-- The loop over the forced transactions: the accepted ones, and how many were consumed. -/
def consumeForced : List Tx → List FilterStatus → List Tx × ℕ
  | tx :: txs, .filterOK :: statuses =>
    let rest := consumeForced txs statuses
    (tx :: rest.1, rest.2 + 1)
  | _ :: txs, .filterRemove :: statuses =>
    let rest := consumeForced txs statuses
    (rest.1, rest.2 + 1)
  -- a postponed transaction ends the loop, as does a filter that returns too few statuses
  | _, _ => ([], 0)

theorem consumeForced_spec (txs : List Tx) (statuses : List FilterStatus) :
    (consumeForced txs statuses).2 ≤ txs.length ∧
      (consumeForced txs statuses).1.Sublist (txs.take (consumeForced txs statuses).2) := by
  induction txs generalizing statuses with
  | nil => simp [consumeForced]
  | cons tx txs ih =>
    cases statuses with
    | nil => simp [consumeForced]
    | cons status statuses =>
      -- a removed transaction is consumed without being accepted
      obtain ⟨hle, hsub⟩ := ih statuses
      cases status with
      | filterOK => exact ⟨Nat.succ_le_succ hle, by simpa [consumeForced] using hsub⟩
      | filterRemove =>
        exact ⟨Nat.succ_le_succ hle, by simpa [consumeForced] using hsub.cons tx⟩
      | filterPostpone => simp [consumeForced]

/-- The transactions the loop gets to, with their statuses. -/
def untilPostponed (txs : List Tx) (statuses : List FilterStatus) : List (Tx × FilterStatus) :=
  (txs.zip statuses).takeWhile (fun p => p.2 ≠ .filterPostpone)

/-- Of the transactions at hand those before the first postponed one are consumed, each of them
accepted or removed, and the accepted ones are emitted. -/
structure FiltersInOrder (atHand : List Tx) (statuses : List FilterStatus)
    (consumed emitted : List Tx) : Prop where
  consumed_eq : consumed = (untilPostponed atHand statuses).map Prod.fst
  emitted_eq : emitted =
    ((untilPostponed atHand statuses).filter (fun p => p.2 = .filterOK)).map Prod.fst
  removed : ∀ p ∈ untilPostponed atHand statuses, p.2 ≠ .filterOK → p.2 = .filterRemove

theorem consumeForced_filters (txs : List Tx) (statuses : List FilterStatus) :
    FiltersInOrder txs statuses (txs.take (consumeForced txs statuses).2)
      (consumeForced txs statuses).1 := by
  induction txs generalizing statuses with
  | nil => exact ⟨rfl, rfl, by simp [untilPostponed]⟩
  | cons tx txs ih =>
    cases statuses with
    | nil => exact ⟨rfl, rfl, by simp [untilPostponed]⟩
    | cons status statuses =>
      obtain ⟨hconsumed, hemitted, hremoved⟩ := ih statuses
      unfold untilPostponed at hconsumed hemitted hremoved
      cases status with
      | filterOK | filterRemove =>
        refine ⟨?_, ?_, ?_⟩
        · simpa [consumeForced, untilPostponed] using hconsumed
        · simpa [consumeForced, untilPostponed] using hemitted
        · simpa [untilPostponed] using hremoved
      | filterPostpone => exact ⟨rfl, rfl, by simp [untilPostponed]⟩

theorem consumeForced_take (txs : List Tx) (statuses : List FilterStatus) :
    consumeForced txs (statuses.take txs.length) = consumeForced txs statuses := by
  induction txs generalizing statuses with
  | nil => rfl
  | cons tx txs ih =>
    cases statuses with
    | nil => rfl
    | cons status statuses => cases status <;> simp [consumeForced, ih]

theorem consumeForced_pos {txs : List Tx} {statuses : List FilterStatus}
    (hne : (consumeForced txs statuses).1.length ≠ 0) : 0 < (consumeForced txs statuses).2 := by
  by_contra hzero
  have hsub := (consumeForced_spec txs statuses).2
  rw [Nat.eq_zero_of_not_pos hzero] at hsub
  apply hne
  rw [sublist_nil.mp hsub, length_nil]

/-! ## The moves of a call -/

namespace EpochReader

/-- Every move a `GetNextBatch` call can make on the position, with the forced
transactions it consumes, given the DA replies of the call. -/
inductive Step (maxBytes : ℕ) (env : RetrieveEnv) : EpochReader → EpochReader → List Tx → Prop
  /-- Nothing is fetched and nothing is at hand. -/
  | idle (p : EpochReader) (hneeds : p.needsFetch = false) (hnone : p.remaining = []) :
      Step maxBytes env p p []
  /-- The retrieval fails. -/
  | notFetched (p : EpochReader) (e : RetrieveError) (hneeds : p.needsFetch = true)
      (hres : (p.fiRetriever.retrieveForcedIncludedTxs env p.checkpoint.daHeight).1 = .error e) :
      Step maxBytes env p
        { p with fiRetriever :=
            (p.fiRetriever.retrieveForcedIncludedTxs env p.checkpoint.daHeight).2 } []
  /-- Forced inclusion is not configured and the single sequencer empties its cache. -/
  | notConfigured (p : EpochReader) (hneeds : p.needsFetch = true)
      (hres : (p.fiRetriever.retrieveForcedIncludedTxs env p.checkpoint.daHeight).1 =
        .error .forceInclusionNotConfigured) :
      Step maxBytes env p
        { p with
          epochTxs := []
          fiRetriever :=
            (p.fiRetriever.retrieveForcedIncludedTxs env p.checkpoint.daHeight).2 } []
  /-- An epoch is fetched, `n` of its transactions are consumed and the checkpoint is
  advanced from the epoch's end. -/
  | fetched (p p' : EpochReader) (event : ForcedInclusionEvent) (n : ℕ)
      (hneeds : p.needsFetch = true)
      (hres : (p.fiRetriever.retrieveForcedIncludedTxs env p.checkpoint.daHeight).1 = .ok event)
      (htake : p' = p.takeEpoch maxBytes event
        (p.fiRetriever.retrieveForcedIncludedTxs env p.checkpoint.daHeight).2)
      (hact : 0 < event.endDaHeight ∨ 0 < p'.remaining.length)
      (hn : n ≤ p'.remaining.length) :
      Step maxBytes env p (p'.advance event.endDaHeight n) (p'.remaining.take n)
  /-- An epoch is fetched at height 0 and holds nothing: the checkpoint is left alone. -/
  | fetchedNothing (p p' : EpochReader) (event : ForcedInclusionEvent)
      (hneeds : p.needsFetch = true)
      (hres : (p.fiRetriever.retrieveForcedIncludedTxs env p.checkpoint.daHeight).1 = .ok event)
      (htake : p' = p.takeEpoch maxBytes event
        (p.fiRetriever.retrieveForcedIncludedTxs env p.checkpoint.daHeight).2)
      (hzero : event.endDaHeight = 0) (hnone : p'.remaining = []) :
      Step maxBytes env p p' []
  /-- The call works on the cached epoch. The checkpoint is advanced from whatever DA
  height the sequencer holds, which only other components have written since the fetch. -/
  | served (p : EpochReader) (n : ℕ) (hneeds : p.needsFetch = false)
      (hact : 0 < p.daHeight ∨ 0 < p.remaining.length) (hn : n ≤ p.remaining.length) :
      Step maxBytes env p (p.advance p.daHeight n) (p.remaining.take n)

section

variable {maxBytes : ℕ} {env : RetrieveEnv} {p : EpochReader}

/-- What a call does once the fetch has answered with a DA height: it consumes some of what is at
hand, and moves the checkpoint unless the height is zero and nothing is at hand. -/
def Moves (daHeight : ℕ) (p p' : EpochReader) (taken : List Tx) : Prop :=
  ∃ n ≤ p.remaining.length, taken = p.remaining.take n ∧
    p' = if 0 < daHeight ∨ 0 < p.remaining.length then p.advance daHeight n else p

variable {p' : EpochReader} {taken : List Tx}

theorem Moves.of_spent (h : Moves 0 p p' taken) (hnone : p.remaining = []) :
    p' = p ∧ taken = [] := by
  obtain ⟨n, -, rfl, rfl⟩ := h
  simp [hnone]

theorem step_of_event {event : ForcedInclusionEvent} (hneeds : p.needsFetch = true)
    (hres : (p.fiRetriever.retrieveForcedIncludedTxs env p.checkpoint.daHeight).1 = .ok event)
    (hmoves : Moves event.endDaHeight (p.takeEpoch maxBytes event
      (p.fiRetriever.retrieveForcedIncludedTxs env p.checkpoint.daHeight).2) p' taken) :
    Step maxBytes env p p' taken := by
  obtain ⟨n, hn, rfl, rfl⟩ := hmoves
  split_ifs with hact
  · exact .fetched p _ event n hneeds hres rfl hact hn
  -- only an epoch that ends at height 0 and holds nothing fails the guard
  · have hnone := length_eq_zero_iff.mp (Nat.eq_zero_of_not_pos (not_or.mp hact).2)
    rw [hnone, take_nil]
    exact .fetchedNothing p _ event hneeds hres rfl (by omega) hnone

theorem step_of_cached (hneeds : p.needsFetch = false) (hmoves : Moves p.daHeight p p' taken) :
    Step maxBytes env p p' taken := by
  obtain ⟨n, hn, rfl, rfl⟩ := hmoves
  split_ifs with hact
  · exact .served p n hneeds hact hn
  · have hnone : p.remaining = [] := length_eq_zero_iff.mp (by omega)
    rw [hnone, take_nil]
    exact .idle p hneeds hnone

theorem Step.placed (hstep : Step maxBytes env p p' taken)
    (hp : p.checkpoint.daHeight ≠ 0) : p'.checkpoint.daHeight ≠ 0 := by
  have hadvance : ∀ (q : EpochReader) (daHeight n : ℕ), q.checkpoint.daHeight ≠ 0 →
      (q.advance daHeight n).checkpoint.daHeight ≠ 0 := by
    intro q daHeight n hq
    unfold advance
    split_ifs
    · simp
    · exact hq
  cases hstep with
  | idle | notFetched | notConfigured => exact hp
  | fetched q event n hneeds hres htake => exact hadvance _ _ _ (htake ▸ hp)
  | fetchedNothing q event hneeds hres htake => exact htake ▸ hp
  | served n => exact hadvance _ _ _ hp

end

end EpochReader

end ChainSdk

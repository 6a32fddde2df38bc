/-
`pkg/sequencers/based/sequencer.go`: the based sequencer, which takes its transactions from DA only.

It moves the same position as the single sequencer (`EpochReader`) but has no identity check, no
mempool and no catch-up mode, and a call that emits nothing answers `ErrNoBatch`.
-/
import ChainSdk.SingleSequencer

namespace ChainSdk

/-- `based.BasedSequencer`; `savedCheckpoint` is what its checkpoint store holds. -/
structure BasedSequencer extends EpochReader where
  clock : EpochClock
  savedCheckpoint : Option Checkpoint

variable (s : BasedSequencer) (daHeight : ℕ) (req : GetNextBatchRequest) (env : CallEnv)

namespace BasedSequencer

def new (genesis : Genesis) (client : Client) (savedCheckpoint : Option Checkpoint)
    (lastState : Option StoredState) : BasedSequencer :=
  let daStartHeight :=
    match lastState with
    | some state => if 0 < state.daHeight then state.daHeight else genesis.daStartHeight
    | none => genesis.daStartHeight
  { daHeight := daStartHeight
    checkpoint := savedCheckpoint.getD ⟨daStartHeight, 0⟩
    epochTxs := []
    fiRetriever := .new client genesis.daStartHeight genesis.daEpochForcedInclusion
    clock := ⟨genesis.startTime, 0⟩
    savedCheckpoint := savedCheckpoint }

section

variable (s : BasedSequencer)

def setDAHeight (height : ℕ) : BasedSequencer :=
  { s with daHeight := height }

def getDAHeight : ℕ := s.daHeight

def fetchNextDAEpoch (maxBytes : ℕ) (env : CallEnv) : Except SequencerError ℕ × BasedSequencer :=
  let res := s.fiRetriever.retrieveForcedIncludedTxs env.retrieval s.checkpoint.daHeight
  match res.1 with
  | .error .forceInclusionNotConfigured =>
    (.error .forceInclusionNotConfigured, { s with fiRetriever := res.2 })
  | .error (.heightFromFuture _) => (.ok 0, { s with fiRetriever := res.2 })
  | .error e => (.error (.retrieveFailed e), { s with fiRetriever := res.2 })
  | .ok event =>
    (.ok event.endDaHeight, { s with
      toEpochReader := s.toEpochReader.takeEpoch maxBytes event res.2
      clock := s.clock.takeEpoch (dropOversized maxBytes event.txs) event.timestamp })

/-- The next epoch is fetched when nothing of the last one is left. -/
def fetchIfNeeded (maxBytes : ℕ) (env : CallEnv) : Except SequencerError ℕ × BasedSequencer :=
  if s.needsFetch then s.fetchNextDAEpoch maxBytes env else (.ok s.daHeight, s)

/-- The outcome of the loop over the remaining transactions of the epoch. -/
def processed (maxBytes : ℕ) (env : CallEnv) : List Tx × ℕ :=
  consumeForced s.remaining
    (statusesOrAccept env.filter s.remaining maxBytes env.maxGas true)

def finish (daHeight : ℕ) (req : GetNextBatchRequest) (env : CallEnv) :
    Except SequencerError GetNextBatchResponse × BasedSequencer :=
  let out := s.processed req.maxBytes env
  let active : Bool := 0 < daHeight ∨ 0 < s.remaining.length
  let moved := if active then
      { s with toEpochReader := s.toEpochReader.advance daHeight out.2 } else s
  -- the checkpoint has moved in memory even when it cannot be saved
  if active ∧ !env.checkpointSaved then (.error .saveFailed, moved)
  else
    let saved := if active then
        { moved with savedCheckpoint := some moved.checkpoint } else moved
    let txIndexForTimestamp := if active then s.checkpoint.txIndex + out.2 else 0
    if out.1.length = 0 then (.error .noBatch, saved)
    else (.ok ⟨⟨out.1⟩, s.clock.timestamp txIndexForTimestamp, req.lastBatchData⟩, saved)

def getNextBatch (req : GetNextBatchRequest) (env : CallEnv) :
    Except SequencerError GetNextBatchResponse × BasedSequencer :=
  match s.fetchIfNeeded req.maxBytes env with
  | (.error e, s') => (.error e, s')
  | (.ok daHeight, s') => s'.finish daHeight req env

/-! ## What a call does to the position -/

/-- The forced transactions a call consumes, whether it emits or removes them. -/
def forcedConsumed (req : GetNextBatchRequest) (env : CallEnv) : List Tx :=
  match s.fetchIfNeeded req.maxBytes env with
  | (.error _, _) => []
  | (.ok _, s') => s'.remaining.take (s'.processed req.maxBytes env).2

def forcedInHand (req : GetNextBatchRequest) (env : CallEnv) : List Tx :=
  match s.fetchIfNeeded req.maxBytes env with
  | (.error _, _) => []
  | (.ok _, s') => s'.remaining

theorem finish_toEpochReader :
    (s.finish daHeight req env).2.toEpochReader =
      if 0 < daHeight ∨ 0 < s.remaining.length then
        s.toEpochReader.advance daHeight (s.processed req.maxBytes env).2
      else s.toEpochReader := by
  by_cases hact : 0 < daHeight ∨ 0 < s.remaining.length
  · simp only [finish, hact, decide_true]
    split_ifs <;> rfl
  · simp only [finish, hact, decide_false, Bool.false_eq_true]
    split_ifs <;> rfl

/-- The guard of the checkpoint update. -/
def Active (daHeight : ℕ) : Prop := 0 < daHeight ∨ 0 < s.remaining.length

end

instance (s : BasedSequencer) (daHeight : ℕ) : Decidable (s.Active daHeight) :=
  inferInstanceAs (Decidable (0 < daHeight ∨ 0 < s.remaining.length))

theorem finish_result :
    (s.finish daHeight req env).1 =
      if s.Active daHeight ∧ env.checkpointSaved = false then .error .saveFailed
      else if (s.processed req.maxBytes env).1.length = 0 then .error .noBatch
      else .ok ⟨⟨(s.processed req.maxBytes env).1⟩, s.clock.timestamp
        (if s.Active daHeight then s.checkpoint.txIndex + (s.processed req.maxBytes env).2
          else 0), req.lastBatchData⟩ := by
  unfold finish Active
  by_cases hactive : 0 < daHeight ∨ 0 < s.remaining.length
  · cases env.checkpointSaved with
    | true =>
      simp only [hactive, decide_true, Bool.not_true, Bool.false_eq_true, Bool.true_eq_false,
        and_false, if_false, if_true]
      split_ifs <;> rfl
    | false => simp [hactive]
  · simp only [hactive, decide_false, Bool.false_eq_true, false_and]
    split_ifs <;> rfl

theorem finish_batch (hsaved : ¬ (s.Active daHeight ∧ env.checkpointSaved = false)) :
    batchOf (s.finish daHeight req env).1 = (s.processed req.maxBytes env).1 := by
  rw [finish_result, if_neg hsaved]
  by_cases hnone : (s.processed req.maxBytes env).1.length = 0
  · rw [if_pos hnone]
    exact (List.length_eq_zero_iff.mp hnone).symm
  · rw [if_neg hnone]
    rfl

theorem finish_frame :
    (s.finish daHeight req env).2.clock = s.clock ∧
      (s.finish daHeight req env).2.savedCheckpoint =
        if s.Active daHeight ∧ env.checkpointSaved = true then
          some (s.finish daHeight req env).2.checkpoint
        else s.savedCheckpoint := by
  unfold finish Active
  by_cases hactive : 0 < daHeight ∨ 0 < s.remaining.length
  · cases env.checkpointSaved with
    | true =>
      simp only [hactive, decide_true, Bool.not_true, Bool.false_eq_true, and_false, if_false,
        if_true, and_true]
      split_ifs <;> exact ⟨rfl, rfl⟩
    | false =>
      simp only [hactive, decide_true, Bool.not_false, and_self, if_true, Bool.false_eq_true,
        and_false, if_false]
  · simp only [hactive, decide_false, Bool.false_eq_true, false_and, if_false]
    split_ifs <;> exact ⟨rfl, rfl⟩

theorem fetchNextDAEpoch_spec (maxBytes : ℕ) (env : CallEnv) :
    let res := s.fiRetriever.retrieveForcedIncludedTxs env.retrieval s.checkpoint.daHeight
    let fetched := s.fetchNextDAEpoch maxBytes env
    fetched.2.savedCheckpoint = s.savedCheckpoint ∧
      ((∃ event, res.1 = .ok event ∧ fetched.1 = .ok event.endDaHeight ∧
          fetched.2.toEpochReader = s.toEpochReader.takeEpoch maxBytes event res.2 ∧
          fetched.2.clock =
            s.clock.takeEpoch (dropOversized maxBytes event.txs) event.timestamp) ∨
        ∃ e, res.1 = .error e ∧ (fetched.1 = .ok 0 ∨ ∃ e', fetched.1 = .error e') ∧
          fetched.2.toEpochReader = { s.toEpochReader with fiRetriever := res.2 } ∧
          fetched.2.clock = s.clock ∧
          (e ≠ .forceInclusionNotConfigured → (∀ h, e ≠ .heightFromFuture h) →
            fetched.1 = .error (.retrieveFailed e))) := by
  intro res fetched
  have hfetched : fetched = s.fetchNextDAEpoch maxBytes env := rfl
  unfold fetchNextDAEpoch at hfetched
  dsimp only at hfetched
  rcases hres : res.1 with e | event
  · rw [hres] at hfetched
    cases e with
    | forceInclusionNotConfigured =>
      rw [hfetched]
      exact ⟨rfl, .inr ⟨_, rfl, .inr ⟨_, rfl⟩, rfl, rfl, fun h => absurd rfl h⟩⟩
    | heightFromFuture h =>
      rw [hfetched]
      exact ⟨rfl, .inr ⟨_, rfl, .inl rfl, rfl, rfl, fun _ hfut => absurd rfl (hfut h)⟩⟩
    | beforeStartHeight daHeight start | failedHeight h message =>
      rw [hfetched]
      exact ⟨rfl, .inr ⟨_, rfl, .inr ⟨_, rfl⟩, rfl, rfl, fun _ _ => rfl⟩⟩
  · rw [hres] at hfetched
    rw [hfetched]
    exact ⟨rfl, .inl ⟨event, rfl, rfl, rfl, rfl⟩⟩

theorem getNextBatch_of_fetch_ok {s : BasedSequencer} {req : GetNextBatchRequest}
    {env : CallEnv} {daHeight : ℕ}
    (hfetch : (s.fetchIfNeeded req.maxBytes env).1 = .ok daHeight) :
    (s.fetchIfNeeded req.maxBytes env).2.Moves daHeight (s.getNextBatch req env).2.toEpochReader
      (s.forcedConsumed req env) := by
  unfold getNextBatch forcedConsumed
  rcases hpair : s.fetchIfNeeded req.maxBytes env with ⟨out, s'⟩
  rw [hpair] at hfetch
  obtain rfl : out = .ok daHeight := hfetch
  exact ⟨(s'.processed req.maxBytes env).2, (consumeForced_spec _ _).1, rfl,
    s'.finish_toEpochReader daHeight req env⟩

/-- A `GetNextBatch` call of the based sequencer makes one of the moves of
`EpochReader.Step`. -/
theorem getNextBatch_step :
    EpochReader.Step req.maxBytes env.retrieval s.toEpochReader
      (s.getNextBatch req env).2.toEpochReader (s.forcedConsumed req env) := by
  by_cases hneeds : s.toEpochReader.needsFetch = true
  · have hif : s.fetchIfNeeded req.maxBytes env = s.fetchNextDAEpoch req.maxBytes env :=
      if_pos hneeds
    rcases (s.fetchNextDAEpoch_spec req.maxBytes env).2 with
      ⟨event, hres, hend, hpos, -⟩ | ⟨e, hres, hend | ⟨e', hend⟩, hpos, -⟩
    · -- an epoch arrived
      have hmoves := getNextBatch_of_fetch_ok (hif ▸ hend)
      rw [hif, hpos] at hmoves
      exact EpochReader.step_of_event hneeds hres hmoves
    · -- DA has not produced the epoch yet
      have hmoves := getNextBatch_of_fetch_ok (hif ▸ hend)
      rw [hif, hpos] at hmoves
      obtain ⟨hmove, hcons⟩ := hmoves.of_spent (EpochReader.remaining_of_needsFetch hneeds)
      rw [hmove, hcons]
      exact .notFetched _ e hneeds hres
    · have hpair : s.fetchIfNeeded req.maxBytes env =
          (.error e', (s.fetchNextDAEpoch req.maxBytes env).2) := by
        rw [hif, ← hend]
      simp only [getNextBatch, forcedConsumed, hpair]
      rw [hpos]
      exact .notFetched _ e hneeds hres
  · have hif : s.fetchIfNeeded req.maxBytes env = (.ok s.daHeight, s) := if_neg hneeds
    have hmoves := getNextBatch_of_fetch_ok (congrArg Prod.fst hif)
    rw [hif] at hmoves
    exact EpochReader.step_of_cached (by simpa using hneeds) hmoves

theorem getNextBatch_batch {s : BasedSequencer} {req : GetNextBatchRequest} {env : CallEnv}
    (hsaved : env.checkpointSaved = true) :
    FiltersInOrder (s.forcedInHand req env)
      (statusesOrAccept env.filter (s.forcedInHand req env) req.maxBytes env.maxGas true)
      (s.forcedConsumed req env) (batchOf (s.getNextBatch req env).1) := by
  unfold forcedInHand forcedConsumed getNextBatch
  rcases s.fetchIfNeeded req.maxBytes env with ⟨e | daHeight, s'⟩
  · exact consumeForced_filters [] _
  dsimp only
  rw [s'.finish_batch daHeight req env (by simp [hsaved])]
  exact consumeForced_filters _ _

end BasedSequencer

end ChainSdk

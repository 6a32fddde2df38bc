/-
`pkg/sequencers/single/sequencer.go`: the single sequencer.

A `GetNextBatch` call first makes sure an epoch of forced transactions is at hand, then takes a
mempool batch unless it is catching up, runs the execution client's filter over both, and finally
moves and saves the checkpoint.
-/
import ChainSdk.BatchQueue
import ChainSdk.EpochReader

namespace ChainSdk

open EpochReader List

/-! ## State -/

inductive CatchUpState
  | catchUpUnchecked
  | catchUpInProgress
  | catchUpDone
  deriving DecidableEq, Repr

structure StoredState where
  daHeight : ℕ
  lastBlockTime : Time
  deriving DecidableEq

/-- The node's datastore, as far as the sequencers use it; `GenesisDAHeightKey` is written by the
submitter and the state of the last block by the executor. -/
structure SequencerDb where
  checkpoint : Option Checkpoint
  queue : QueueDb
  genesisDAHeight : Option ℕ
  lastState : Option StoredState

structure Sequencer extends EpochReader where
  genesis : Genesis
  client : Client
  id : Bytes
  queue : BatchQueue
  daStartHeight : ℕ
  catchUpState : CatchUpState
  clock : EpochClock
  db : SequencerDb

inductive SequencerError
  | invalidId
  | retrieveFailed (e : RetrieveError)
  | forceInclusionNotConfigured
  | saveFailed
  | noBatch
  | addBatchFailed (e : QueueError)
  deriving DecidableEq

structure GetNextBatchRequest where
  id : Bytes
  maxBytes : ℕ
  lastBatchData : List Bytes

structure GetNextBatchResponse where
  batch : Batch
  timestamp : Time
  batchData : List Bytes
  deriving DecidableEq

/-- The transactions a call hands out. -/
def batchOf : Except SequencerError GetNextBatchResponse → List Tx
  | .ok resp => resp.batch.transactions
  | .error _ => []

/-- What the outside world does during one `GetNextBatch` call: DA, the execution client,
the wall clock, and which datastore writes go through. -/
structure CallEnv where
  retrieval : RetrieveEnv
  latestDAHeight : Except String ℕ
  executionInfo : Except String ExecutionInfo
  filter : TxFilter
  now : Time
  queueDeleted : Bool
  queueWritten : Bool
  checkpointSaved : Bool

/-- The gas limit both sequencers pass to the filter: none when the execution client does
not answer. -/
def CallEnv.maxGas (env : CallEnv) : ℕ :=
  match env.executionInfo with
  | .ok info => info.maxGas
  | .error _ => 0

namespace Sequencer

def getInitialDAStartHeight (daStartHeight : ℕ) (db : SequencerDb) : ℕ :=
  if daStartHeight ≠ 0 then daStartHeight else db.genesisDAHeight.getD 0

def new (genesis : Genesis) (client : Client) (id : Bytes) (maxQueueSize : ℕ)
    (db : SequencerDb) : Sequencer where
  genesis := genesis
  client := client
  id := id
  daHeight := genesis.daStartHeight
  checkpoint := db.checkpoint.getD ⟨genesis.daStartHeight, 0⟩
  epochTxs := []
  fiRetriever := .new client (getInitialDAStartHeight genesis.daStartHeight db)
    genesis.daEpochForcedInclusion
  queue := (BatchQueue.load maxQueueSize db.queue).1
  daStartHeight := getInitialDAStartHeight genesis.daStartHeight db
  catchUpState := .catchUpUnchecked
  clock := ⟨genesis.startTime, 0⟩
  db := { db with queue := (BatchQueue.load maxQueueSize db.queue).2 }

def setDAHeight (s : Sequencer) (height : ℕ) : Sequencer := { s with daHeight := height }

def getDAHeight (s : Sequencer) : ℕ := s.daHeight

def submitBatchTxs (s : Sequencer) (id : Bytes) (batch : Batch) (written : Bool) :
    Except SequencerError Unit × Sequencer :=
  if s.id ≠ id then (.error .invalidId, s)
  else if batch.transactions.length = 0 then (.ok (), s)
  else
    match s.queue.addBatch s.db.queue batch written with
    | .error e => (.error (.addBatchFailed e), s)
    | .ok (queue, queueDb) =>
      (.ok (), { s with queue := queue, db := { s.db with queue := queueDb } })

/-! ## Fetching an epoch -/

def catchUpFloor (s : Sequencer) : Time :=
  match s.db.lastState with
  | some state =>
    if state.lastBlockTime ≠ zeroTime ∧ s.clock.currentDAEndTime < state.lastBlockTime then
      state.lastBlockTime
    else s.clock.currentDAEndTime
  | none => s.clock.currentDAEndTime

def updateCatchUpState (s : Sequencer) (env : CallEnv) : Sequencer :=
  if s.catchUpState ≠ .catchUpUnchecked then s
  else
    let done := { s with catchUpState := .catchUpDone }
    let epochSize := s.genesis.daEpochForcedInclusion
    if epochSize = 0 then done
    else
      -- when DA does not say how far it is, the sequencer takes itself to be up to date
      match env.latestDAHeight with
      | .error _ => done
      | .ok latestDAHeight =>
        let epoch (h : ℕ) := calculateEpochNumber h s.genesis.daStartHeight epochSize
        -- the two guards of the source: DA is not ahead, or not by a whole epoch
        if latestDAHeight ≤ s.checkpoint.daHeight then done
        else if epoch latestDAHeight = epoch s.checkpoint.daHeight then done
        else
          { s with
            catchUpState := .catchUpInProgress
            clock := { s.clock with currentDAEndTime := s.catchUpFloor } }

/-- `fetchNextDAEpoch`: the end of the fetched epoch, or `0` when there is nothing to
fetch yet or at all. -/
def fetchNextDAEpoch (s₀ : Sequencer) (maxBytes : ℕ) (env : CallEnv) :
    Except SequencerError ℕ × Sequencer :=
  let s := s₀.updateCatchUpState env
  let res := s.fiRetriever.retrieveForcedIncludedTxs env.retrieval s.checkpoint.daHeight
  match res.1 with
  -- the tip of DA: the checkpoint waits there, and catching up is over
  | .error (.heightFromFuture _) =>
    (.ok 0, { s with
      fiRetriever := res.2
      catchUpState := if s.catchUpState = .catchUpInProgress then .catchUpDone
        else s.catchUpState })
  -- without a forced inclusion namespace the sequencer only has its queue
  | .error .forceInclusionNotConfigured =>
    (.ok 0, { s with fiRetriever := res.2, epochTxs := [], catchUpState := .catchUpDone })
  | .error e => (.error (.retrieveFailed e), { s with fiRetriever := res.2 })
  | .ok event =>
    (.ok event.endDaHeight, { s with
      toEpochReader := s.toEpochReader.takeEpoch maxBytes event res.2
      clock := s.clock.takeEpoch (dropOversized maxBytes event.txs) event.timestamp })

/-! ## `GetNextBatch` -/

/-- The checkpoint init path: a sequencer that started without a DA height has been given
one. -/
def bootstrap (s : Sequencer) : Sequencer :=
  -- the new retriever starts with an empty prefetch cache
  if 0 < s.daHeight ∧ s.checkpoint.daHeight = 0 then
    let start := getInitialDAStartHeight s.daStartHeight s.db
    { s with
      checkpoint := ⟨s.daHeight, 0⟩
      daStartHeight := start
      fiRetriever := .new s.client start s.genesis.daEpochForcedInclusion }
  else s

def takeMempool (s : Sequencer) (env : CallEnv) : Batch × Sequencer :=
  if s.catchUpState = .catchUpInProgress then (⟨[]⟩, s)
  else
    let res := s.queue.next s.db.queue env.queueDeleted
    (res.1, { s with queue := res.2.1, db := { s.db with queue := res.2.2 } })

/-- What a call has in hand when it has run the filter. -/
structure Collected where
  seq : Sequencer
  daHeight : ℕ
  forcedTxs : List Tx
  mempoolTxs : List Tx
  filterStatuses : List FilterStatus

/-- The next epoch is fetched when nothing of the last one is left. -/
def fetchIfNeeded (s : Sequencer) (maxBytes : ℕ) (env : CallEnv) :
    Except SequencerError ℕ × Sequencer :=
  if s.needsFetch then s.fetchNextDAEpoch maxBytes env else (.ok s.daHeight, s)

def collect (s : Sequencer) (req : GetNextBatchRequest) (env : CallEnv) :
    Except SequencerError Collected × Sequencer :=
  let fetched := s.bootstrap.fetchIfNeeded req.maxBytes env
  match fetched.1 with
  | .error e => (.error e, fetched.2)
  | .ok daHeight =>
    let forcedTxs := fetched.2.remaining
    let popped := fetched.2.takeMempool env
    let mempoolTxs := popped.1.transactions
    -- one filter call for both lists: the statuses are split again by position
    let statuses := statusesOrAccept env.filter (forcedTxs ++ mempoolTxs) req.maxBytes
      env.maxGas (0 < forcedTxs.length)
    (.ok ⟨popped.2, daHeight, forcedTxs, mempoolTxs, statuses⟩, popped.2)

namespace Collected

/-- The outcome of the loop over the forced transactions. -/
def forced (c : Collected) : List Tx × ℕ :=
  consumeForced c.forcedTxs (c.filterStatuses.take c.forcedTxs.length)

def mempoolWith (c : Collected) (status : FilterStatus) : List Tx :=
  ((c.mempoolTxs.zip (c.filterStatuses.drop c.forcedTxs.length)).filter
    (fun p => p.2 = status)).map Prod.fst

end Collected

/-- Postponed mempool transactions go back to the front of the queue. -/
def returnPostponed (s : Sequencer) (postponed : List Tx) (env : CallEnv) : Sequencer :=
  if postponed.length = 0 then s
  else
    match s.queue.prepend s.db.queue ⟨postponed⟩ env.queueWritten with
    | .error _ => s
    | .ok (queue, queueDb) => { s with queue := queue, db := { s.db with queue := queueDb } }

def finish (c : Collected) (req : GetNextBatchRequest) (env : CallEnv) :
    Except SequencerError GetNextBatchResponse × Sequencer :=
  let s := returnPostponed c.seq (c.mempoolWith .filterPostpone) env
  -- `daHeight` is `0` when there was nothing to fetch: then the checkpoint stays
  let active : Bool := 0 < c.daHeight ∨ 0 < c.forcedTxs.length
  let moved := if active then
      { s with toEpochReader := s.toEpochReader.advance c.daHeight c.forced.2 } else s
  -- the checkpoint has moved in memory even when it cannot be saved
  if active ∧ !env.checkpointSaved then (.error .saveFailed, moved)
  else
    let saved := if active then
        { moved with db := { moved.db with checkpoint := some moved.checkpoint } } else moved
    let txIndexForTimestamp := if active then s.checkpoint.txIndex + c.forced.2 else 0
    let timestamp :=
      if s.catchUpState = .catchUpInProgress ∨ 0 < c.forced.2 then
        s.clock.timestamp txIndexForTimestamp
      else env.now
    let batchTxs := c.forced.1 ++ c.mempoolWith .filterOK
    if s.catchUpState = .catchUpInProgress ∧ batchTxs.length = 0 then (.error .noBatch, saved)
    else (.ok ⟨⟨batchTxs⟩, timestamp, req.lastBatchData⟩, saved)

def getNextBatch (s : Sequencer) (req : GetNextBatchRequest) (env : CallEnv) :
    Except SequencerError GetNextBatchResponse × Sequencer :=
  if s.id ≠ req.id then (.error .invalidId, s)
  else
    match s.collect req env with
    | (.error e, s') => (.error e, s')
    | (.ok c, _) => finish c req env

/-! ## What a call does to the position -/

/-- The forced transactions a call consumes, whether it emits or removes them. -/
def forcedConsumed (s : Sequencer) (req : GetNextBatchRequest) (env : CallEnv) : List Tx :=
  if s.id ≠ req.id then []
  else
    match (s.collect req env).1 with
    | .error _ => []
    | .ok c => c.forcedTxs.take c.forced.2

/-- The forced transactions a call has at hand when it runs the filter. -/
def forcedInHand (s : Sequencer) (req : GetNextBatchRequest) (env : CallEnv) : List Tx :=
  if s.id ≠ req.id then []
  else
    match (s.collect req env).1 with
    | .error _ => []
    | .ok c => c.forcedTxs

def forcedEmitted (s : Sequencer) (req : GetNextBatchRequest) (env : CallEnv) : List Tx :=
  if s.id ≠ req.id then []
  else
    match (s.collect req env).1 with
    | .error _ => []
    | .ok c => c.forced.1

def mempoolTaken (s : Sequencer) (req : GetNextBatchRequest) (env : CallEnv) : List Tx :=
  if s.id ≠ req.id then []
  else
    match (s.collect req env).1 with
    | .error _ => []
    | .ok c => c.mempoolTxs

section

variable (s : Sequencer)
include s

@[simp] theorem updateCatchUpState_toEpochReader (env : CallEnv) :
    (s.updateCatchUpState env).toEpochReader = s.toEpochReader := by
  unfold updateCatchUpState
  dsimp only
  split_ifs
  · rfl
  · rfl
  · split
    · rfl
    · split_ifs <;> rfl

@[simp] theorem takeMempool_toEpochReader (env : CallEnv) :
    (s.takeMempool env).2.toEpochReader = s.toEpochReader := by
  unfold takeMempool
  split_ifs <;> rfl

@[simp] theorem returnPostponed_toEpochReader (postponed : List Tx)
    (env : CallEnv) : (s.returnPostponed postponed env).toEpochReader = s.toEpochReader := by
  unfold returnPostponed
  split_ifs
  · rfl
  · split <;> rfl

theorem returnPostponed_frame (postponed : List Tx) (env : CallEnv) :
    (s.returnPostponed postponed env).catchUpState = s.catchUpState ∧
      (s.returnPostponed postponed env).clock = s.clock ∧
      (s.returnPostponed postponed env).id = s.id ∧
      (s.returnPostponed postponed env).genesis = s.genesis ∧
      (s.returnPostponed postponed env).client = s.client ∧
      (s.returnPostponed postponed env).db.lastState = s.db.lastState ∧
      (s.returnPostponed postponed env).db.checkpoint = s.db.checkpoint := by
  unfold returnPostponed
  split_ifs
  · exact ⟨rfl, rfl, rfl, rfl, rfl, rfl, rfl⟩
  · split <;> exact ⟨rfl, rfl, rfl, rfl, rfl, rfl, rfl⟩

theorem bootstrap_frame :
    s.bootstrap.queue = s.queue ∧ s.bootstrap.db = s.db ∧ s.bootstrap.id = s.id ∧
      s.bootstrap.genesis = s.genesis ∧ s.bootstrap.client = s.client ∧
      s.bootstrap.clock = s.clock ∧ s.bootstrap.catchUpState = s.catchUpState := by
  unfold bootstrap
  split_ifs
  · exact ⟨rfl, rfl, rfl, rfl, rfl, rfl, rfl⟩
  · exact ⟨rfl, rfl, rfl, rfl, rfl, rfl, rfl⟩

theorem fetchIfNeeded_frame (maxBytes : ℕ) (env : CallEnv) :
    (s.fetchIfNeeded maxBytes env).2.queue = s.queue ∧
      (s.fetchIfNeeded maxBytes env).2.db = s.db ∧
      (s.fetchIfNeeded maxBytes env).2.id = s.id ∧
      (s.fetchIfNeeded maxBytes env).2.genesis = s.genesis ∧
      (s.fetchIfNeeded maxBytes env).2.client = s.client := by
  have hcatch : (s.updateCatchUpState env).queue = s.queue ∧
      (s.updateCatchUpState env).db = s.db ∧ (s.updateCatchUpState env).id = s.id ∧
      (s.updateCatchUpState env).genesis = s.genesis ∧
      (s.updateCatchUpState env).client = s.client := by
    unfold updateCatchUpState
    dsimp only
    split_ifs
    · exact ⟨rfl, rfl, rfl, rfl, rfl⟩
    · exact ⟨rfl, rfl, rfl, rfl, rfl⟩
    · split
      · exact ⟨rfl, rfl, rfl, rfl, rfl⟩
      · split_ifs <;> exact ⟨rfl, rfl, rfl, rfl, rfl⟩
  unfold fetchIfNeeded
  split_ifs
  · unfold fetchNextDAEpoch
    dsimp only
    split <;> exact hcatch
  · exact ⟨rfl, rfl, rfl, rfl, rfl⟩

theorem takeMempool_frame (env : CallEnv) :
    (s.takeMempool env).2.catchUpState = s.catchUpState ∧
      (s.takeMempool env).2.clock = s.clock ∧ (s.takeMempool env).2.id = s.id ∧
      (s.takeMempool env).2.genesis = s.genesis ∧ (s.takeMempool env).2.client = s.client ∧
      (s.takeMempool env).2.db.checkpoint = s.db.checkpoint ∧
      (s.takeMempool env).2.db.lastState = s.db.lastState := by
  unfold takeMempool
  split_ifs
  · exact ⟨rfl, rfl, rfl, rfl, rfl, rfl, rfl⟩
  · exact ⟨rfl, rfl, rfl, rfl, rfl, rfl, rfl⟩

end

section

variable {s : Sequencer} {req : GetNextBatchRequest} {env : CallEnv} {c : Collected}
  (hc : (s.collect req env).1 = .ok c)
include hc

theorem collect_ok :
    let fetched := s.bootstrap.fetchIfNeeded req.maxBytes env
    fetched.1 = .ok c.daHeight ∧ c.seq = (fetched.2.takeMempool env).2 ∧
      c.forcedTxs = fetched.2.remaining ∧
      c.mempoolTxs = (fetched.2.takeMempool env).1.transactions ∧
      c.filterStatuses = statusesOrAccept env.filter (c.forcedTxs ++ c.mempoolTxs) req.maxBytes
        env.maxGas (0 < c.forcedTxs.length) := by
  intro fetched
  unfold collect at hc
  dsimp only at hc
  rcases hfetch : (s.bootstrap.fetchIfNeeded req.maxBytes env).1 with e | daHeight
  · simp [hfetch] at hc
  · rw [hfetch] at hc
    obtain rfl := Except.ok.inj hc
    exact ⟨rfl, rfl, rfl, rfl, rfl⟩

theorem collect_frame :
    let fetched := s.bootstrap.fetchIfNeeded req.maxBytes env
    c.seq.toEpochReader = fetched.2.toEpochReader ∧
      c.seq.catchUpState = fetched.2.catchUpState ∧ c.seq.clock = fetched.2.clock ∧
      c.seq.id = s.id ∧ c.seq.genesis = s.genesis ∧ c.seq.client = s.client ∧
      c.seq.db.checkpoint = s.db.checkpoint ∧ c.seq.db.lastState = s.db.lastState := by
  intro fetched
  obtain ⟨-, hseq, -⟩ := collect_ok hc
  obtain ⟨hstate, hclock, hid, hgenesis, hclient, hcp, hlast⟩ := takeMempool_frame fetched.2 env
  obtain ⟨-, hdb, hid', hgenesis', hclient'⟩ := fetchIfNeeded_frame s.bootstrap req.maxBytes env
  obtain ⟨-, hdb₀, hid₀, hgenesis₀, hclient₀, -⟩ := bootstrap_frame s
  rw [hseq]
  refine ⟨takeMempool_toEpochReader _ env, hstate, hclock, ?_, ?_, ?_, ?_, ?_⟩
  · rw [hid, hid', hid₀]
  · rw [hgenesis, hgenesis', hgenesis₀]
  · rw [hclient, hclient', hclient₀]
  · rw [hcp, hdb, hdb₀]
  · rw [hlast, hdb, hdb₀]

end

/-- The guard of the checkpoint update: there is a DA height, or there are forced
transactions. -/
def Collected.Active (c : Collected) : Prop := 0 < c.daHeight ∨ 0 < c.forcedTxs.length

instance (c : Collected) : Decidable c.Active :=
  inferInstanceAs (Decidable (0 < c.daHeight ∨ 0 < c.forcedTxs.length))

def Collected.timestampIndex (c : Collected) : ℕ :=
  if c.Active then c.seq.checkpoint.txIndex + c.forced.2 else 0

/-- The timestamp of a call: from the clock of the epoch while catching up and whenever
forced transactions were consumed, from the wall clock otherwise. -/
def Collected.timestamp (c : Collected) (env : CallEnv) : Time :=
  if c.seq.catchUpState = .catchUpInProgress ∨ 0 < c.forced.2 then
    c.seq.clock.timestamp c.timestampIndex
  else env.now

/-- The transactions of the batch of a call. -/
def Collected.batchTxs (c : Collected) : List Tx := c.forced.1 ++ c.mempoolWith .filterOK

section

variable (c : Collected) (req : GetNextBatchRequest) (env : CallEnv)
include c req env

theorem finish_result :
    (finish c req env).1 =
      if c.Active ∧ env.checkpointSaved = false then .error .saveFailed
      else if c.seq.catchUpState = .catchUpInProgress ∧ c.batchTxs.length = 0 then
        .error .noBatch
      else .ok ⟨⟨c.batchTxs⟩, c.timestamp env, req.lastBatchData⟩ := by
  obtain ⟨hstate, hclock, -⟩ := returnPostponed_frame c.seq (c.mempoolWith .filterPostpone) env
  have hindex := congrArg checkpoint
    (returnPostponed_toEpochReader c.seq (c.mempoolWith .filterPostpone) env)
  unfold finish Collected.timestamp Collected.timestampIndex Collected.batchTxs Collected.Active
  dsimp only
  rw [hstate, hclock, hindex]
  by_cases hactive : 0 < c.daHeight ∨ 0 < c.forcedTxs.length
  · cases env.checkpointSaved with
    | true =>
      simp only [hactive, decide_true, Bool.not_true, Bool.false_eq_true, Bool.true_eq_false,
        and_false, if_false, if_true]
      split_ifs <;> rfl
    | false => simp [hactive]
  · simp only [hactive, decide_false, Bool.false_eq_true, false_and]
    split_ifs <;> rfl

theorem finish_batch (hsaved : ¬ (c.Active ∧ env.checkpointSaved = false)) :
    batchOf (finish c req env).1 = c.batchTxs := by
  rw [finish_result, if_neg hsaved]
  split_ifs with hnone
  · exact (length_eq_zero_iff.mp hnone.2).symm
  · rfl

theorem finish_frame :
    let returned := returnPostponed c.seq (c.mempoolWith .filterPostpone) env
    let s' := (finish c req env).2
    s'.queue = returned.queue ∧ s'.db.queue = returned.db.queue ∧
      s'.catchUpState = c.seq.catchUpState ∧ s'.clock = c.seq.clock ∧ s'.id = c.seq.id ∧
      s'.genesis = c.seq.genesis ∧ s'.client = c.seq.client ∧
      s'.db.lastState = c.seq.db.lastState ∧
      s'.db.checkpoint = if c.Active ∧ env.checkpointSaved = true then some s'.checkpoint
        else c.seq.db.checkpoint := by
  intro returned s'
  obtain ⟨hstate, hclock, hid, hgenesis, hclient, hlast, hcp⟩ :=
    returnPostponed_frame c.seq (c.mempoolWith .filterPostpone) env
  have hs' : s' = (finish c req env).2 := rfl
  unfold finish at hs'
  rw [hs']
  unfold Collected.Active
  by_cases hactive : 0 < c.daHeight ∨ 0 < c.forcedTxs.length
  · cases env.checkpointSaved with
    | true =>
      simp only [hactive, decide_true, Bool.not_true, Bool.false_eq_true, and_false, if_false,
        if_true, and_true]
      split_ifs <;> exact ⟨rfl, rfl, hstate, hclock, hid, hgenesis, hclient, hlast, rfl⟩
    | false =>
      simp only [hactive, decide_true, Bool.not_false, and_self, if_true, Bool.false_eq_true,
        and_false, if_false]
      exact ⟨rfl, rfl, hstate, hclock, hid, hgenesis, hclient, hlast, hcp⟩
  · simp only [hactive, decide_false, Bool.false_eq_true, false_and, if_false]
    split_ifs <;> exact ⟨rfl, rfl, hstate, hclock, hid, hgenesis, hclient, hlast, hcp⟩

theorem finish_toEpochReader :
    (finish c req env).2.toEpochReader =
      if 0 < c.daHeight ∨ 0 < c.forcedTxs.length then
        c.seq.toEpochReader.advance c.daHeight c.forced.2
      else c.seq.toEpochReader := by
  by_cases hact : 0 < c.daHeight ∨ 0 < c.forcedTxs.length
  · simp only [finish, hact, decide_true]
    split_ifs <;> simp
  · simp only [finish, hact, decide_false, Bool.false_eq_true]
    split_ifs <;> simp

end

section

variable {s : Sequencer} {req : GetNextBatchRequest} {env : CallEnv}

theorem getNextBatch_id (s : Sequencer) (req : GetNextBatchRequest) (env : CallEnv) :
    (s.getNextBatch req env).2.id = s.id := by
  have hfetch : (s.bootstrap.fetchIfNeeded req.maxBytes env).2.id = s.id := by
    rw [(fetchIfNeeded_frame s.bootstrap req.maxBytes env).2.2.1, (bootstrap_frame s).2.2.1]
  unfold getNextBatch
  by_cases hid : s.id = req.id
  · rw [if_neg (not_not.mpr hid)]
    rcases hc : s.collect req env with ⟨e | c, s'⟩
    · unfold collect at hc
      dsimp only at hc
      split at hc
      · rw [← (Prod.mk.inj hc).2, hfetch]
      · cases hc
    · rw [(finish_frame c req env).2.2.2.2.1, (collect_frame (congrArg Prod.fst hc)).2.2.2.1]
  · rw [if_pos hid]

theorem updateCatchUpState_clock (s : Sequencer) (env : CallEnv) :
    (s.catchUpState ≠ .catchUpUnchecked ∧ s.updateCatchUpState env = s) ∨
      (s.catchUpState = .catchUpUnchecked ∧
        ((s.updateCatchUpState env).catchUpState = .catchUpDone ∧
            (s.updateCatchUpState env).clock = s.clock ∨
          (s.updateCatchUpState env).catchUpState = .catchUpInProgress ∧
            (s.updateCatchUpState env).clock =
              { s.clock with currentDAEndTime := s.catchUpFloor })) := by
  by_cases hchecked : s.catchUpState = .catchUpUnchecked
  · refine .inr ⟨hchecked, ?_⟩
    unfold updateCatchUpState
    dsimp only
    rw [if_neg (not_not.mpr hchecked)]
    split_ifs
    · exact .inl ⟨rfl, rfl⟩
    split
    · exact .inl ⟨rfl, rfl⟩
    · split_ifs
      · exact .inl ⟨rfl, rfl⟩
      · exact .inl ⟨rfl, rfl⟩
      · exact .inr ⟨rfl, rfl⟩
  · exact .inl ⟨hchecked, if_pos hchecked⟩

/-- What `fetchNextDAEpoch` answers and does: an epoch is taken and sets the clock, and an answer
without an epoch ends the catching up unless the call fails. -/
theorem fetchNextDAEpoch_spec (s : Sequencer) (maxBytes : ℕ) (env : CallEnv) :
    let checked := s.updateCatchUpState env
    let p := s.toEpochReader
    let res := p.fiRetriever.retrieveForcedIncludedTxs env.retrieval p.checkpoint.daHeight
    let fetched := s.fetchNextDAEpoch maxBytes env
    (∃ event, res.1 = .ok event ∧ fetched.1 = .ok event.endDaHeight ∧
        fetched.2.toEpochReader = p.takeEpoch maxBytes event res.2 ∧
        fetched.2.catchUpState = checked.catchUpState ∧ fetched.2.clock =
          checked.clock.takeEpoch (dropOversized maxBytes event.txs) event.timestamp) ∨
      ∃ e, res.1 = .error e ∧ fetched.2.clock = checked.clock ∧
        (fetched.1 = .ok 0 ∧ fetched.2.catchUpState ≠ .catchUpInProgress ∧
            (fetched.2.toEpochReader = { p with fiRetriever := res.2 } ∨
              e = .forceInclusionNotConfigured ∧
                fetched.2.toEpochReader = { p with epochTxs := [], fiRetriever := res.2 }) ∨
          fetched.1 = .error (.retrieveFailed e) ∧ e ≠ .forceInclusionNotConfigured ∧
            (∀ h, e ≠ .heightFromFuture h) ∧
            fetched.2.catchUpState = checked.catchUpState ∧
            fetched.2.toEpochReader = { p with fiRetriever := res.2 }) := by
  intro checked p res fetched
  have hreader : checked.toEpochReader = p := updateCatchUpState_toEpochReader s env
  have hret : checked.fiRetriever.retrieveForcedIncludedTxs env.retrieval
      checked.checkpoint.daHeight = res := by
    rw [hreader]
  have hfetched : fetched = s.fetchNextDAEpoch maxBytes env := rfl
  unfold fetchNextDAEpoch at hfetched
  dsimp only at hfetched
  rw [hret] at hfetched
  rcases hres : res.1 with e | event
  · refine .inr ⟨e, rfl, ?_⟩
    rw [hres] at hfetched
    cases e with
    | forceInclusionNotConfigured =>
      rw [hfetched, ← hreader]
      exact ⟨rfl, .inl ⟨rfl, by simp, .inr ⟨rfl, rfl⟩⟩⟩
    | heightFromFuture h =>
      rw [hfetched, ← hreader]
      refine ⟨rfl, .inl ⟨rfl, ?_, .inl rfl⟩⟩
      split_ifs with hcatch
      · simp
      · exact hcatch
    | beforeStartHeight daHeight start | failedHeight h message =>
      rw [hfetched, ← hreader]
      exact ⟨rfl, .inr ⟨rfl, by simp, by simp, rfl, rfl⟩⟩
  · rw [hres] at hfetched
    rw [hfetched, ← hreader]
    exact .inl ⟨event, rfl, rfl, rfl, rfl, rfl⟩

theorem getNextBatch_of_fetch_error {e : SequencerError} (hid : s.id = req.id)
    (hfetch : (s.bootstrap.fetchIfNeeded req.maxBytes env).1 = .error e) :
    (s.getNextBatch req env).2 = (s.bootstrap.fetchIfNeeded req.maxBytes env).2 ∧
      s.forcedConsumed req env = [] := by
  simp [getNextBatch, forcedConsumed, collect, hid, hfetch]

theorem getNextBatch_of_fetch_ok {daHeight : ℕ} (hid : s.id = req.id)
    (hfetch : (s.bootstrap.fetchIfNeeded req.maxBytes env).1 = .ok daHeight) :
    (s.bootstrap.fetchIfNeeded req.maxBytes env).2.Moves daHeight
      (s.getNextBatch req env).2.toEpochReader (s.forcedConsumed req env) := by
  obtain ⟨c, hc, hheight, hforced, hseq⟩ : ∃ c : Collected,
      s.collect req env = (.ok c, c.seq) ∧ c.daHeight = daHeight ∧
        c.forcedTxs = (s.bootstrap.fetchIfNeeded req.maxBytes env).2.remaining ∧
        c.seq.toEpochReader = (s.bootstrap.fetchIfNeeded req.maxBytes env).2.toEpochReader := by
    simp only [collect, hfetch]
    exact ⟨_, rfl, rfl, rfl, takeMempool_toEpochReader _ env⟩
  refine ⟨c.forced.2, ?_, ?_, ?_⟩
  · rw [← hforced]
    exact (consumeForced_spec _ _).1
  · simp only [forcedConsumed, hid, ne_eq, not_true_eq_false, if_false, hc, hforced]
  · simp only [getNextBatch, hid, ne_eq, not_true_eq_false, if_false, hc]
    rw [finish_toEpochReader, hheight, hforced, hseq]

/-- A `GetNextBatch` call of the single sequencer makes one of the moves of
`EpochReader.Step`. -/
theorem getNextBatch_step (s : Sequencer) (req : GetNextBatchRequest) (env : CallEnv)
    (hid : s.id = req.id) :
    EpochReader.Step req.maxBytes env.retrieval s.bootstrap.toEpochReader
      (s.getNextBatch req env).2.toEpochReader (s.forcedConsumed req env) := by
  by_cases hneeds : s.bootstrap.toEpochReader.needsFetch = true
  · have hif : s.bootstrap.fetchIfNeeded req.maxBytes env =
        s.bootstrap.fetchNextDAEpoch req.maxBytes env := if_pos hneeds
    rcases fetchNextDAEpoch_spec s.bootstrap req.maxBytes env with ⟨event, hres, hend, hpos, -⟩ |
      ⟨e, hres, -, ⟨hend, -, hpos | ⟨rfl, hpos⟩⟩ | ⟨hend, -, -, -, hpos⟩⟩
    · -- an epoch arrived
      have hmoves := getNextBatch_of_fetch_ok hid (hif ▸ hend)
      rw [hif, hpos] at hmoves
      exact step_of_event hneeds hres hmoves
    · -- DA has not produced the epoch yet
      have hmoves := getNextBatch_of_fetch_ok hid (hif ▸ hend)
      rw [hif, hpos] at hmoves
      obtain ⟨hmove, hcons⟩ := hmoves.of_spent (remaining_of_needsFetch hneeds)
      rw [hmove, hcons]
      exact .notFetched _ e hneeds hres
    · have hmoves := getNextBatch_of_fetch_ok hid (hif ▸ hend)
      rw [hif, hpos] at hmoves
      obtain ⟨hmove, hcons⟩ := hmoves.of_spent rfl
      rw [hmove, hcons]
      exact .notConfigured _ hneeds hres
    · obtain ⟨hmove, hcons⟩ := getNextBatch_of_fetch_error hid (hif ▸ hend)
      rw [hmove, hcons, hif, hpos]
      exact .notFetched _ e hneeds hres
  · have hif : s.bootstrap.fetchIfNeeded req.maxBytes env =
        (.ok s.bootstrap.daHeight, s.bootstrap) := if_neg hneeds
    have hmoves := getNextBatch_of_fetch_ok hid (congrArg Prod.fst hif)
    rw [hif] at hmoves
    exact step_of_cached (by simpa using hneeds) hmoves

theorem Collected.mempoolWith_sublist (c : Collected) (status : FilterStatus) :
    (c.mempoolWith status).Sublist c.mempoolTxs := by
  have hzip : ∀ (txs : List Tx) (statuses : List FilterStatus),
      ((txs.zip statuses).map Prod.fst).Sublist txs := by
    intro txs
    induction txs with
    | nil => intro statuses; simp
    | cons tx txs ih =>
      intro statuses
      cases statuses with
      | nil => simp
      | cons status statuses => simpa using ih statuses
  exact (filter_sublist.map Prod.fst).trans (hzip _ _)

/-- A batch is the forced transactions the filter accepts, before the first it postpones, and then
transactions of the mempool. -/
theorem getNextBatch_batch (hsaved : env.checkpointSaved = true) :
    let atHand := s.forcedInHand req env
    let statuses := statusesOrAccept env.filter (atHand ++ s.mempoolTaken req env) req.maxBytes
      env.maxGas (0 < atHand.length)
    FiltersInOrder atHand statuses (s.forcedConsumed req env) (s.forcedEmitted req env) ∧
      ∃ mempool, batchOf (s.getNextBatch req env).1 = s.forcedEmitted req env ++ mempool ∧
        mempool.Sublist (s.mempoolTaken req env) := by
  unfold forcedInHand forcedConsumed forcedEmitted mempoolTaken getNextBatch
  by_cases hid : s.id ≠ req.id
  · simp only [if_pos hid]
    exact ⟨consumeForced_filters [] _, [], rfl, List.Sublist.refl _⟩
  simp only [if_neg hid]
  rcases hc : s.collect req env with ⟨e | c, s'⟩
  · exact ⟨consumeForced_filters [] _, [], rfl, List.Sublist.refl _⟩
  obtain ⟨-, -, -, -, hstatuses⟩ := collect_ok (congrArg Prod.fst hc)
  dsimp only
  rw [← hstatuses]
  refine ⟨?_, c.mempoolWith .filterOK, finish_batch c req env (by simp [hsaved]),
    c.mempoolWith_sublist .filterOK⟩
  unfold Collected.forced
  rw [consumeForced_take]
  exact consumeForced_filters _ _

end

end Sequencer

end ChainSdk

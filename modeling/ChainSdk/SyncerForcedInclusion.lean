/-
The forced-inclusion check of a syncing node, `block/internal/syncing/syncer.go`.

Before it applies a block that came from DA, a full node notes the block's transactions and size
under its DA height, and then looks at every epoch whose grace period has run out since the last
look: each forced transaction of the epoch that the execution client accepts must have been noted,
or the proposer is malicious.
-/
import ChainSdk.Blocks
import ChainSdk.ForcedInclusionRetriever
import ChainSdk.Loops
import Mathlib.Data.Finset.SDiff

namespace ChainSdk

open Function

/-! ## Grace periods -/

def baseGracePeriodEpochs : ℕ := 1

def maxGracePeriodEpochs : ℕ := 4

/-- `math.Round(fullnessThreshold * DefaultMaxBlobSize)` with a `fullnessThreshold` of 0.8. -/
def fullnessBytes : ℕ := 4194304

def gracePeriodForEpoch (daBlockBytes : ℕ → ℕ) (epochStart epochEnd : ℕ) : ℕ :=
  if epochEnd < epochStart then baseGracePeriodEpochs
  else
    let heightCount := epochEnd - epochStart + 1
    let totalBytes := ((List.range' epochStart heightCount).map daBlockBytes).sum
    let avgBytes := totalBytes / heightCount
    let extra :=
      if fullnessBytes < avgBytes then (avgBytes - fullnessBytes) / fullnessBytes else 0
    min (baseGracePeriodEpochs + extra) maxGracePeriodEpochs

/-- The last DA height at which a transaction of the epoch ending at `epochEnd` may still be
included. -/
def graceBoundary (epochSize : ℕ) (daBlockBytes : ℕ → ℕ) (epochEnd : ℕ) : ℕ :=
  epochEnd + gracePeriodForEpoch daBlockBytes (epochEnd - (epochSize - 1)) epochEnd * epochSize

/-! ## The syncer -/

/-- `Syncer`, the fields of the forced-inclusion check. -/
structure Syncer where
  genesis : Genesis
  codec : Codec
  fiRetriever : Option ForcedInclusionRetriever
  lastState : State
  /-- Hash of every transaction seen in a block from DA. -/
  seenBlockTxs : Finset Hash
  /-- The hashes noted at each DA height, for pruning. -/
  seenBlockTxsByHeight : ℕ → List Hash
  /-- The transaction bytes noted at each DA height. -/
  daBlockBytes : ℕ → ℕ
  /-- The highest epoch end verified so far. -/
  lastCheckedEpochEnd : ℕ

inductive VerifyError
  | executionInfo (e : String)
  | retrieve (epochEnd : ℕ) (e : RetrieveError)
  | filter (e : String)
  | maliciousProposer (maliciousCount : ℕ)
  deriving DecidableEq

/-- The world during one check: the execution client, and DA at each epoch asked for. -/
structure VerifyEnv where
  executionInfo : Except String ExecutionInfo
  filter : TxFilter
  retrieval : ℕ → RetrieveEnv

namespace Syncer

variable (s : Syncer)

def hashTx (tx : Tx) : Hash := s.codec.sha256 tx

def epochSize : ℕ := s.genesis.daEpochForcedInclusion

/-- The total size of a block's transactions. -/
def blockBytes (txs : List Tx) : ℕ := (txs.map List.length).sum

/-- The notes `VerifyForcedInclusionTxs` takes before it checks anything. -/
def record (daHeight : ℕ) (txs : List Tx) : Syncer :=
  let hashes := txs.map s.hashTx
  { s with
    seenBlockTxs := s.seenBlockTxs ∪ hashes.toFinset
    -- a second block at one DA height hides the first one's hashes from pruning
    seenBlockTxsByHeight := update s.seenBlockTxsByHeight daHeight hashes
    daBlockBytes := update s.daBlockBytes daHeight (blockBytes txs) }

/-- One round of the loop of `pruneUpTo`. -/
def pruneHeight (h : ℕ) : Syncer :=
  { s with
    seenBlockTxs := s.seenBlockTxs \ (s.seenBlockTxsByHeight h).toFinset
    seenBlockTxsByHeight := update s.seenBlockTxsByHeight h []
    daBlockBytes := update s.daBlockBytes h 0 }

def pruneUpTo (upTo : ℕ) : Syncer :=
  { (List.range' s.lastCheckedEpochEnd (upTo + 1 - s.lastCheckedEpochEnd)).foldl pruneHeight s
    with lastCheckedEpochEnd := upTo }

def passEpoch (epochEnd : ℕ) : Syncer :=
  if s.lastCheckedEpochEnd < epochEnd then s.pruneUpTo epochEnd else s

def startEpochEnd : ℕ :=
  let firstEpochEnd := s.genesis.daStartHeight + s.epochSize - 1
  if s.lastCheckedEpochEnd = 0 ∨ s.lastCheckedEpochEnd < firstEpochEnd then firstEpochEnd
  else s.lastCheckedEpochEnd + s.epochSize

/-- The transactions of an epoch that are looked up: those with status OK. -/
def accepted (txs : List Tx) (statuses : List FilterStatus) : List Tx :=
  ((txs.zip statuses).filter (fun p => decide (p.2 = .filterOK))).map Prod.fst

/-- The accepted transactions that have not been seen. -/
def unseen (txs : List Tx) : List Tx :=
  txs.filter (fun tx => decide (s.hashTx tx ∉ s.seenBlockTxs))

/-- The variables of the loop over epochs. -/
structure EpochScan where
  syncer : Syncer
  retriever : ForcedInclusionRetriever
  epochEnd : ℕ
  maliciousCount : ℕ
  /-- The transactions looked up so far. -/
  compared : List Tx

/-- What the loop over epochs leaves with. -/
structure ScanResult where
  verdict : Except VerifyError ℕ
  syncer : Syncer
  retriever : ForcedInclusionRetriever
  compared : List Tx

/-- The return value after the loop: any unseen transaction makes the proposer malicious. -/
def ScanResult.result (r : ScanResult) : Except VerifyError Unit :=
  match r.verdict with
  | .error e => .error e
  | .ok maliciousCount =>
    if 0 < maliciousCount then .error (.maliciousProposer maliciousCount) else .ok ()

theorem ScanResult.malicious_iff {r : ScanResult} {n : ℕ} (hverdict : r.verdict = .ok n) :
    (∃ m, r.result = .error (.maliciousProposer m)) ↔ 0 < n := by
  unfold ScanResult.result
  rw [hverdict]
  dsimp only
  by_cases hpos : 0 < n
  · rw [if_pos hpos]
    exact ⟨fun _ => hpos, fun _ => ⟨n, rfl⟩⟩
  · rw [if_neg hpos]
    exact ⟨fun hres => absurd hres (by simp), fun h => absurd h hpos⟩

def checkEpoch (env : VerifyEnv) (maxGas daHeight : ℕ) (scan : EpochScan) :
    Loops.Outcome EpochScan ScanResult :=
  let s := scan.syncer
  -- the loop stops here, whatever the boundaries of the later epochs are
  if daHeight ≤ graceBoundary s.epochSize s.daBlockBytes scan.epochEnd then
    .done ⟨.ok scan.maliciousCount, s, scan.retriever, scan.compared⟩
  else
    let retrieved :=
      scan.retriever.retrieveForcedIncludedTxs (env.retrieval scan.epochEnd) scan.epochEnd
    match retrieved.1 with
    -- no namespace: the whole check is off, whatever has been counted
    | .error .forceInclusionNotConfigured => .done ⟨.ok 0, s, retrieved.2, scan.compared⟩
    | .error e => .done ⟨.error (.retrieve scan.epochEnd e), s, retrieved.2, scan.compared⟩
    | .ok event =>
      -- an epoch without forced transactions is passed without asking the filter
      if event.txs.length = 0 then
        .next { scan with
          syncer := s.passEpoch scan.epochEnd
          retriever := retrieved.2
          epochEnd := scan.epochEnd + s.epochSize }
      else
        match env.filter.filterTxs event.txs defaultMaxBlobSize maxGas true with
        | .error e => .done ⟨.error (.filter e), s, retrieved.2, scan.compared⟩
        | .ok statuses =>
          let txs := accepted event.txs statuses
          .next
            { syncer := s.passEpoch scan.epochEnd
              retriever := retrieved.2
              epochEnd := scan.epochEnd + s.epochSize
              -- looked up before this epoch's own notes are pruned
              maliciousCount := scan.maliciousCount + (s.unseen txs).length
              compared := scan.compared ++ txs }

/-- The loop over epochs; every round moves on by an epoch, so `daHeight` rounds are
enough. -/
def scanEpochs (r : ForcedInclusionRetriever) (env : VerifyEnv) (maxGas daHeight : ℕ) :
    Option ScanResult :=
  Loops.iterate (checkEpoch env maxGas daHeight) (daHeight + 1) ⟨s, r, s.startEpochEnd, 0, []⟩

/-- What `VerifyForcedInclusionTxs` returns, does, and looks up. -/
structure Verified where
  result : Except VerifyError Unit
  syncer : Syncer
  compared : List Tx

def verifyForcedInclusionTxs (env : VerifyEnv) (daHeight : ℕ) (data : Data) : Verified :=
  match s.fiRetriever with
  | none => ⟨.ok (), s, []⟩
  | some r =>
    if s.epochSize = 0 then ⟨.ok (), s, []⟩
    else
      -- the notes are taken even where the check is skipped below
      let s := s.record daHeight data.txs
      if daHeight < s.genesis.daStartHeight ∨ daHeight < s.lastState.daHeight then
        ⟨.ok (), s, []⟩
      else
        match env.executionInfo with
        | .error e => ⟨.error (.executionInfo e), s, []⟩
        | .ok info =>
          match s.scanEpochs r env info.maxGas daHeight with
          -- not reached, by `SyncerInv.scan_exits`
          | none => ⟨.ok (), s, []⟩
          | some scanned =>
            ⟨scanned.result,
              { scanned.syncer with fiRetriever := some scanned.retriever },
              scanned.compared⟩

end Syncer

/-! ## Blocks arriving at the syncer -/

/-- `common.EventSource`, the two sources a block can have. -/
inductive EventSource
  | sourceDA
  | sourceP2P
  deriving DecidableEq

/-- A `DAHeightEvent` and how the steps of `TrySyncNextBlock` around the check turn out. -/
structure SyncEvent where
  source : EventSource
  daHeight : ℕ
  header : Header
  data : Data
  /-- Whether `ValidateBlock` accepts the block. -/
  validated : Bool
  /-- The result of `ApplyBlock`. -/
  appHash : Except String Hash
  /-- Whether the block's batch commits. -/
  committed : Bool
  env : VerifyEnv

inductive SyncError
  | invalidBlock
  | verify (e : VerifyError)
  | applyBlock (e : String)
  | commit
  deriving DecidableEq

namespace Syncer

/-- `TrySyncNextBlock` after the check: the block is applied and the DA height of the state
raised to the block's. -/
def applyEvent (s : Syncer) (ev : SyncEvent) : Except SyncError Unit × Syncer :=
  match ev.appHash with
  | .error e => (.error (.applyBlock e), s)
  | .ok appHash =>
    if !ev.committed then (.error .commit, s)
    else
      let newState := s.lastState.nextState s.codec ev.header appHash
      (.ok (), { s with lastState :=
        { newState with daHeight := max newState.daHeight ev.daHeight } })

/-- `TrySyncNextBlock`. Only blocks from DA are checked, and of the errors of the check only
that of a malicious proposer keeps a block from being applied. -/
def trySyncNextBlock (s : Syncer) (ev : SyncEvent) : Except SyncError Unit × Syncer :=
  if !ev.validated then (.error .invalidBlock, s)
  else
    match ev.source with
    | .sourceP2P => s.applyEvent ev
    | .sourceDA =>
      let verified := s.verifyForcedInclusionTxs ev.env ev.daHeight ev.data
      match verified.result with
      | .error (.maliciousProposer n) =>
        (.error (.verify (.maliciousProposer n)), verified.syncer)
      -- any other error of the check is logged and the block goes through
      | _ => verified.syncer.applyEvent ev

def step (s : Syncer) (ev : SyncEvent) : Syncer := (s.trySyncNextBlock ev).2

def Accuses (s : Syncer) (ev : SyncEvent) : Prop :=
  ∃ n, (s.trySyncNextBlock ev).1 = .error (.verify (.maliciousProposer n))

/-! ## Start -/

inductive StartError
  | initChain (e : String)
  | daHeightTooLow (daHeight daStartHeight : ℕ)
  | saveState
  | replay
  deriving DecidableEq

/-- The world during `initializeState`: the execution client, and whether the batch with the
state commits and the replay succeeds. -/
structure StartInput where
  initChain : Except String Hash
  stateSaved : Bool
  replayed : Bool

section

variable (genesis : Genesis)

def loadState (inp : StartInput) (stored : Option State) : Except StartError State :=
  match stored with
  | some state => .ok state
  | none =>
    match inp.initChain with
    | .error e => .error (.initChain e)
    | .ok stateRoot => .ok
        { State.zero with
          chainID := genesis.chainID
          initialHeight := genesis.initialHeight
          lastBlockHeight := genesis.initialHeight - 1
          lastBlockTime := genesis.startTime
          daHeight := genesis.daStartHeight
          appHash := stateRoot }

/-- The epoch `initializeState` takes to be the last one checked: the last that has ended
by the DA height of the state. -/
def initialCheckedEpochEnd (daHeight : ℕ) : ℕ :=
  let epochSize := genesis.daEpochForcedInclusion
  let firstEpochEnd := genesis.daStartHeight + epochSize - 1
  if 0 < epochSize ∧ genesis.daStartHeight ≤ daHeight ∧ firstEpochEnd ≤ daHeight then
    firstEpochEnd + (daHeight - firstEpochEnd) / epochSize * epochSize
  else 0

/-- `NewSyncer` and `Start` around a state: empty notes, a fresh retriever, and the cursor
computed from the state. -/
def ofState (codec : Codec) (client : Client) (state : State) : Syncer where
  genesis := genesis
  codec := codec
  fiRetriever := some (.new client genesis.daStartHeight genesis.daEpochForcedInclusion)
  lastState := state
  seenBlockTxs := ∅
  seenBlockTxsByHeight := fun _ => []
  daBlockBytes := fun _ => 0
  lastCheckedEpochEnd := initialCheckedEpochEnd genesis state.daHeight

def initializeState (codec : Codec) (client : Client) (inp : StartInput) (stored : Option State) :
    Except StartError Syncer :=
  match loadState genesis inp stored with
  | .error e => .error e
  | .ok state =>
    if state.daHeight ≠ 0 ∧ state.daHeight < genesis.daStartHeight then
      .error (.daHeightTooLow state.daHeight genesis.daStartHeight)
    else if !inp.stateSaved then .error .saveState
    else if !inp.replayed then .error .replay
    else .ok (ofState genesis codec client state)

end

theorem initializeState_ok {genesis : Genesis} {codec : Codec} {client : Client}
    {inp : StartInput} {stored : Option State} {s : Syncer}
    (h : initializeState genesis codec client inp stored = .ok s) :
    ∃ state, loadState genesis inp stored = .ok state ∧
      s = ofState genesis codec client state := by
  unfold initializeState at h
  rcases hload : loadState genesis inp stored with e | state
  · simp [hload] at h
  · rw [hload] at h
    dsimp only at h
    split_ifs at h
    exact ⟨state, rfl, (Except.ok.inj h).symm⟩

end Syncer

end ChainSdk

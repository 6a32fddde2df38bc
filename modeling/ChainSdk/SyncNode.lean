/-
A syncing node around the syncer: the event loop of `block/internal/syncing/syncer.go`,
`processHeightEvent` with `TrySyncNextBlock`, on the node's store, its caches and its pending
events.

Blocks come in any order, from DA or from P2P, and are not to be trusted.
-/
import ChainSdk.BlockCache
import ChainSdk.DaRetriever
import ChainSdk.Store
import ChainSdk.SyncerForcedInclusion

namespace ChainSdk

/-- A `common.DAHeightEvent`. The hints of a P2P event are the DA heights of its header and of
its data. -/
structure HeightEvent extends DAHeightEvent where
  source : EventSource
  daHeightHints : ℕ × ℕ
  deriving DecidableEq

/-- The world while one event is processed: the clock, and how the calls on the store, the DA
client and the execution client turn out. -/
structure EventEnv where
  now : Time
  /-- `store.Height` succeeds. -/
  heightRead : Bool
  /-- `store.GetBlockData` succeeds on a block that is there. -/
  blockRead : Bool
  latestDAHeight : Except String ℕ
  /-- The context is done when `TrySyncNextBlock` is called. -/
  cancelled : Bool
  verify : VerifyEnv
  /-- What `ExecuteTxs` returns in the end, for transactions, height, time and the root before. -/
  executeTxs : List Tx → ℕ → Time → Hash → Except String Hash
  /-- The block's batch commits. -/
  committed : Bool

structure SyncNode where
  syncer : Syncer
  wire : Wire
  /-- `SyncNodeSignatureBytesProvider`. -/
  provider : SignatureProvider
  store : Store
  headerCache : BlockCache
  dataCache : BlockCache
  pendingEvents : AList (fun _ : ℕ => HeightEvent)
  /-- The DA height retrieval starts at. -/
  daRetrieverHeight : ℕ
  /-- `priorityHeights` of the DA retriever. -/
  priorityHeights : List ℕ
  /-- `lastHeaderHashErrCount` has reached 1. -/
  mismatchSeen : Bool
  hasCriticalError : Bool

inductive TrySyncError
  | cancelled
  | invalid (e : BlockError)
  | maliciousProposer (maliciousCount : ℕ)
  | applyBlock (e : String)
  | commit
  deriving DecidableEq

namespace SyncNode

section

variable (n : SyncNode)

def codec : Codec := n.syncer.codec

def headerKey (header : SignedHeader) : CacheKey :=
  .hash (n.codec.headerHash header.header)

def dataKey (data : Data) : CacheKey := .hash (n.codec.daCommitment data.txs)

/-! ## DA height hints -/

/-- The hints that are worth a retrieval: those of the parts DA inclusion is not known of. -/
def daHeightHints (headerIncluded dataIncluded : Option ℕ) (hints : ℕ × ℕ) : List ℕ :=
  if hints = (0, 0) then []
  else if hints.1 = 0 then
    if dataIncluded.isSome then [] else [hints.2]
  else if hints.2 = 0 then
    if headerIncluded.isSome then [] else [hints.1]
  else
    let ofHeader := if headerIncluded.isSome then [] else [hints.1]
    let both := if dataIncluded.isSome then ofHeader else ofHeader ++ [hints.2]
    if both.length = 2 ∧ hints.1 = hints.2 then [hints.1] else both

def daHintMaxDrift : ℕ := 200

/-- The hints that are queued: none below the retriever, and none above the DA layer's own
height, which is only asked for when a hint is far ahead. -/
def acceptedHints (current : ℕ) (latestDAHeight : Except String ℕ) (hints : List ℕ) : List ℕ :=
  let needsValidation := hints.any (fun h => decide (current + daHintMaxDrift < h))
  hints.filter (fun h => decide (current ≤ h) &&
    match needsValidation, latestDAHeight with
    | true, .ok latest => decide (h ≤ latest)
    -- without an answer every hint passes
    | _, _ => true)

def queueHints (env : EventEnv) (ev : HeightEvent) : SyncNode :=
  match ev.source with
  | .sourceDA => n
  | .sourceP2P =>
    let hints := daHeightHints (n.headerCache.getDAIncludedByHeight ev.header.header.height)
      (n.dataCache.getDAIncludedByHeight ev.header.header.height) ev.daHeightHints
    let accepted := acceptedHints n.daRetrieverHeight env.latestDAHeight hints
    { n with
      priorityHeights := accepted.foldl DaRetriever.queuePriorityHeight n.priorityHeights }

/-! ## The next block -/

def removeDAIncluded (ev : HeightEvent) : SyncNode :=
  { n with
    headerCache := n.headerCache.removeDAIncluded (n.headerKey ev.header)
    dataCache := n.dataCache.removeDAIncluded (n.dataKey ev.data) }

def validateBlock (env : EventEnv) (ev : HeightEvent) : Except BlockError Unit :=
  ChainSdk.validateBlock n.wire n.codec n.provider env.now n.syncer.lastState n.mismatchSeen
    ev.data ev.header

/-- The process-wide flag after `ValidateBlock`: it is touched only if the header's own checks
pass. -/
def mismatchAfter (env : EventEnv) (ev : HeightEvent) : Bool :=
  match ev.header.validateBasicWithData n.wire n.codec n.provider env.now ev.data with
  | .error _ => n.mismatchSeen
  | .ok () => (n.syncer.lastState.assertValidSequence n.mismatchSeen ev.header.header).2

/-- The event as the forced-inclusion check and `ApplyBlock` see it, once it has been
validated. -/
def syncEvent (env : EventEnv) (ev : HeightEvent) : SyncEvent where
  source := ev.source
  daHeight := ev.daHeight
  header := ev.header.header
  data := ev.data
  validated := true
  appHash := env.executeTxs ev.data.txs ev.header.header.height
    (timeOfUint64 ev.header.header.time) n.syncer.lastState.appHash
  committed := env.committed
  env := env.verify

def saveBlock (store : Store) (ev : HeightEvent) (state : State) : Store :=
  ((store.saveBlockData ev.header ev.data ev.header.signature).setHeight
    ev.header.header.height).updateState state

/-- `SetHeaderSeen` and `SetDataSeen` for an applied block; empty data is not marked. -/
def markSeen (ev : HeightEvent) : SyncNode :=
  { n with
    headerCache := n.headerCache.setSeen (n.headerKey ev.header) ev.header.header.height
    dataCache :=
      if ev.header.header.dataHash ≠ dataHashForEmptyTxs then
        n.dataCache.setSeen (n.dataKey ev.data) ev.header.header.height
      else n.dataCache }

def trySyncNextBlock (env : EventEnv) (ev : HeightEvent) :
    Except Panic (Except TrySyncError Unit × SyncNode) :=
  if env.cancelled then .ok (.error .cancelled, n)
  else
    match n.validateBlock env ev with
    | .error (.invalidHeader .nilPubKey) => .error .nilPubKey
    | .error e =>
      .ok (.error (.invalid e), { n.removeDAIncluded ev with
        mismatchSeen := n.mismatchAfter env ev })
    | .ok () =>
      let synced := n.syncer.trySyncNextBlock (n.syncEvent env ev)
      let n := { n with mismatchSeen := n.mismatchAfter env ev, syncer := synced.2 }
      match synced.1 with
      | .ok () =>
        .ok (.ok (), { n with
          store := saveBlock n.store ev synced.2.lastState }.markSeen ev)
      | .error (.verify (.maliciousProposer count)) =>
        .ok (.error (.maliciousProposer count), n.removeDAIncluded ev)
      -- `ApplyBlock` reports that the execution client does not answer
      | .error (.applyBlock e) =>
        .ok (.error (.applyBlock e), { n with hasCriticalError := true })
      | .error _ => .ok (.error .commit, n)

def setPendingEvent (ev : HeightEvent) : SyncNode :=
  { n with pendingEvents := n.pendingEvents.insert ev.header.header.height ev }

def onSyncError (ev : HeightEvent) (e : TrySyncError) : SyncNode :=
  if n.hasCriticalError then n
  else
    match e with
    -- an invalid block is dropped
    | .invalid (.invalidHeader _) => n
    -- the node halts: the proposer is malicious, or the chain does not fit the state
    | .maliciousProposer _ | .invalid _ => { n with hasCriticalError := true }
    | .cancelled | .applyBlock _ | .commit => n.setPendingEvent ev

def fillLastDataHash (env : EventEnv) (ev : HeightEvent) : Except Panic (Option HeightEvent) :=
  if ev.source = .sourceDA ∧ ev.header.header.dataHash = dataHashForEmptyTxs ∧
      0 < n.store.height then
    match n.store.blocks n.store.height with
    | none => .ok none
    | some last =>
      if !env.blockRead then .ok none
      else
        match ev.data.metadata with
        | none => .error .nilMetadata
        | some _ => .ok (some { ev with data :=
            ev.toDAHeightEvent.filledData (some (n.codec.dataHash last.data)) })
  else .ok (some ev)

def processHeightEvent (env : EventEnv) (ev : HeightEvent) : Except Panic SyncNode :=
  let height := ev.header.header.height
  if !env.heightRead then .ok n
  else if height ≤ n.store.height ∨ n.headerCache.isSeen (n.headerKey ev.header) then .ok n
  else if height ≠ n.store.height + 1 then .ok (n.setPendingEvent ev)
  else
    let n := n.queueHints env ev
    match n.fillLastDataHash env ev with
    | .error panic => .error panic
    | .ok none => .ok n
    | .ok (some ev) =>
      match n.trySyncNextBlock env ev with
      | .error panic => .error panic
      | .ok (.ok (), n) => .ok n
      | .ok (.error e, n) => .ok (n.onSyncError ev e)

end

/-! ## Start -/

/-- What a node is started with: its configuration, the state of the process, and how the
calls of `initializeState` turn out. -/
structure StartConfig where
  genesis : Genesis
  codec : Codec
  client : Client
  wire : Wire
  provider : SignatureProvider
  /-- The DA inclusions restored into the two caches, as block height and DA height. -/
  headerSnapshot : List (ℕ × ℕ)
  dataSnapshot : List (ℕ × ℕ)
  /-- The DA heights on record for the header and the data of the last finalized block. -/
  headerTip : Option ℕ
  dataTip : Option ℕ
  mismatchSeen : Bool
  initChain : Except String Hash
  stateSaved : Bool
  latestDAHeight : Except String ℕ
  replay : ReplayEnv

/-- Where retrieval begins. With no start height set and nothing synced it is the head of DA, if DA
tells it. -/
def retrieverStart (height : ℕ) (latest : Except String ℕ) : ℕ :=
  if height = 0 then latest.toOption.getD 0 else height

def start (cfg : StartConfig) (store : Store) : Except Syncer.StartError SyncNode :=
  match Syncer.initializeState cfg.genesis cfg.codec cfg.client
      ⟨cfg.initChain, cfg.stateSaved, true⟩ store.getState with
  | .error e => .error e
  | .ok syncer =>
    let state := syncer.lastState
    let store := (store.setHeight state.lastBlockHeight).updateState state
    let headerCache :=
      (BlockCache.new.restoreFromStore cfg.headerSnapshot).seedDAHeight cfg.headerTip
    let dataCache :=
      (BlockCache.new.restoreFromStore cfg.dataSnapshot).seedDAHeight cfg.dataTip
    match syncToHeight cfg.codec cfg.genesis cfg.replay store state.lastBlockHeight with
    | (.error _, _) => .error .replay
    | (.ok (), store) => .ok
        { syncer := syncer
          wire := cfg.wire
          provider := cfg.provider
          store := store
          headerCache := headerCache
          dataCache := dataCache
          pendingEvents := ∅
          daRetrieverHeight := retrieverStart (max cfg.genesis.daStartHeight
            (max (max headerCache.daHeight dataCache.daHeight) state.daHeight)) cfg.latestDAHeight
          priorityHeights := []
          mismatchSeen := cfg.mismatchSeen
          hasCriticalError := false }

def run : SyncNode → List (EventEnv × HeightEvent) → Except Panic SyncNode
  | n, [] => .ok n
  | n, (env, ev) :: events =>
    match n.processHeightEvent env ev with
    | .error panic => .error panic
    | .ok n => run n events

end SyncNode

end ChainSdk

/-
Where a syncing node goes on after a restart: `initializeState` of
`block/internal/syncing/syncer.go` on what `RestoreFromStore` of `block/internal/cache/manager.go`
and the last state leave it.

What a process that ends takes with it are headers and data that wait for their other half, and
blocks that wait for their turn.
-/
import ChainSdk.EventPipeline
import ChainSdk.StoreHistories

namespace ChainSdk

open Except SyncNode

/-! ## Blocks on DA -/

structure BlockOnDa where
  height : ℕ
  headerDAHeight : ℕ
  /-- Empty data is never submitted. -/
  dataDAHeight : Option ℕ
  deriving DecidableEq

def BlockOnDa.HeldAt (b : BlockOnDa) (daHeight : ℕ) : Prop :=
  daHeight = b.headerDAHeight ∨ b.dataDAHeight = some daHeight

def neededDAHeights (blocks : Set BlockOnDa) (height : ℕ) : Set ℕ :=
  { daHeight | ∃ b ∈ blocks, height < b.height ∧ b.HeldAt daHeight }

/-! ## The node -/

/-- What the node keeps in its datastore. -/
structure SyncDisk where
  store : Store
  metadata : InclusionMetadata
  headerSnapshot : List (ℕ × ℕ)
  dataSnapshot : List (ℕ × ℕ)

/-- A process of the node. The events the retriever has emitted are on their way to the loop, and
any of them may come next. -/
structure SyncProcess where
  node : SyncNode
  retriever : DaRetriever
  emitted : List DAHeightEvent
  daIncludedHeight : ℕ
  loop : LoopPc

structure ResumingNode where
  /-- What every process is started with. -/
  base : StartConfig
  disk : SyncDisk
  process : Option SyncProcess

namespace SyncDisk

variable (disk : SyncDisk)

/-- The snapshots a process finds: `ClearFromStore` deletes them first. -/
def cleared (clearCache : Bool) : SyncDisk :=
  if clearCache then { disk with headerSnapshot := [], dataSnapshot := [] } else disk

def headerCache : BlockCache :=
  (BlockCache.new.restoreFromStore disk.headerSnapshot).seedDAHeight disk.metadata.headerTip

def dataCache : BlockCache :=
  (BlockCache.new.restoreFromStore disk.dataSnapshot).seedDAHeight disk.metadata.dataTip

/-- Where a process that starts on the datastore begins to read. -/
def resumeHeight (genesis : Genesis) (latest : Except String ℕ) : ℕ :=
  retrieverStart (max genesis.daStartHeight
    (max (max disk.headerCache.daHeight disk.dataCache.daHeight)
      ((disk.store.getState.map State.daHeight).getD genesis.daStartHeight))) latest

def saveToStore (p : SyncProcess) : SyncDisk :=
  { disk with
    headerSnapshot := p.node.headerCache.snapshot
    dataSnapshot := p.node.dataCache.snapshot }

/-- The configuration of a new process. -/
def startConfig (base : StartConfig) (initChain : Except String Hash) (stateSaved : Bool)
    (latest : Except String ℕ) (replay : ReplayEnv) : StartConfig :=
  { base with
    headerSnapshot := disk.headerSnapshot
    dataSnapshot := disk.dataSnapshot
    headerTip := disk.metadata.headerTip
    dataTip := disk.metadata.dataTip
    mismatchSeen := false
    initChain := initChain
    stateSaved := stateSaved
    latestDAHeight := latest
    replay := replay }

end SyncDisk

namespace SyncProcess

/-- A process that has just been started. -/
def new (node : SyncNode) (metadata : InclusionMetadata) : SyncProcess where
  node := node
  retriever := .new node.syncer.genesis node.codec node.wire
  emitted := []
  daIncludedHeight := metadata.daIncludedHeight.getD 0
  loop := .waiting

def markIncluded (n : SyncNode) (decoded : DaRetriever.Decoded) (daHeight : ℕ) : SyncNode :=
  { n with
    headerCache := decoded.headers.foldl (fun cache header =>
      cache.setDAIncluded (n.headerKey header) daHeight header.header.height) n.headerCache
    dataCache := decoded.data.foldl (fun cache data =>
      cache.setDAIncluded (n.dataKey data) daHeight (DaRetriever.dataHeight data)) n.dataCache }

variable (p : SyncProcess)

def decode (call : DaRetriever.Call) : Except Panic DaRetriever.Decoded :=
  DaRetriever.decodeBlobs call.now call.daHeight ⟨p.retriever, [], []⟩ call.blobs

/-- A DA height that is read, by the follower's turn, for a hint or from a subscription. -/
def read (call : DaRetriever.Call) : Option SyncProcess :=
  match p.decode call, p.retriever.processBlobs call with
  | .ok decoded, .ok (r, events) => some
      { p with
        node := markIncluded p.node decoded call.daHeight
        retriever := r
        emitted := p.emitted ++ events }
  | _, _ => none

def receive (env : EventEnv) (ev : HeightEvent) : Option SyncProcess :=
  match p.node.processHeightEvent env ev with
  | .error _ => none
  | .ok node => some { p with node := node }

/-- The event of a height leaves its slot, and is processed as `processPendingEvents` sends it
on. -/
def takePending (env : EventEnv) (height : ℕ) : Option SyncProcess :=
  match p.node.pendingEvents.lookup height with
  | none => some p
  | some ev =>
    receive { p with node := { p.node with
      pendingEvents := p.node.pendingEvents.erase height } } env (EventPipeline.resend ev)

def inclusion (metadata : InclusionMetadata) : InclusionNode :=
  { InclusionNode.new p.retriever p.node.store metadata none with
    headerCache := p.node.headerCache
    dataCache := p.node.dataCache
    daIncludedHeight := p.daIncludedHeight
    loop := p.loop }

def loopStep (metadata : InclusionMetadata) (inp : LoopInput) : SyncProcess × InclusionMetadata :=
  let n := (p.inclusion metadata).loopStep inp
  ({ p with
      node := { p.node with headerCache := n.headerCache, dataCache := n.dataCache }
      daIncludedHeight := n.daIncludedHeight
      loop := n.loop },
    n.metadata)

end SyncProcess

namespace ResumingNode

/-- A crash is an end of the process, and a graceful stop one after the two writes of `SaveToStore`;
events that are drained before are events like others. -/
inductive Event
  | start (clearCache : Bool) (initChain : Except String Hash) (stateSaved : Bool)
      (latest : Except String ℕ) (replay : ReplayEnv)
  | read (call : DaRetriever.Call)
  | fromDA (env : EventEnv) (ev : DAHeightEvent)
  | fromP2P (env : EventEnv) (header : SignedHeader) (data : Data) (hints : ℕ × ℕ)
  | pending (env : EventEnv) (height : ℕ)
  | loop (inp : LoopInput)
  | saveHeaders
  | saveData
  | stop

def fresh (base : StartConfig) : ResumingNode :=
  ⟨base, ⟨Store.empty, ⟨fun _ => none, fun _ => none, none, none⟩, [], []⟩, none⟩

variable (n : ResumingNode)

/-- A new process on the datastore; a start that fails leaves what it has written. -/
def start (clearCache : Bool) (initChain : Except String Hash) (stateSaved : Bool)
    (latest : Except String ℕ) (replay : ReplayEnv) : ResumingNode :=
  let disk := n.disk.cleared clearCache
  let cfg := disk.startConfig n.base initChain stateSaved latest replay
  match SyncNode.start cfg disk.store with
  | .error _ => { n with disk := { disk with store := startStore cfg disk.store } }
  | .ok node =>
    { n with
      disk := { disk with store := node.store }
      process := some (.new node disk.metadata) }

/-- What a process has become, with the store it has written. -/
def proceed (process : Option SyncProcess) : ResumingNode :=
  match process with
  | none => { n with process := none }
  | some p => { n with disk := { n.disk with store := p.node.store }, process := some p }

/-- One event. Without a process only a start means anything, and with one it means nothing. -/
def step (e : Event) : ResumingNode :=
  match n.process, e with
  | none, .start clearCache initChain stateSaved latest replay =>
    n.start clearCache initChain stateSaved latest replay
  | some p, .read call => n.proceed (p.read call)
  | some p, .fromDA env ev =>
    if ev ∈ p.emitted then n.proceed (p.receive env ⟨ev, .sourceDA, (0, 0)⟩) else n
  | some p, .fromP2P env header data hints =>
    n.proceed (p.receive env ⟨⟨header, data, 0⟩, .sourceP2P, hints⟩)
  | some p, .pending env height => n.proceed (p.takePending env height)
  | some p, .loop inp =>
    let next := p.loopStep n.disk.metadata inp
    { n with disk := { n.disk with metadata := next.2 }, process := some next.1 }
  | some p, .saveHeaders =>
    { n with disk := { n.disk with headerSnapshot := p.node.headerCache.snapshot } }
  | some p, .saveData =>
    { n with disk := { n.disk with dataSnapshot := p.node.dataCache.snapshot } }
  | some _, .stop => { n with process := none }
  | _, _ => n

end ResumingNode

/-! ## The height of a new process -/

theorem Syncer.loadState_daHeight {genesis : Genesis} {inp : StartInput} {stored : Option State}
    {state : State} (hload : loadState genesis inp stored = .ok state) :
    state.daHeight = (stored.map State.daHeight).getD genesis.daStartHeight := by
  unfold loadState at hload
  rcases stored with _ | stored
  · dsimp only at hload
    split at hload
    · simp at hload
    · rw [← ok.inj hload]
      rfl
  · rw [← ok.inj hload]
    rfl

/-- A process that has started reads on from the resume height of the datastore it was given. -/
theorem ResumingNode.start_daRetrieverHeight {n : ResumingNode} {clearCache : Bool}
    {initChain : Except String Hash} {stateSaved : Bool} {latest : Except String ℕ}
    {replay : ReplayEnv} {p : SyncProcess} (hnone : n.process = none)
    (hp : (n.start clearCache initChain stateSaved latest replay).process = some p) :
    p.node.daRetrieverHeight =
      (n.disk.cleared clearCache).resumeHeight n.base.genesis latest := by
  unfold ResumingNode.start at hp
  dsimp only at hp
  split at hp
  · exact absurd (hnone.symm.trans hp) (by simp)
  rename_i node hstart
  rw [← Option.some.inj hp]
  unfold SyncNode.start at hstart
  split at hstart
  · simp at hstart
  rename_i syncer hsyncer
  obtain ⟨state, hload, rfl⟩ := Syncer.initializeState_ok hsyncer
  dsimp only at hstart
  split at hstart
  · simp at hstart
  · rw [← ok.inj hstart]
    have hstate : state.daHeight = ((n.disk.cleared clearCache).store.getState.map
        State.daHeight).getD n.base.genesis.daStartHeight := Syncer.loadState_daHeight hload
    unfold SyncDisk.resumeHeight
    rw [← hstate]
    rfl

end ChainSdk

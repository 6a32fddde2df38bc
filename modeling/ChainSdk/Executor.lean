/-
The block producer, `block/internal/executing` (`executor.go`, `pending.go`).

One `ProduceBlock` call builds the block after the last state, or takes up the block that an earlier
call left behind, executes it, signs it, proposes it to raft and commits it.
-/
import ChainSdk.SingleSequencer
import ChainSdk.Store

namespace ChainSdk

/-! ## Executor -/

/-- The parts of the configuration and options that block production reads. -/
structure ExecutorConfig where
  genesis : Genesis
  codec : Codec
  /-- Whether the node has a raft node. -/
  raftNode : Bool
  /-- Whether the node has a signer; a based sequencer has none. -/
  signer : Bool
  maxPendingHeadersAndData : ℕ
  basedSequencer : Bool

structure LastBlockInfo where
  headerHash : Hash
  dataHash : Hash
  signature : Signature
  deriving DecidableEq

/-- `Executor`: the store, which survives the process, and the memory, which does not. -/
structure Executor where
  config : ExecutorConfig
  store : Store
  lastState : Option State
  hasPendingBlock : Bool
  lastBlockInfo : Option LastBlockInfo
  pendingCheckCounter : ℕ
  /-- The process-wide `lastHeaderHashErrCount` of `types/state.go` has been used up. -/
  hashMismatchSeen : Bool

inductive BlockAct
  /-- `savePendingBlock` committed it. -/
  | saved (header : Header) (data : Data)
  /-- Its header was signed. -/
  | signed (header : Header) (data : Data)
  /-- It was handed to raft, successfully or not. -/
  | proposed (header : Header) (data : Data)
  /-- The batch that makes it the tip of the chain committed. -/
  | committed (header : Header) (data : Data)
  deriving DecidableEq

namespace BlockAct

def header : BlockAct → Header
  | .saved h _ | .signed h _ | .proposed h _ | .committed h _ => h

def data : BlockAct → Data
  | .saved _ d | .signed _ d | .proposed _ d | .committed _ d => d

end BlockAct

/-! ## The pending block -/

inductive PendingError
  | dataMissing
  deriving DecidableEq

namespace Store

def getPendingBlock (s : Store) : Except PendingError (Option (SignedHeader × Data)) :=
  match s.pendingHeader with
  | none => .ok none
  | some header =>
    match s.pendingData with
    | none => .error .dataMissing
    | some data => .ok (some (header, data))

def savePendingBlock (s : Store) (header : SignedHeader) (data : Data) : Store :=
  { s with pendingHeader := some header, pendingData := some data }

def deletePendingBlock (s : Store) (headerDeleted dataDeleted : Bool) : Store :=
  if headerDeleted then
    if dataDeleted then { s with pendingHeader := none, pendingData := none }
    else { s with pendingHeader := none }
  else s

end Store

/-! ## What a call needs from outside -/

structure BatchData where
  batch : Batch
  time : Time
  data : List Bytes

/-- The world during one `ProduceBlock` call. -/
structure ProduceInput where
  /-- `ctx.Err() != nil` on entry. -/
  cancelled : Bool
  /-- `HasQuorum` on entry. -/
  quorumBefore : Bool
  numPendingHeaders : ℕ
  numPendingData : ℕ
  /-- The sequencer's answer; `ok none` is a response without a batch. -/
  getNextBatch : Except SequencerError (Option GetNextBatchResponse)
  getPublic : Except String PubKey
  /-- `ValidatorHasherProvider` at the proposer's address. -/
  validatorHash : Option PubKey → Except String Hash
  /-- Whether the batch of `savePendingBlock` commits. -/
  pendingSaved : Bool
  /-- `HasQuorum` before the block is applied. -/
  quorumAfter : Bool
  /-- The answer of `ExecuteTxs` at each attempt. -/
  executeTxs : ℕ → Except String Hash
  /-- Whether the executor's context is cancelled while waiting after an attempt. -/
  cancelledDuringRetry : ℕ → Bool
  /-- `GetDAHeight` of the sequencer. -/
  daHeight : ℕ
  /-- The signer's answer, including that of the signature payload provider. -/
  sign : Except String Signature
  /-- Whether the final batch can be created and filled. -/
  batchFilled : Bool
  /-- Whether raft accepts the block. -/
  broadcast : Bool
  /-- Whether the final batch commits. -/
  committed : Bool
  /-- Whether `SetFinal` succeeds. -/
  finalSet : Bool

inductive ProduceError
  | contextDone
  | noQuorum
  | pendingBlock (e : PendingError)
  | retrieveBatch (e : SequencerError)
  | lastBlockMissing
  | publicKey (e : String)
  | validatorHash (e : String)
  | savePending
  | execute (e : String)
  | retryCancelled
  | sign (e : String)
  | validate (e : SequenceError)
  | fillBatch
  | propose
  | commit
  | setFinal
  deriving DecidableEq

namespace Executor

section

variable (e : Executor)

def getLastState : State := e.lastState.getD State.zero

def newHeight : ℕ := e.getLastState.lastBlockHeight + 1

/-! ## Building a block -/

def pendingCheckInterval : ℕ := 64

/-- The limit on blocks not yet submitted to DA. -/
def pendingLimitReached (inp : ProduceInput) : Bool × Executor :=
  let limit := e.config.maxPendingHeadersAndData
  if limit = 0 then (false, e)
  else
    -- the counter moves on at every call, checked or not
    let e := { e with pendingCheckCounter := e.pendingCheckCounter + 1 }
    let shouldCheck : Bool :=
      limit ≤ pendingCheckInterval ∨ e.pendingCheckCounter % pendingCheckInterval = 0
    (shouldCheck && (decide (limit ≤ inp.numPendingHeaders) ||
      decide (limit ≤ inp.numPendingData)), e)

/-- `RetrieveBatch`; a batch without transactions is produced like any other. -/
def retrieveBatch (inp : ProduceInput) : Except SequencerError BatchData :=
  match inp.getNextBatch with
  | .error err => .error err
  | .ok none => .error .noBatch
  | .ok (some res) => .ok ⟨res.batch, res.timestamp, res.batchData⟩

def lastBlock (height : ℕ) (batchData : BatchData) : Except ProduceError (ℕ × LastBlockInfo) :=
  if e.config.genesis.initialHeight < height then
    match e.lastBlockInfo with
    -- the previous block is cached after a commit, and read back after a restart
    | some info => .ok (uint64OfTime batchData.time, info)
    | none =>
      match e.store.blocks (height - 1) with
      | none => .error .lastBlockMissing
      | some block => .ok (uint64OfTime batchData.time,
          ⟨e.config.codec.headerHash block.header.header,
            e.config.codec.dataHash block.data, block.signature⟩)
  -- the first block takes its time from genesis, not from its batch
  else .ok (uint64OfTime e.config.genesis.startTime, ⟨[], [], []⟩)

def publicKey (inp : ProduceInput) : Except ProduceError (Option PubKey) :=
  if e.config.signer then
    match inp.getPublic with
    | .error err => .error (.publicKey err)
    | .ok key => .ok (some key)
  else .ok none

def createBlock (height : ℕ) (batchData : BatchData) (inp : ProduceInput) :
    Except ProduceError (SignedHeader × Data) :=
  match e.lastBlock height batchData with
  | .error err => .error err
  | .ok (headerTime, last) =>
    match e.publicKey inp with
    | .error err => .error err
    | .ok pubKey =>
      match inp.validatorHash pubKey with
      | .error err => .error (.validatorHash err)
      | .ok validatorHash =>
        let genesis := e.config.genesis
        let txs := batchData.batch.transactions
        let header : Header :=
          { height := height
            time := headerTime
            chainID := genesis.chainID
            version := e.getLastState.version
            lastHeaderHash := last.headerHash
            dataHash := if txs.length = 0 then dataHashForEmptyTxs
              else e.config.codec.daCommitment txs
            appHash := e.getLastState.appHash
            validatorHash := validatorHash
            proposerAddress := genesis.proposerAddress
            legacy := none }
        -- until the block is signed its header carries the previous signature
        .ok (⟨header, last.signature, ⟨pubKey, genesis.proposerAddress⟩⟩,
          ⟨some ⟨genesis.chainID, height, headerTime, last.dataHash⟩, txs⟩)

/-- The block an earlier call left for `height`. -/
def pendingFor (height : ℕ) : Except PendingError (Option (SignedHeader × Data)) :=
  if e.hasPendingBlock then
    match e.store.getPendingBlock with
    | .error err => .error err
    | .ok none => .ok none
    | .ok (some block) =>
      if block.1.header.height = height then .ok (some block) else .ok none
  else .ok none

/-- The block to produce: the pending one, or a new one that is saved as pending first. -/
def obtainBlock (inp : ProduceInput) :
    Except ProduceError (Option (SignedHeader × Data)) × Executor × List BlockAct :=
  match e.pendingFor e.newHeight with
  | .error err => (.error (.pendingBlock err), e, [])
  | .ok (some block) => (.ok (some block), e, [])
  | .ok none =>
    match retrieveBatch inp with
    | .error .noBatch => (.ok none, e, [])
    | .error err => (.error (.retrieveBatch err), e, [])
    | .ok batchData =>
      match e.createBlock e.newHeight batchData inp with
      | .error err => (.error err, e, [])
      | .ok (header, data) =>
        -- saved before it is executed or signed; only a restart raises the flag for it
        if inp.pendingSaved then
          (.ok (some (header, data)),
            { e with store := e.store.savePendingBlock header data },
            [.saved header.header data])
        else (.error .savePending, e, [])

/-! ## Executing, signing and committing it -/

def maxRetriesBeforeHalt : ℕ := 5

def executeAttempts (inp : ProduceInput) : (remaining attempt : ℕ) → Except ProduceError Hash
  -- never reached: the last attempt fails for good
  | 0, _ => .ok []
  | remaining + 1, attempt =>
    match inp.executeTxs attempt with
    | .ok appHash => .ok appHash
    | .error err =>
      if attempt = maxRetriesBeforeHalt then .error (.execute err)
      else if inp.cancelledDuringRetry attempt then .error .retryCancelled
      else executeAttempts inp remaining (attempt + 1)

def executeTxsWithRetry (inp : ProduceInput) : Except ProduceError Hash :=
  executeAttempts inp maxRetriesBeforeHalt 1

def applyBlock (header : Header) (inp : ProduceInput) : Except ProduceError State :=
  match executeTxsWithRetry inp with
  | .error err => .error err
  | .ok appHash => .ok (e.getLastState.nextState e.config.codec header appHash)

def signHeader (inp : ProduceInput) : Except ProduceError Signature :=
  if e.config.signer then
    match inp.sign with
    | .error err => .error (.sign err)
    | .ok signature => .ok signature
  else .ok []

def commitBatch (store : Store) (header : SignedHeader) (data : Data) (newState : State) :
    Store :=
  ((store.saveBlockData header data header.signature).setHeight
    header.header.height).updateState newState

/-- `ProduceBlock` after the header has been validated: the batch is filled, the block
proposed to raft, the batch committed, and memory brought up to the store. -/
def commitBlock (header : SignedHeader) (data : Data) (newState : State) (inp : ProduceInput) :
    Except ProduceError Unit × Executor × List BlockAct :=
  let proposals : List BlockAct :=
    if e.config.raftNode then [.proposed header.header data] else []
  if !inp.batchFilled then (.error .fillBatch, e, [])
  -- the proposal is out even where raft refuses it or the batch does not commit
  else if e.config.raftNode && !inp.broadcast then (.error .propose, e, proposals)
  else if !inp.committed then (.error .commit, e, proposals)
  else
    let e := { e with
      store := commitBatch e.store header data newState
      hasPendingBlock := false
      lastState := some newState
      lastBlockInfo := some
        ⟨newState.lastHeaderHash, e.config.codec.dataHash data, header.signature⟩ }
    (if e.config.basedSequencer && !inp.finalSet then .error .setFinal else .ok (), e,
      proposals ++ [.committed header.header data])

def sealBlock (header : SignedHeader) (data : Data) (inp : ProduceInput) :
    Except ProduceError Unit × Executor × List BlockAct :=
  if e.config.raftNode && !inp.quorumAfter then (.error .noQuorum, e, [])
  else
    match e.applyBlock header.header inp with
    | .error err => (.error err, e, [])
    | .ok applied =>
      match e.signHeader inp with
      | .error err => (.error err, e, [])
      | .ok signature =>
        let signatures : List BlockAct :=
          if e.config.signer then [.signed header.header data] else []
        -- the signature exists from here on, also where the sequence check refuses the header
        let valid := e.getLastState.assertValidSequence e.hashMismatchSeen header.header
        let e := { e with hashMismatchSeen := valid.2 }
        match valid.1 with
        | .error err => (.error (.validate err), e, signatures)
        | .ok _ =>
          -- `newState.DAHeight` is what the sequencer has reached by now
          let rest := e.commitBlock { header with signature := signature } data
            { applied with daHeight := inp.daHeight } inp
          (rest.1, rest.2.1, signatures ++ rest.2.2)

def produceBlock (inp : ProduceInput) : Except ProduceError Unit × Executor × List BlockAct :=
  if inp.cancelled then (.error .contextDone, e, [])
  else if e.config.raftNode && !inp.quorumBefore then (.error .noQuorum, e, [])
  else
    let limited := e.pendingLimitReached inp
    if limited.1 then (.ok (), limited.2, [])
    else
      let obtained := limited.2.obtainBlock inp
      match obtained.1 with
      | .error err => (.error err, obtained.2.1, obtained.2.2)
      | .ok none => (.ok (), obtained.2.1, obtained.2.2)
      | .ok (some block) =>
        let rest := obtained.2.1.sealBlock block.1 block.2 inp
        (rest.1, rest.2.1, obtained.2.2 ++ rest.2.2)

/-! ## Start and stop -/

/-- A `RaftBlockState` as far as start-up compares it with the store. -/
structure RaftState where
  height : ℕ
  hash : Hash

/-- The world during one `initializeState`; the raft state is read three times. -/
structure StartInput where
  initChain : Except String Hash
  raftBefore : RaftState
  raftTarget : RaftState
  raftAfter : RaftState
  /-- Whether the batch with height and state commits. -/
  stateSaved : Bool
  /-- Whether the migrated pending block is saved. -/
  migrationSaved : Bool
  /-- Whether the old keys of the migrated block are deleted. -/
  migrationCleaned : Bool
  replay : ReplayEnv
  finalSet : Bool

inductive StartError
  | initChain (e : String)
  | aheadOfRaft (height raftHeight : ℕ)
  | headerMissing (height : ℕ)
  | raftMismatch (height : ℕ)
  | saveState
  | migrate
  | pendingBlockSigned
  | replay (e : ReplayError)
  | setFinal
  | stateMissing
  deriving DecidableEq

/-- The state of a chain without blocks. -/
def genesisState (genesis : Genesis) (stateRoot : Hash) : State :=
  { State.zero with
    chainID := genesis.chainID
    initialHeight := genesis.initialHeight
    lastBlockHeight := genesis.initialHeight - 1
    lastBlockTime := genesis.startTime
    appHash := stateRoot
    daHeight := genesis.daStartHeight }

/-- The stored state, or a new chain. -/
def loadState (inp : StartInput) : Except StartError State :=
  match e.store.getState with
  | some state => .ok state
  | none =>
    match inp.initChain with
    | .error err => .error (.initChain err)
    | .ok stateRoot => .ok (genesisState e.config.genesis stateRoot)

def matchesRaft (height : ℕ) (raft : RaftState) : Except StartError Unit :=
  match e.store.blocks height with
  | none => .error (.headerMissing height)
  | some block =>
    if e.config.codec.headerHash block.header.header = raft.hash then .ok ()
    else .error (.raftMismatch height)

/-- The checks against raft before anything is written. -/
def checkRaft (state : State) (raft : RaftState) : Except StartError Unit :=
  if !e.config.raftNode || raft.height = 0 then .ok ()
  else if raft.height < state.lastBlockHeight then
    .error (.aheadOfRaft state.lastBlockHeight raft.height)
  else if 0 < state.lastBlockHeight ∧ state.lastBlockHeight = raft.height then
    e.matchesRaft state.lastBlockHeight raft
  else .ok ()

/-- `migrateLegacyPendingBlock`: an unsigned block stored above the tip becomes the pending
block. -/
def migrateLegacyPendingBlock (inp : StartInput) : Except StartError Unit × Executor :=
  match e.store.blocks e.newHeight with
  | none => (.ok (), e)
  | some block =>
    if block.header.signature.length ≠ 0 then (.error .pendingBlockSigned, e)
    else if !inp.migrationSaved then (.error .migrate, e)
    else
      let store := e.store.savePendingBlock block.header block.data
      if !inp.migrationCleaned then (.error .migrate, { e with store := store })
      else
        (.ok (), { e with store := { store with
          blocks := Function.update store.blocks e.newHeight none } })

/-- The flag and the last-block cache are filled from the store. -/
def warmCaches (state : State) : Executor :=
  { e with
    hasPendingBlock := e.hasPendingBlock || e.store.pendingHeader.isSome
    lastBlockInfo :=
      if 0 < state.lastBlockHeight then
        match e.store.blocks state.lastBlockHeight with
        | none => e.lastBlockInfo
        | some block => some
            ⟨e.config.codec.headerHash block.header.header,
              e.config.codec.dataHash block.data, block.signature⟩
      else e.lastBlockInfo }

/-- The height the execution client is brought to. -/
def syncTarget (state : State) (raft : RaftState) : ℕ :=
  if e.config.raftNode && decide (state.lastBlockHeight < raft.height) then raft.height
  else state.lastBlockHeight

/-- The last check of `initializeState`, against raft after the replay. -/
def recheckRaft (raft : RaftState) : Except StartError Unit :=
  if !e.config.raftNode then .ok ()
  else
    match e.store.getState with
    | none => .error .stateMissing
    | some state =>
      if 0 < state.lastBlockHeight ∧ state.lastBlockHeight = raft.height then
        e.matchesRaft state.lastBlockHeight raft
      else .ok ()

def syncExecution (state : State) (inp : StartInput) : Except StartError Unit × Executor :=
  let target := e.syncTarget state inp.raftTarget
  let replayed := syncToHeight e.config.codec e.config.genesis inp.replay e.store target
  let e := { e with store := replayed.2 }
  match replayed.1 with
  | .error err => (.error (.replay err), e)
  | .ok _ =>
    if e.config.basedSequencer && decide (0 < target) && !inp.finalSet then
      (.error .setFinal, e)
    else (e.recheckRaft inp.raftAfter, e)

def initializeState (inp : StartInput) : Except StartError Unit × Executor :=
  match e.loadState inp with
  | .error err => (.error err, e)
  | .ok state =>
    match e.checkRaft state inp.raftBefore with
    | .error err => (.error err, e)
    | .ok _ =>
      let e := { e with lastState := some state }
      if !inp.stateSaved then (.error .saveState, e)
      else
        let e := { e with
          store := (e.store.setHeight state.lastBlockHeight).updateState state }
        let migrated := e.migrateLegacyPendingBlock inp
        match migrated.1 with
        | .error err => (.error err, migrated.2)
        | .ok _ => (migrated.2.warmCaches state).syncExecution state inp

def stop (headerDeleted dataDeleted : Bool) : Executor :=
  if e.hasPendingBlock then e
  else { e with store := e.store.deletePendingBlock headerDeleted dataDeleted }

end

def new (config : ExecutorConfig) (store : Store) : Executor :=
  ⟨config, store, none, false, none, 0, false⟩

end Executor

end ChainSdk

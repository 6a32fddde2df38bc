/-
The execution client of `apps/cosmos-exec`: `CosmosExecutor` with its store of results on disk
(`executor/executor.go`, `executor/persist.go`).

Its state is in the versions the application commits, in two logs of results, one line each, and in
a file of metadata.
-/
import ChainSdk.Types

namespace ChainSdk

/-! ## Records -/

/-- `TxEvent`, with its attributes as pairs of key and value. -/
structure TxEvent where
  type : String
  attributes : List (String × String)
  deriving DecidableEq

structure TxExecutionResult where
  hash : String
  height : ℕ
  code : ℕ
  log : String
  events : List TxEvent
  gasUsed : ℕ
  gasWanted : ℕ
  bytes : ℕ
  deriving DecidableEq

structure BlockInfo where
  height : ℕ
  time : String
  appHash : String
  numTxs : ℕ
  txHashes : List String
  deriving DecidableEq

/-- `ChainMetadata`; the state root is in hex. -/
structure ChainMetadata where
  initialized : Bool
  chainID : String
  stateRoot : String
  lastHeight : ℕ
  finalizedHeight : ℕ
  deriving DecidableEq

/-! ## Hex -/

/-- `fmt.Sprintf("%x", bz)`. -/
def hexEncode (bz : Bytes) : String :=
  String.ofList (bz.flatMap (fun b => [Nat.digitChar (b.toNat / 16), Nat.digitChar (b.toNat % 16)]))

def fromHexChar (c : Char) : Option ℕ :=
  if '0' ≤ c ∧ c ≤ '9' then some (c.toNat - '0'.toNat)
  else if 'a' ≤ c ∧ c ≤ 'f' then some (c.toNat - 'a'.toNat + 10)
  else if 'A' ≤ c ∧ c ≤ 'F' then some (c.toNat - 'A'.toNat + 10)
  else none

/-- The loop of `hexDecode`, two digits a byte; an odd number of digits is an error. -/
def hexDecodeDigits : List Char → Option Bytes
  | [] => some []
  | [_] => none
  | a :: b :: rest =>
    match fromHexChar a, fromHexChar b, hexDecodeDigits rest with
    | some high, some low, some bz => some (UInt8.ofNat (16 * high + low) :: bz)
    | _, _, _ => none

def hexDecode (s : String) : Option Bytes := hexDecodeDigits s.toList

theorem fromHexChar_digitChar {n : ℕ} (hn : n < 16) : fromHexChar (Nat.digitChar n) = some n := by
  revert n
  decide

theorem hexDecode_hexEncode (bz : Bytes) : hexDecode (hexEncode bz) = some bz := by
  unfold hexDecode hexEncode
  rw [String.toList_ofList]
  induction bz with
  | nil => rfl
  | cons b bz ih =>
    have hb := b.toNat_lt
    have hbyte : 16 * (b.toNat / 16) + b.toNat % 16 = b.toNat := by omega
    simp only [List.flatMap_cons, List.cons_append, List.nil_append, hexDecodeDigits]
    rw [fromHexChar_digitChar (by omega), fromHexChar_digitChar (by omega), ih]
    simp only [hbyte, UInt8.ofNat_toNat]

/-! ## The disk -/

/-- What is on disk: the latest version of the application's store and the three files. -/
structure ExecDisk where
  appVersion : ℕ
  txResults : List TxExecutionResult
  blocks : List BlockInfo
  metadata : Option ChainMetadata

inductive ExecWrite
  | appCommit (version : ℕ)
  | appendTxResult (result : TxExecutionResult)
  | appendBlock (block : BlockInfo)
  | saveMetadata (metadata : ChainMetadata)

namespace ExecDisk

/-- An empty directory and an application without a version. -/
def empty : ExecDisk := ⟨0, [], [], none⟩

def write (d : ExecDisk) : ExecWrite → ExecDisk
  | .appCommit version => { d with appVersion := version }
  | .appendTxResult result => { d with txResults := d.txResults ++ [result] }
  | .appendBlock block => { d with blocks := d.blocks ++ [block] }
  | .saveMetadata metadata => { d with metadata := some metadata }

def writeAll (d : ExecDisk) (writes : List ExecWrite) : ExecDisk := writes.foldl write d

end ExecDisk

/-! ## The client -/

structure CosmosExecutor where
  initialized : Bool
  chainID : String
  stateRoot : Bytes
  lastHeight : ℕ
  finalizedHeight : ℕ
  txResults : String → Option TxExecutionResult
  blocks : ℕ → Option BlockInfo

inductive ExecError
  | cancelled
  | initialHeightZero
  | chainIDRequired
  | alreadyInitialized (chainID : String)
  | initChain (e : String)
  | commit (e : String)
  | blockHeightZero
  | notInitialized
  | prevStateRootMismatch (expected got : Bytes)
  | unexpectedBlockHeight (got expected : ℕ)
  | finalizeBlock (e : String)
  | finalizeFutureBlock (height lastHeight : ℕ)
  | rollbackToFuture (height lastHeight : ℕ)
  | loadVersion (e : String)
  /-- Not an error that is returned: `LoadVersion` panics on an application that is sealed. -/
  | sealedApp
  deriving DecidableEq

/-- What a call returns, the client afterwards, and the writes in their order. -/
structure ExecOutcome (α : Type) where
  result : Except ExecError α
  exec : CosmosExecutor
  writes : List ExecWrite

/-- What `FinalizeBlock` says of one transaction. -/
structure AppTxResult where
  code : ℕ
  log : String
  events : List TxEvent
  gasUsed : ℤ
  gasWanted : ℤ

structure AppCommit where
  version : ℕ
  hash : Bytes

namespace CosmosExecutor

/-- `New` without persistence. -/
def new : CosmosExecutor := ⟨false, "", [], 0, 0, fun _ => none, fun _ => none⟩

def recordTx (results : String → Option TxExecutionResult) (result : TxExecutionResult) :
    String → Option TxExecutionResult :=
  Function.update results result.hash (some result)

/-- Under each hash the last result counts. -/
theorem foldl_recordTx (results : List TxExecutionResult)
    (known : String → Option TxExecutionResult) (hash : String) :
    results.foldl recordTx known hash =
      (results.reverse.find? (·.hash = hash)).or (known hash) := by
  induction results generalizing known with
  | nil => rfl
  | cons result results ih =>
    rw [List.foldl_cons, ih, List.reverse_cons, List.find?_append, Option.or_assoc]
    congr 1
    by_cases hhash : result.hash = hash
    · simp [recordTx, hhash]
    · simp [recordTx, hhash, Function.update_of_ne (Ne.symm hhash)]

def recordBlock (blocks : ℕ → Option BlockInfo) (block : BlockInfo) : ℕ → Option BlockInfo :=
  Function.update blocks block.height (some block)

variable (e : CosmosExecutor)

/-- What `saveMetadataLocked` writes. -/
def metadata : ChainMetadata :=
  ⟨e.initialized, e.chainID, hexEncode e.stateRoot, e.lastHeight, e.finalizedHeight⟩

/-! ## Reopening -/

/-- The metadata part of `WithPersistence`; the metadata of a chain that was never initialized is
not used. -/
def restoreMetadata (metadata : Option ChainMetadata) : Except String CosmosExecutor :=
  match metadata with
  | none => .ok new
  | some m =>
    if m.initialized then
      let e := { new with
        initialized := true
        chainID := m.chainID
        lastHeight := m.lastHeight
        finalizedHeight := m.finalizedHeight }
      if m.stateRoot ≠ "" then
        match hexDecode m.stateRoot with
        | none => .error "decode persisted state root"
        | some root => .ok { e with stateRoot := root }
      else .ok e
    else .ok new

/-- `WithPersistence` on a new client: later lines of a log count, and a block in the log raises
the last height. -/
def withPersistence (d : ExecDisk) : Except String CosmosExecutor :=
  match restoreMetadata d.metadata with
  | .error err => .error err
  | .ok e => .ok { e with
      txResults := d.txResults.foldl recordTx e.txResults
      blocks := d.blocks.foldl recordBlock e.blocks
      lastHeight := d.blocks.foldl (fun height block => max height block.height) e.lastHeight }

/-! ## Calls -/

/-- What `InitChain` sets. -/
def started (initialHeight : ℕ) (chainID : String) (stateRoot : Bytes) : CosmosExecutor :=
  { e with
    initialized := true
    chainID := chainID
    stateRoot := stateRoot
    lastHeight := initialHeight - 1 }

def initChain (initialHeight : ℕ) (chainID : String) (appHash : Except String Bytes)
    (commit : Except String AppCommit) : ExecOutcome Bytes :=
  if initialHeight = 0 then ⟨.error .initialHeightZero, e, []⟩
  else if chainID = "" then ⟨.error .chainIDRequired, e, []⟩
  else if e.initialized then
    if e.chainID ≠ chainID then ⟨.error (.alreadyInitialized e.chainID), e, []⟩
    else ⟨.ok e.stateRoot, e, []⟩
  else
    match appHash with
    | .error err => ⟨.error (.initChain err), e, []⟩
    | .ok hash =>
      if hash.length ≠ 0 then
        let e := e.started initialHeight chainID hash
        ⟨.ok hash, e, [.saveMetadata e.metadata]⟩
      else
        match commit with
        | .error err => ⟨.error (.commit err), e, []⟩
        | .ok c =>
          let e := e.started initialHeight chainID c.hash
          ⟨.ok c.hash, e, [.appCommit c.version, .saveMetadata e.metadata]⟩

/-- The results `ExecuteTxs` records, one for each transaction the application has answered for. -/
def execResults (hashTx : Tx → String) (blockHeight : ℕ) (validTxs : List Tx)
    (txResults : List AppTxResult) : List TxExecutionResult :=
  (validTxs.zip txResults).map (fun p =>
    { hash := hashTx p.1
      height := blockHeight
      code := p.2.code
      log := p.2.log
      events := p.2.events
      gasUsed := p.2.gasUsed.toNat
      gasWanted := p.2.gasWanted.toNat
      bytes := p.1.length })

/-- What `ExecuteTxs` sets. -/
def executed (results : List TxExecutionResult) (block : BlockInfo) (stateRoot : Bytes) :
    CosmosExecutor :=
  { e with
    txResults := results.foldl recordTx e.txResults
    stateRoot := stateRoot
    lastHeight := block.height
    blocks := recordBlock e.blocks block }

def executeTxs (hashTx : Tx → String) (e : CosmosExecutor) (txs : List Tx) (blockHeight : ℕ)
    (time : String) (prevStateRoot : Bytes) (finalized : Except String (List AppTxResult))
    (commit : Except String AppCommit) : ExecOutcome Bytes :=
  if blockHeight = 0 then ⟨.error .blockHeightZero, e, []⟩
  else if ¬ e.initialized then ⟨.error .notInitialized, e, []⟩
  else if e.stateRoot ≠ prevStateRoot then
    ⟨.error (.prevStateRootMismatch e.stateRoot prevStateRoot), e, []⟩
  else if blockHeight ≠ e.lastHeight + 1 then
    ⟨.error (.unexpectedBlockHeight blockHeight (e.lastHeight + 1)), e, []⟩
  else
    match finalized with
    | .error err => ⟨.error (.finalizeBlock err), e, []⟩
    | .ok txResults =>
      let results := execResults hashTx blockHeight (txs.filter (0 < ·.length)) txResults
      let appended := results.map ExecWrite.appendTxResult
      match commit with
      -- the results stay behind, in memory and in the log
      | .error err =>
        ⟨.error (.commit err), { e with txResults := results.foldl recordTx e.txResults },
          appended⟩
      | .ok c =>
        let block : BlockInfo :=
          ⟨blockHeight, time, hexEncode c.hash, txs.length, results.map (·.hash)⟩
        let e := e.executed results block c.hash
        ⟨.ok c.hash, e,
          appended ++ [.appCommit c.version, .appendBlock block, .saveMetadata e.metadata]⟩

/-- What `SetFinal` sets; the finalized height never goes back. -/
def finalized (blockHeight : ℕ) : CosmosExecutor :=
  { e with finalizedHeight := max e.finalizedHeight blockHeight }

def setFinal (blockHeight : ℕ) : ExecOutcome Unit :=
  if e.lastHeight < blockHeight then
    ⟨.error (.finalizeFutureBlock blockHeight e.lastHeight), e, []⟩
  else
    let e := e.finalized blockHeight
    ⟨.ok (), e, [.saveMetadata e.metadata]⟩

/-- `Rollback`. `New` of `app.go` has loaded the application, which seals it, so below the current
height the call ends in `LoadVersion`, with an error or in a panic, and nothing has been changed. -/
def rollback (targetHeight : ℕ) (loadVersion : Except String Unit) : ExecOutcome Unit :=
  if e.lastHeight < targetHeight then
    ⟨.error (.rollbackToFuture targetHeight e.lastHeight), e, []⟩
  else if targetHeight = e.lastHeight then ⟨.ok (), e, []⟩
  else
    match loadVersion with
    | .error err => ⟨.error (.loadVersion err), e, []⟩
    -- the version is in the store, and `BaseApp.Init` follows
    | .ok () => ⟨.error .sealedApp, e, []⟩

/-- What `PruneExec` sets: memory up to the height is dropped. -/
def pruned (height : ℕ) : CosmosExecutor :=
  { e with
    blocks := fun h => if h ≤ height then none else e.blocks h
    txResults := fun hash => (e.txResults hash).filter (fun r => height < r.height) }

def pruneExec (height : ℕ) : ExecOutcome Unit := ⟨.ok (), e.pruned height, []⟩

end CosmosExecutor

/-- A call, with what it is answered. -/
inductive ExecOp
  | initChain (initialHeight : ℕ) (chainID : String) (appHash : Except String Bytes)
      (commit : Except String AppCommit)
  | executeTxs (txs : List Tx) (blockHeight : ℕ) (time : String) (prevStateRoot : Bytes)
      (finalized : Except String (List AppTxResult)) (commit : Except String AppCommit)
  | setFinal (blockHeight : ℕ)
  | rollback (targetHeight : ℕ) (loadVersion : Except String Unit)
  | pruneExec (height : ℕ)

structure ExecCall where
  cancelled : Bool
  op : ExecOp

/-- The outcome without the value that is returned. -/
def ExecOutcome.ignore {α : Type} (out : ExecOutcome α) : ExecOutcome Unit :=
  ⟨out.result.map (fun _ => ()), out.exec, out.writes⟩

/-- A call on a client; a cancelled context ends each of them at once. -/
def CosmosExecutor.call (hashTx : Tx → String) (e : CosmosExecutor) (c : ExecCall) :
    ExecOutcome Unit :=
  if c.cancelled then ⟨.error .cancelled, e, []⟩
  else
    match c.op with
    | .initChain initialHeight chainID appHash commit =>
      (e.initChain initialHeight chainID appHash commit).ignore
    | .executeTxs txs blockHeight time prevStateRoot finalized commit =>
      (executeTxs hashTx e txs blockHeight time prevStateRoot finalized commit).ignore
    | .setFinal blockHeight => e.setFinal blockHeight
    | .rollback targetHeight loadVersion => e.rollback targetHeight loadVersion
    | .pruneExec height => e.pruneExec height

structure ExecNode where
  exec : CosmosExecutor
  disk : ExecDisk

namespace ExecNode

def new : ExecNode := ⟨CosmosExecutor.new, ExecDisk.empty⟩

variable (hashTx : Tx → String)

def step (n : ExecNode) (c : ExecCall) : ExecNode :=
  ⟨(n.exec.call hashTx c).exec, n.disk.writeAll (n.exec.call hashTx c).writes⟩

def crash (n : ExecNode) (c : ExecCall) (k : ℕ) : ExecDisk :=
  n.disk.writeAll ((n.exec.call hashTx c).writes.take k)

end ExecNode

end ChainSdk

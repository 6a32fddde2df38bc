/-
The submission ledger of an aggregator: how far the headers and the data of its chain have been
submitted to DA, under all the goroutines that move the two heights.

One goroutine at a time submits headers and one submits data (`daSubmissionLoop`, each behind a
mutex); and any number of them may be inside `NumPendingData`, which moves the height of the data
past empty blocks before it counts.
-/
import ChainSdk.DaSubmitter
import ChainSdk.PendingBase

namespace ChainSdk

/-- A submission is not running, before its next `Submit`, or in the `setLastSubmittedHeight` of its
callback. -/
inductive SubmitPc (α : Type)
  | idle
  | attempting (items : List α) (attempt : ℕ)
  | setting (pc : SetPc) (rest : List α) (attempt : ℕ)
  deriving DecidableEq

/-- Where a call of `NumPendingData` is in `advancePastEmptyData`. -/
inductive AdvancePc
  | idle
  | started (storeHeight : ℕ)
  | looping (height storeHeight : ℕ)
  | setting (pc : SetPc) (height storeHeight : ℕ)
  deriving DecidableEq

/-- What a step of a submission takes from outside. -/
structure SubmitInput (α : Type) where
  heightRead : Bool
  /-- The items of these heights can be read. -/
  readable : ℕ → Bool
  /-- The batching strategy says so. -/
  shouldSubmit : Bool
  /-- The blob of an item, signed. -/
  marshal : α → Option Blob
  /-- The context is done while the submission waits for its next attempt. -/
  cancelled : Bool
  reply : ResultSubmit
  written : Bool

/-- What a step of `NumPendingData` takes from outside. -/
structure AdvanceInput where
  heightRead : Bool
  readable : Bool
  written : Bool

/-- What the goroutines share, and where they are. -/
structure LedgerNode where
  store : Store
  /-- `config.DA.MaxSubmitAttempts`. -/
  maxAttempts : ℕ
  headers : PendingBase SignedHeader
  data : PendingBase Data
  submittingHeaders : SubmitPc SignedHeader
  submittingData : SubmitPc Data
  /-- The calls of `NumPendingData`. -/
  counting : ℕ → AdvancePc
  /-- What `Submit` calls have been acknowledged for. -/
  ackedHeaders : List SignedHeader
  ackedData : List Data

/-! ## Submissions -/

namespace SubmitPc

variable {α : Type}

def afterCallback (rest : List α) (attempt : ℕ) : SubmitPc α :=
  if rest.length = 0 then .idle else .attempting rest attempt

/-- A submission up to its first attempt: the pending items that are submitted at all, encoded and
limited to a batch. -/
def start (pb : PendingBase α) (storeHeight : ℕ) (fetch : ℕ → Except PendingListError α)
    (keep : α → Bool) (inp : SubmitInput α) : PendingBase α × SubmitPc α :=
  let fetch := fun h => if inp.readable h then fetch h else .error (.unreadable h)
  match pb.getPending (if inp.heightRead then some storeHeight else none) fetch with
  | (.error _, pb) => (pb, .idle)
  | (.ok pending, pb) =>
    if !inp.shouldSubmit then (pb, .idle)
    else
      match (pending.filter keep).mapM (fun x => (inp.marshal x).map (fun bz => (x, bz))) with
      | none => (pb, .idle)
      | some marshaled =>
        if marshaled.length = 0 then (pb, .idle)
        else
          match DaSubmitter.limitBatchBySize defaultMaxBlobSize marshaled with
          | .error _ => (pb, .idle)
          | .ok batch => (pb, .attempting (batch.map Prod.fst) 0)

def attempt (itemHeight : α → ℕ) (maxAttempts : ℕ) (items : List α) (attempt : ℕ)
    (inp : SubmitInput α) : SubmitPc α × List α :=
  if maxAttempts ≤ attempt ∨ inp.cancelled = true then (.idle, [])
  else
    let outcome := DaSubmitter.onReply items inp.reply
    match outcome.submitted.getLast? with
    | none => (afterCallback outcome.rest (attempt + 1), outcome.submitted)
    | some last =>
      (.setting (.loading (itemHeight last)) outcome.rest (attempt + 1), outcome.submitted)

end SubmitPc

/-- One step of a submission: the `pendingBase`, where it is then, and what was acknowledged. -/
def submitStep {α : Type} (itemHeight : α → ℕ) (maxAttempts storeHeight : ℕ)
    (fetch : ℕ → Except PendingListError α) (keep : α → Bool) (pb : PendingBase α)
    (inp : SubmitInput α) : SubmitPc α → PendingBase α × SubmitPc α × List α
  | .idle =>
    let started := SubmitPc.start pb storeHeight fetch keep inp
    (started.1, started.2, [])
  | .attempting items attempt =>
    let attempted := SubmitPc.attempt itemHeight maxAttempts items attempt inp
    (pb, attempted.1, attempted.2)
  | .setting pc rest attempt =>
    match pb.setStep inp.written pc with
    | (pb, some pc) => (pb, .setting pc rest attempt, [])
    | (pb, none) => (pb, .afterCallback rest attempt, [])

namespace LedgerNode

/-- The first start of the node of a chain: `initializeState` sets the height of the store to
that before the first block. -/
def fresh (initialHeight maxAttempts : ℕ) : LedgerNode where
  store := { Store.empty with height := initialHeight - 1 }
  maxAttempts := maxAttempts
  headers := .init none
  data := .init none
  submittingHeaders := .idle
  submittingData := .idle
  counting := fun _ => .idle
  ackedHeaders := []
  ackedData := []

def nonEmpty (data : Data) : Bool := decide (data.txs.length ≠ 0)

section

variable (n : LedgerNode)

def submitHeaders (inp : SubmitInput SignedHeader) : LedgerNode :=
  let next := submitStep (fun header => header.header.height) n.maxAttempts n.store.height
    (fetchSignedHeader n.store) (fun _ => true) n.headers inp n.submittingHeaders
  { n with
    headers := next.1
    submittingHeaders := next.2.1
    ackedHeaders := n.ackedHeaders ++ next.2.2 }

def submitData (inp : SubmitInput Data) : LedgerNode :=
  let next := submitStep DaRetriever.dataHeight n.maxAttempts n.store.height
    (fetchData n.store) nonEmpty n.data inp n.submittingData
  { n with
    data := next.1
    submittingData := next.2.1
    ackedData := n.ackedData ++ next.2.2 }

def countStep (inp : AdvanceInput) : AdvancePc → PendingBase Data × AdvancePc
  | .idle => (n.data, if inp.heightRead then .started n.store.height else .idle)
  | .started storeHeight => (n.data, .looping (n.data.lastHeight + 1) storeHeight)
  | .looping height storeHeight =>
    if storeHeight < height then (n.data, .idle)
    else if !inp.readable then (n.data, .idle)
    else
      match fetchData n.store height with
      | .error _ => (n.data, .idle)
      | .ok data =>
        if nonEmpty data then (n.data, .idle)
        else (n.data, .setting (.loading height) height storeHeight)
  | .setting pc height storeHeight =>
    match n.data.setStep inp.written pc with
    | (pb, some pc) => (pb, .setting pc height storeHeight)
    | (pb, none) => (pb, .looping (height + 1) storeHeight)

def numPendingData (call : ℕ) (inp : AdvanceInput) : LedgerNode :=
  let next := n.countStep inp (n.counting call)
  { n with data := next.1, counting := Function.update n.counting call next.2 }

def IsNext (header : SignedHeader) (data : Data) : Prop :=
  header.header.height = n.store.height + 1 ∧
    data.metadata.map Metadata.height = some header.header.height

end

instance (n : LedgerNode) (header : SignedHeader) (data : Data) :
    Decidable (n.IsNext header data) :=
  inferInstanceAs (Decidable (_ ∧ _))

/-- The batch of `ProduceBlock`. -/
def produce (n : LedgerNode) (header : SignedHeader) (data : Data) : LedgerNode :=
  if n.IsNext header data then
    { n with store :=
        (n.store.saveBlockData header data header.signature).setHeight header.header.height }
  else n

/-- The end of the process, wherever its goroutines are, and a new one on the datastore. -/
def restart (n : LedgerNode) : LedgerNode :=
  { n with
    headers := .init n.headers.metadata
    data := .init n.data.metadata
    submittingHeaders := .idle
    submittingData := .idle
    counting := fun _ => .idle }

inductive Event
  | produce (header : SignedHeader) (data : Data)
  | submitHeaders (inp : SubmitInput SignedHeader)
  | submitData (inp : SubmitInput Data)
  | numPendingData (call : ℕ) (inp : AdvanceInput)
  | restart

def step (n : LedgerNode) : Event → LedgerNode
  | .produce header data => n.produce header data
  | .submitHeaders inp => n.submitHeaders inp
  | .submitData inp => n.submitData inp
  | .numPendingData call inp => n.numPendingData call inp
  | .restart => n.restart

end LedgerNode

end ChainSdk

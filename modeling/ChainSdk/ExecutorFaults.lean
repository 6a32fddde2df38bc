/-
`ExecuteTxs` when the application or the disk fails: what a call that returns an error leaves
behind, and whether it can be repeated.

The call changes memory before each of its writes and takes nothing back. After the commit of the
application the same call no longer fits its state root and height.
-/
import ChainSdk.CosmosExecutor

namespace ChainSdk

open CosmosExecutor

/-- The operation of a call that fails, with its error. -/
inductive ExecFault
  | finalizeBlock (err : String)
  /-- `AppendTxResult` of the `i`-th result. -/
  | appendTxResult (i : ℕ) (err : String)
  | commit (err : String)
  | appendBlock (err : String)
  | saveMetadata (err : String)

/-- The errors of a call with a store of results. -/
inductive PersistError
  | exec (e : ExecError)
  | txResult (e : String)
  | block (e : String)
  | metadata (e : String)
  deriving DecidableEq

/-- The arguments of `ExecuteTxs`, and what the application answers when nothing fails. -/
structure ExecuteCall where
  txs : List Tx
  blockHeight : ℕ
  time : String
  prevStateRoot : Bytes
  txResults : List AppTxResult
  committed : AppCommit

namespace ExecuteCall

section

variable (hashTx : Tx → String) (call : ExecuteCall) (e : CosmosExecutor)

def answered (finalized : Except String (List AppTxResult)) (commit : Except String AppCommit) :
    ExecOutcome Bytes :=
  e.executeTxs hashTx call.txs call.blockHeight call.time call.prevStateRoot finalized commit

def undisturbed : ExecOutcome Bytes :=
  call.answered hashTx e (.ok call.txResults) (.ok call.committed)

def results : List TxExecutionResult :=
  execResults hashTx call.blockHeight (call.txs.filter (0 < ·.length)) call.txResults

def afterResults (n : ℕ) : CosmosExecutor :=
  { e with txResults := ((call.results hashTx).take n).foldl recordTx e.txResults }

def ofOutcome (out : ExecOutcome Bytes) : Except PersistError Bytes × CosmosExecutor :=
  (out.result.mapError .exec, out.exec)

variable (fault : Option ExecFault)

/-- `ExecuteTxs` of a client with a store of results, up to the first failure. -/
def execute : Except PersistError Bytes × CosmosExecutor :=
  let out := call.undisturbed hashTx e
  match fault with
  | none => ofOutcome out
  | some (.finalizeBlock err) =>
    ofOutcome (call.answered hashTx e (.error err) (.ok call.committed))
  | some (.appendTxResult i err) =>
    if out.result.isOk ∧ i < (call.results hashTx).length then
      (.error (.txResult err), call.afterResults hashTx e (i + 1))
    else ofOutcome out
  | some (.commit err) =>
    ofOutcome (call.answered hashTx e (.ok call.txResults) (.error err))
  | some (.appendBlock err) =>
    if out.result.isOk then (.error (.block err), out.exec) else ofOutcome out
  | some (.saveMetadata err) =>
    if out.result.isOk then (.error (.metadata err), out.exec) else ofOutcome out

/-- The checks before the application is asked. -/
def Passes : Prop :=
  call.blockHeight ≠ 0 ∧ e.initialized = true ∧ e.stateRoot = call.prevStateRoot ∧
    call.blockHeight = e.lastHeight + 1

/-- The client is as before, and the same call without the fault gives what it would have given
before. -/
def Recovers : Prop :=
  (call.execute hashTx e fault).2 = e ∧
    (call.execute hashTx (call.execute hashTx e fault).2 none).1 = (call.execute hashTx e none).1

/-- Of the results the last one under each hash is there. -/
def Holds (results : List TxExecutionResult) : Prop :=
  ∀ hash result, results.reverse.find? (·.hash = hash) = some result →
    e.txResults hash = some result

/-- A call that gets past its checks fails before the application has committed, and the results
it has recorded are none, or were there. -/
def Harmless : Prop :=
  call.Passes e →
    match fault with
    | some (.finalizeBlock _) => True
    | some (.appendTxResult i _) => Holds e ((call.results hashTx).take (i + 1))
    | some (.commit _) => Holds e (call.results hashTx)
    | _ => False

end

variable (hashTx : Tx → String) {call : ExecuteCall} {e : CosmosExecutor}

theorem answered_of_not_passes (hpass : ¬ call.Passes e) :
    ∃ err, ∀ finalized commit, call.answered hashTx e finalized commit = ⟨.error err, e, []⟩ := by
  unfold answered executeTxs
  by_cases hzero : call.blockHeight = 0
  · exact ⟨_, fun _ _ => if_pos hzero⟩
  by_cases hinit : e.initialized = true
  swap
  · exact ⟨_, fun _ _ => by rw [if_neg hzero, if_pos hinit]⟩
  by_cases hroot : e.stateRoot = call.prevStateRoot
  swap
  · exact ⟨_, fun _ _ => by rw [if_neg hzero, if_neg (not_not.mpr hinit), if_pos hroot]⟩
  have hheight : call.blockHeight ≠ e.lastHeight + 1 :=
    fun heq => hpass ⟨hzero, hinit, hroot, heq⟩
  exact ⟨_, fun _ _ => by
    rw [if_neg hzero, if_neg (not_not.mpr hinit), if_neg (not_not.mpr hroot), if_pos hheight]⟩

theorem answered_of_passes (hpass : call.Passes e) :
    (call.undisturbed hashTx e).result = .ok call.committed.hash ∧
      (call.undisturbed hashTx e).exec.lastHeight = e.lastHeight + 1 ∧
      (∀ err commit, (call.answered hashTx e (.error err) commit).exec = e) ∧
      ∀ err, (call.answered hashTx e (.ok call.txResults) (.error err)).exec =
        call.afterResults hashTx e (call.results hashTx).length := by
  obtain ⟨hzero, hinit, hroot, hheight⟩ := hpass
  unfold undisturbed afterResults
  rw [List.take_length]
  unfold answered executeTxs
  simp only [if_neg hzero, if_neg (not_not.mpr hinit), if_neg (not_not.mpr hroot),
    if_neg (not_not.mpr hheight)]
  exact ⟨trivial, hheight, fun _ _ => trivial, fun _ => rfl⟩

theorem afterResults_eq_iff (n : ℕ) :
    call.afterResults hashTx e n = e ↔ Holds e ((call.results hashTx).take n) := by
  unfold afterResults
  constructor
  · intro heq hash result hfound
    have hsame := congrFun (congrArg CosmosExecutor.txResults heq) hash
    dsimp only at hsame
    rw [foldl_recordTx, hfound] at hsame
    exact hsame.symm
  · intro hholds
    have hsame : ((call.results hashTx).take n).foldl recordTx e.txResults = e.txResults := by
      funext hash
      have hhash := hholds hash
      rw [foldl_recordTx]
      generalize List.find? _ _ = found at hhash ⊢
      rcases found with _ | result
      · rfl
      · exact (hhash result rfl).symm
    rw [hsame]

theorem unchanged_iff_harmless {fault : Option ExecFault} {err : PersistError}
    (herr : (call.execute hashTx e fault).1 = .error err) :
    (call.execute hashTx e fault).2 = e ↔ call.Harmless hashTx e fault := by
  by_cases hpass : call.Passes e
  swap
  · refine iff_of_true ?_ fun h => absurd h hpass
    obtain ⟨checked, hchecked⟩ := answered_of_not_passes hashTx hpass
    unfold execute undisturbed
    simp only [hchecked]
    cases fault with
    | none => rfl
    | some fault => cases fault <;> rfl
  obtain ⟨hok, hheight, hfinalize, hcommit⟩ := answered_of_passes hashTx hpass
  have hisOk : (call.undisturbed hashTx e).result.isOk = true := by
    rw [hok]
    rfl
  -- after the commit the client is a block further
  have hlater : ¬ (call.undisturbed hashTx e).exec = e := fun heq => by
    rw [heq] at hheight
    omega
  unfold Harmless
  rw [forall_prop_of_true hpass]
  cases fault with
  | none =>
    simp [execute, ofOutcome, hok, Except.mapError] at herr
  | some fault =>
    cases fault with
    | finalizeBlock err => exact iff_of_true (hfinalize _ _) trivial
    | appendTxResult i err =>
      by_cases hi : i < (call.results hashTx).length
      · simp only [execute, hisOk, hi, and_self, if_true]
        exact afterResults_eq_iff hashTx (i + 1)
      · simp [execute, hi, ofOutcome, hok, Except.mapError] at herr
    | commit err =>
      rw [← List.take_length (l := call.results hashTx), ← afterResults_eq_iff hashTx]
      exact Eq.congr_left (hcommit err)
    | appendBlock err | saveMetadata err =>
      simp only [execute, hisOk, if_true]
      exact iff_of_false hlater id

end ExecuteCall

/-- For every client and every call that returns an error: the state seen through the getters is
that before the call, and the call can be repeated, exactly if it fails at its checks or before the
commit of the application, with no new result recorded. -/
theorem execute_txs_retryable_iff (hashTx : Tx → String) (call : ExecuteCall) (e : CosmosExecutor)
    (fault : Option ExecFault) (err : PersistError)
    (herr : (call.execute hashTx e fault).1 = .error err) :
    call.Recovers hashTx e fault ↔ call.Harmless hashTx e fault := by
  rw [← ExecuteCall.unchanged_iff_harmless hashTx herr]
  refine and_iff_left_of_imp fun heq => ?_
  rw [heq]

def startedClient : CosmosExecutor := CosmosExecutor.new.started 1 "rollup" [1]

def firstBlock : ExecuteCall := ⟨[[7]], 1, "t1", [1], [⟨0, "", [], 21, 30⟩], ⟨1, [2]⟩⟩

theorem execute_txs_retryable_of_finalizeBlock :
    firstBlock.Recovers (fun _ => "07") startedClient (some (.finalizeBlock "")) :=
  (execute_txs_retryable_iff (fun _ => "07") firstBlock startedClient (some (.finalizeBlock ""))
    (.exec (.finalizeBlock "")) rfl).mpr fun _ => trivial

/-- The disk is full when the block is appended, and has room again: the same call now fails the
check of the state root. When the commit fails, the result of the transaction can be queried. -/
theorem executed_block_not_retryable :
    let run := firstBlock.execute (fun _ => "07") startedClient
    let retry := firstBlock.execute (fun _ => "07") (run (some (.appendBlock "no space"))).2 none
    (run none).1 = .ok [2] ∧ (run (some (.appendBlock "no space"))).1 = .error (.block "no space") ∧
      retry.1 = .error (.exec (.prevStateRootMismatch [2] [1])) ∧
      ((run (some (.commit "io"))).2.txResults "07").isSome ∧ startedClient.txResults "07" = none :=
  ⟨rfl, rfl, rfl, rfl, rfl⟩

end ChainSdk

/-
Crashes inside a call of the execution client: for each write of `InitChain`, `ExecuteTxs` and
`SetFinal`, whether a restart after it gives the state before or after the call, at the height the
application has committed.

`ExecuteTxs` writes to four places in turn, and only the last of its writes makes the restart safe
(and the last but one, if the block has left the state root as it was).
-/
import ChainSdk.ExecutorPersistence

namespace ChainSdk

open List Runs

open CosmosExecutor

/-- What is restored from a disk is one of two clients, at the height of the application. -/
def Survives (before after : CosmosExecutor) (d : ExecDisk) : Prop :=
  ∃ e, withPersistence d = .ok e ∧ (e = before ∨ e = after) ∧ e.lastHeight = d.appVersion

/-- After the first `k` writes of a call a restart gives the client before the call or after it. -/
def ExecNode.CrashSafe (hashTx : Tx → String) (n : ExecNode) (c : ExecCall) (k : ℕ) : Prop :=
  Survives n.exec (n.step hashTx c).exec (n.crash hashTx c k)

section Effects

variable {hashTx : Tx → String} {n : ExecNode} {op : ExecOp} {exec : CosmosExecutor}
  {writes : List ExecWrite}

/-! ## Inside a call -/

theorem survives_iff {before after e : CosmosExecutor} {d : ExecDisk}
    (he : withPersistence d = .ok e) :
    Survives before after d ↔ (e = before ∨ e = after) ∧ e.lastHeight = d.appVersion := by
  constructor
  · rintro ⟨e', he', hor, hheight⟩
    rw [he] at he'
    rw [Except.ok.inj he']
    exact ⟨hor, hheight⟩
  · rintro ⟨hor, hheight⟩
    exact ⟨e, he, hor, hheight⟩

theorem exists_recorded {results : List TxExecutionResult} (hne : results ≠ [])
    (known : String → Option TxExecutionResult) :
    ∃ x, ∃ r ∈ results, results.foldl recordTx known x = some r := by
  obtain ⟨init, r, rfl⟩ := eq_nil_or_concat results |>.resolve_left hne
  refine ⟨r.hash, r, by simp, ?_⟩
  rw [concat_eq_append, foldl_append]
  exact Function.update_self _ _ _

section Execution

variable {results : List TxExecutionResult} {block : BlockInfo} {root : Bytes}

theorem not_survives_results (hs : n.Sound) (hf : n.Faithful)
    (hblock : block.height = n.exec.lastHeight + 1) {logged : List TxExecutionResult}
    (hne : logged ≠ []) (hheights : ∀ r ∈ logged, r.height = n.exec.lastHeight + 1) :
    ¬ Survives n.exec (n.exec.executed results block root)
      { n.disk with txResults := n.disk.txResults ++ logged } := by
  rw [survives_iff (restored_appendTxs hf.1 logged)]
  rintro ⟨hbefore | hafter, -⟩
  · obtain ⟨x, r, hr, hx⟩ := exists_recorded hne n.exec.txResults
    have hsame := congrFun (congrArg txResults hbefore) x
    have hle := hs.heights x r (hsame.symm.trans hx)
    have hheight := hheights r hr
    omega
  · have hheight : n.exec.lastHeight = block.height := congrArg lastHeight hafter
    omega

theorem not_survives_commit (hf : n.Faithful) {version : ℕ}
    (hversion : version = n.exec.lastHeight + 1) (after : CosmosExecutor) :
    ¬ Survives n.exec after
      ⟨version, n.disk.txResults ++ results, n.disk.blocks, n.disk.metadata⟩ := by
  have hrestored := (restored_appCommit
    { n.disk with txResults := n.disk.txResults ++ results } version).trans
      (restored_appendTxs hf.1 results)
  rw [survives_iff hrestored]
  rintro ⟨-, hheight⟩
  change n.exec.lastHeight = version at hheight
  omega

theorem survives_block_iff (hf : n.Faithful) {version : ℕ}
    (hversion : version = n.exec.lastHeight + 1) (hblock : block.height = n.exec.lastHeight + 1) :
    Survives n.exec (n.exec.executed results block root)
        ⟨version, n.disk.txResults ++ results, n.disk.blocks ++ [block], n.disk.metadata⟩ ↔
      root = n.exec.stateRoot := by
  have hrestored := (restored_appCommit
    { n.disk with
      txResults := n.disk.txResults ++ results
      blocks := n.disk.blocks ++ [block] } version).trans
    (restored_appendBlock (restored_appendTxs hf.1 results) block)
  rw [survives_iff hrestored]
  have hmax : max n.exec.lastHeight block.height = block.height := by omega
  constructor
  · rintro ⟨hbefore | hafter, -⟩
    · have hheight : max n.exec.lastHeight block.height = n.exec.lastHeight :=
        congrArg lastHeight hbefore
      omega
    · exact (congrArg stateRoot hafter).symm
  · rintro rfl
    refine ⟨.inr ?_, ?_⟩
    · dsimp only [executed]
      rw [hmax]
    · change max n.exec.lastHeight block.height = version
      omega

end Execution

/-- Where a crash in a call does no harm, with `left` writes of the call not made. -/
def CutSafe (e : CosmosExecutor) (left : ℕ) : ExecOp → Prop
  | .initChain initialHeight chainID appHash commit =>
    left = 0 ∧ Restorable e (.initChain initialHeight chainID appHash commit)
  | .executeTxs _ _ _ _ _ commit =>
    left = 0 ∨ left = 1 ∧ ∃ c, commit = .ok c ∧ c.hash = e.stateRoot
  | .setFinal _ | .rollback .. | .pruneExec _ => True

theorem ExecEffect.survives_end (heff : ExecEffect hashTx n.exec op exec writes) (hs : n.Sound)
    (hf : n.Faithful) (happ : op.AppVersions)
    (hrestored : withPersistence (n.disk.writeAll writes) = .ok exec) :
    Survives n.exec exec (n.disk.writeAll writes) ↔ Restorable n.exec op := by
  rw [survives_iff hrestored, ← heff.faithful_iff hs hf happ]
  exact ⟨fun h => ⟨hrestored, h.2⟩, fun h => ⟨.inr rfl, h.2⟩⟩

/-- A crash in `ExecuteTxs`: it does no harm at the end, and before the metadata is saved if the
block has not changed the state root. -/
theorem survives_execute_iff {results : List TxExecutionResult} {block : BlockInfo} {c : AppCommit}
    (hs : n.Sound) (hf : n.Faithful) (hinit : n.exec.initialized = true)
    (hblock : block.height = n.exec.lastHeight + 1)
    (hresults : ∀ r ∈ results, r.height = n.exec.lastHeight + 1)
    (hversion : c.version = n.exec.lastHeight + 1) {k : ℕ} (hpos : 1 ≤ k)
    (hle : k ≤ results.length + 3) :
    Survives n.exec (n.exec.executed results block c.hash)
        (n.disk.writeAll (List.take k (results.map ExecWrite.appendTxResult ++
          [.appCommit c.version, .appendBlock block,
            .saveMetadata (n.exec.executed results block c.hash).metadata]))) ↔
      results.length + 3 - k = 0 ∨ results.length + 3 - k = 1 ∧ c.hash = n.exec.stateRoot := by
  by_cases hlog : k ≤ results.length
  · -- among the results
    rw [take_append_of_le_length (by simpa using hlog), ← map_take,
      ExecDisk.writeAll_appendTxs]
    refine iff_of_false (not_survives_results hs hf hblock ?_ ?_) (by omega)
    · intro hnil
      have hlen := congrArg List.length hnil
      rw [length_take, length_nil] at hlen
      omega
    · exact fun r hr => hresults r (mem_of_mem_take hr)
  · -- after all of them
    obtain ⟨j, rfl⟩ : ∃ j, k = (results.map ExecWrite.appendTxResult).length + j :=
      ⟨k - results.length, by rw [length_map]; omega⟩
    rw [take_length_add_append, ExecDisk.writeAll_append, ExecDisk.writeAll_appendTxs,
      length_map] at *
    have hj : j = 1 ∨ j = 2 ∨ j = 3 := by omega
    rcases hj with rfl | rfl | rfl
    · exact iff_of_false (not_survives_commit hf hversion _) (by omega)
    · have hleft : results.length + 3 - (results.length + 2) = 1 := by omega
      apply (survives_block_iff hf hversion hblock).trans
      simp [hleft]
    · apply iff_of_true _ (by omega)
      exact ⟨_, restored_executed hf hinit hblock c.version, .inr rfl, hblock.trans hversion.symm⟩

theorem ExecEffect.survives_iff_cutSafe (heff : ExecEffect hashTx n.exec op exec writes)
    (hs : n.Sound) (hf : n.Faithful) (happ : op.AppVersions) {k : ℕ} (hpos : 1 ≤ k)
    (hle : k ≤ writes.length) :
    Survives n.exec exec (n.disk.writeAll (writes.take k)) ↔
      CutSafe n.exec (writes.length - k) op := by
  have hend (hk : k = writes.length)
      (hrestored : withPersistence (n.disk.writeAll writes) = .ok exec) :
      Survives n.exec exec (n.disk.writeAll (writes.take k)) ↔ Restorable n.exec op := by
    rw [hk, take_length]
    exact heff.survives_end hs hf happ hrestored
  cases heff with
  | again hinit => exact absurd (hpos.trans hle) (by simp)
  | start hinit hpos' hhash =>
    have hk : k = 1 := Nat.le_antisymm hle hpos
    rw [hend hk (restored_started hs hinit _ _ _ _), hk]
    exact ⟨fun h => ⟨rfl, h⟩, fun h => h.2⟩
  | @startCommitted initialHeight chainID c hinit hpos' =>
    by_cases hk : k = 2
    · rw [hend hk (restored_started hs hinit _ _ _ _), hk]
      exact ⟨fun h => ⟨rfl, h⟩, fun h => h.2⟩
    -- the application has a version and the chain is not started
    have hk' : k = 1 := by
      change k ≤ 2 at hle
      omega
    have hversion : 1 ≤ c.version := happ
    obtain ⟨-, -, -, hzero⟩ := hs.fresh hinit
    have hheight := hf.2
    have hrestored := (restored_appCommit n.disk c.version).trans hf.1
    rw [hk']
    refine iff_of_false ?_ (fun hcut => absurd hcut.1 (by simp))
    intro hsurvives
    obtain ⟨-, hcommitted⟩ := (survives_iff hrestored).mp hsurvives
    change n.exec.lastHeight = c.version at hcommitted
    omega
  | @execute txs blockHeight time prevStateRoot finalized c results block hinit hheight hblock
      hresults =>
      have hversion : c.version = blockHeight := happ
      rw [hheight] at hblock hresults hversion
      simp only [length_append, length_map] at hle ⊢
      rw [survives_execute_iff hs hf hinit hblock hresults hversion hpos hle]
      simp [CutSafe]
  | final hle' =>
    have hk : k = 1 := Nat.le_antisymm hle hpos
    rw [hend hk (restored_finalized hs hf hle')]
    exact Iff.rfl
  | stay | prune => exact absurd (hpos.trans hle) (by simp)

end Effects

/-! ## Runs -/

section Runs

variable {hashTx : Tx → String}

theorem ExecNode.new_sound : ExecNode.new.Sound := by
  refine ⟨fun _ => ⟨rfl, rfl, rfl, rfl⟩, ?_⟩
  intro x r hr
  exact absurd hr (by simp [ExecNode.new, CosmosExecutor.new])

theorem ExecNode.new_faithful : ExecNode.new.Faithful := ⟨rfl, rfl⟩

/-- When a restart gives the state before or after the call a crash has interrupted.

After the calls of a run: exactly if each is restorable. And where they are, at the crash points of
a further call: exactly where the cut is safe. -/
theorem ExecNode.restarts_faithful_iff (calls : List ExecCall)
    (hanswered : ∀ p ∈ Runs.steps (step hashTx) new calls, p.1.Answered hashTx p.2) :
    ((∀ p ∈ Runs.steps (step hashTx) new calls, (p.1.step hashTx p.2).Faithful) ↔
      ∀ p ∈ Runs.steps (step hashTx) new calls, Restorable p.1.exec p.2.op) ∧
    ((∀ p ∈ Runs.steps (step hashTx) new calls, Restorable p.1.exec p.2.op) →
      ∀ c, (calls.foldl (step hashTx) new).Answered hashTx c →
        ∀ k, 1 ≤ k →
          k ≤ ((calls.foldl (step hashTx) new).exec.call hashTx c).writes.length →
          ((calls.foldl (step hashTx) new).CrashSafe hashTx c k ↔
            CutSafe (calls.foldl (step hashTx) new).exec
              (((calls.foldl (step hashTx) new).exec.call hashTx c).writes.length - k) c.op)) := by
  have heffect (n : ExecNode) (c : ExecCall) (hc : n.Answered hashTx c) :=
    call_effect hc.1
  constructor
  · apply steps_safe_iff (step hashTx) Sound Faithful (Answered hashTx)
      (fun n c => Restorable n.exec c.op)
    · exact fun n c hs hc => (heffect n c hc).sound hs
    · exact fun n c hs hc hf => (heffect n c hc).faithful_iff hs hf hc.2
    · exact new_sound
    · exact new_faithful
    · exact hanswered
  · intro hrestorable c hc k hpos hle
    have hrun : (calls.foldl (step hashTx) new).Sound ∧
        (calls.foldl (step hashTx) new).Faithful := by
      apply foldl_invariant (step hashTx) (fun n => n.Sound ∧ n.Faithful)
        (fun n c => n.Answered hashTx c ∧ Restorable n.exec c.op)
      · rintro n c ⟨hs, hf⟩ ⟨hc, hrest⟩
        exact ⟨(heffect n c hc).sound hs, ((heffect n c hc).faithful_iff hs hf hc.2).mpr hrest⟩
      · exact ⟨new_sound, new_faithful⟩
      · exact fun p hp => ⟨hanswered p hp, hrestorable p hp⟩
    exact (heffect _ c hc).survives_iff_cutSafe hrun.1 hrun.2 hc.2 hpos hle

/-! ## A chain of one block -/

def startChain : ExecCall := ⟨false, .initChain 1 "rollup" (.ok [1]) (.error "")⟩

def executeFirst : ExecCall :=
  ⟨false, .executeTxs [[7]] 1 "t1" [1] (.ok [⟨0, "", [], 0, 0⟩]) (.ok ⟨1, [2]⟩)⟩

def stepsOf (calls : List ExecCall) : List (ExecNode × ExecCall) :=
  Runs.steps (ExecNode.step (fun _ => "tx")) ExecNode.new calls

def nodeAfter (calls : List ExecCall) : ExecNode :=
  calls.foldl (ExecNode.step (fun _ => "tx")) ExecNode.new

theorem startChain_answered :
    ∀ p ∈ stepsOf [startChain, ⟨false, .setFinal 0⟩], p.1.Answered (fun _ => "tx") p.2 := by
  simp only [stepsOf, steps_cons, forall_mem_cons]
  exact ⟨⟨rfl, trivial⟩, ⟨rfl, trivial⟩, by simp⟩

/-- Starting the chain is safe, and so is the first block once its metadata is saved. -/
theorem ExecNode.start_restarts :
    (∀ p ∈ stepsOf [startChain, ⟨false, .setFinal 0⟩],
        (p.1.step (fun _ => "tx") p.2).Faithful) ∧
      (nodeAfter [startChain, ⟨false, .setFinal 0⟩]).CrashSafe (fun _ => "tx") executeFirst 4 := by
  obtain ⟨hends, hcut⟩ := ExecNode.restarts_faithful_iff _ startChain_answered
  have hrestorable : ∀ p ∈ stepsOf [startChain, ⟨false, .setFinal 0⟩],
      Restorable p.1.exec p.2.op := by
    simp only [stepsOf, steps_cons, forall_mem_cons]
    exact ⟨.inr (.inl ⟨[1], rfl, by decide, rfl⟩), trivial, by simp⟩
  refine ⟨hends.mpr hrestorable, ?_⟩
  apply (hcut hrestorable executeFirst ⟨rfl, rfl⟩ 4 (by decide) (by decide)).mpr
  exact .inl (by decide)

/-- A crash after the commit of the first block restores height zero under an application at
height one. A pruned block comes back. -/
theorem ExecNode.restarts_unfaithful :
    (∀ p ∈ stepsOf [startChain, executeFirst, ⟨false, .pruneExec 1⟩, ⟨false, .setFinal 1⟩],
        p.1.Answered (fun _ => "tx") p.2) ∧
      ¬ (nodeAfter [startChain]).CrashSafe (fun _ => "tx") executeFirst 2 ∧
      ¬ (nodeAfter [startChain, executeFirst, ⟨false, .pruneExec 1⟩]).CrashSafe (fun _ => "tx")
        ⟨false, .setFinal 1⟩ 1 := by
  refine ⟨?_, ?_, ?_⟩
  · simp only [stepsOf, steps_cons, forall_mem_cons]
    exact ⟨⟨rfl, trivial⟩, ⟨rfl, rfl⟩, ⟨rfl, trivial⟩, ⟨rfl, trivial⟩, by simp⟩
  · rintro ⟨e, he, -, hheight⟩
    rw [← Except.ok.inj he] at hheight
    exact absurd hheight (by decide)
  · rintro ⟨e, he, hor, -⟩
    have hlogged := congrFun (replays_of_restored he).blocks 1
    have hpruned : e.blocks 1 = none := by
      rcases hor with hbefore | hafter
      · rw [hbefore]
        rfl
      · rw [hafter]
        rfl
    rw [hpruned] at hlogged
    exact absurd (congrArg Option.isSome hlogged) (by decide)

end Runs

end ChainSdk

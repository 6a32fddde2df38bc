/-
What a restart of the execution client finds: whether `WithPersistence` gives back the state of
`CosmosExecutor` before or after the call a crash has interrupted, at the height the application has
committed.

Between calls it does, as long as memory and logs grow together.
-/
import ChainSdk.CosmosExecutor
import ChainSdk.Runs

namespace ChainSdk

open CosmosExecutor Except List Option

/-! ## What is restored -/

namespace CosmosExecutor

variable {d : ExecDisk} {e : CosmosExecutor}

section

variable {blocks : List BlockInfo} {height bound : ℕ}

theorem restoreMetadata_metadata (e : CosmosExecutor) (hinit : e.initialized = true) :
    restoreMetadata (some e.metadata) =
      .ok { e with txResults := fun _ => none, blocks := fun _ => none } := by
  unfold restoreMetadata metadata
  dsimp only
  rw [hexDecode_hexEncode]
  split_ifs with hroot
  · simp [new, hinit]
  -- an empty root is written as an empty string
  have hempty : some e.stateRoot = some [] := by
    rw [← hexDecode_hexEncode e.stateRoot, not_not.mp hroot]
    rfl
  simp [new, hinit, some.inj hempty]

theorem le_foldl_max (blocks : List BlockInfo) (height : ℕ) :
    height ≤ blocks.foldl (fun height block => max height block.height) height ∧
      ∀ b ∈ blocks, b.height ≤
        blocks.foldl (fun height block => max height block.height) height := by
  induction blocks generalizing height with
  | nil => simp
  | cons b blocks ih =>
    obtain ⟨hstart, hrest⟩ := ih (max height b.height)
    rw [foldl_cons]
    refine ⟨by omega, ?_⟩
    intro b' hb'
    rcases mem_cons.mp hb' with rfl | hlater
    · omega
    · exact hrest b' hlater

theorem foldl_max_le (hheight : height ≤ bound) (hle : ∀ b ∈ blocks, b.height ≤ bound) :
    blocks.foldl (fun height block => max height block.height) height ≤ bound := by
  induction blocks generalizing height with
  | nil => exact hheight
  | cons b blocks ih =>
    apply ih (max_le hheight (hle b mem_cons_self))
    exact fun b' hb' => hle b' (mem_cons_of_mem b hb')

theorem foldl_max_eq_of_le (hle : ∀ b ∈ blocks, b.height ≤ height) :
    blocks.foldl (fun height block => max height block.height) height = height :=
  Nat.le_antisymm (foldl_max_le (Nat.le_refl height) hle) (le_foldl_max blocks height).1

end

structure Replays (d : ExecDisk) (e : CosmosExecutor) : Prop where
  txResults : d.txResults.foldl recordTx (fun _ => none) = e.txResults
  blocks : d.blocks.foldl recordBlock (fun _ => none) = e.blocks
  height : ∀ b ∈ d.blocks, b.height ≤ e.lastHeight

theorem restoreMetadata_maps {metadata : Option ChainMetadata}
    (he : restoreMetadata metadata = .ok e) :
    e.txResults = (fun _ => none) ∧ e.blocks = (fun _ => none) := by
  unfold restoreMetadata at he
  split at he
  · rw [← ok.inj he]
    exact ⟨rfl, rfl⟩
  split_ifs at he
  · split at he
    · simp at he
    · rw [← ok.inj he]
      exact ⟨rfl, rfl⟩
  · rw [← ok.inj he]
    exact ⟨rfl, rfl⟩
  · rw [← ok.inj he]
    exact ⟨rfl, rfl⟩

theorem replays_of_restored (he : withPersistence d = .ok e) : Replays d e := by
  unfold withPersistence at he
  split at he
  · simp at he
  · rename_i e₀ hmeta
    obtain ⟨htxs, hblocks⟩ := restoreMetadata_maps hmeta
    rw [← ok.inj he, htxs, hblocks]
    exact ⟨rfl, rfl, (le_foldl_max d.blocks e₀.lastHeight).2⟩

theorem restored_of_metadata (e : CosmosExecutor) (hinit : e.initialized = true)
    (hmeta : d.metadata = some e.metadata) :
    withPersistence d = .ok { e with
      txResults := d.txResults.foldl recordTx (fun _ => none)
      blocks := d.blocks.foldl recordBlock (fun _ => none)
      lastHeight :=
        d.blocks.foldl (fun height block => max height block.height) e.lastHeight } := by
  unfold withPersistence
  rw [hmeta, restoreMetadata_metadata e hinit]

theorem restored_of_saved (hinit : e.initialized = true) (hmeta : d.metadata = some e.metadata)
    (hlogs : Replays d e) : withPersistence d = .ok e := by
  rw [restored_of_metadata e hinit hmeta, hlogs.txResults, hlogs.blocks,
    foldl_max_eq_of_le hlogs.height]

theorem restored_appendTxs (he : withPersistence d = .ok e) (results : List TxExecutionResult) :
    withPersistence { d with txResults := d.txResults ++ results } =
      .ok { e with txResults := results.foldl recordTx e.txResults } := by
  unfold withPersistence at he ⊢
  split at he
  · simp at he
  rename_i e₀ hmeta
  rw [← ok.inj he]
  rw [hmeta]
  dsimp only
  rw [foldl_append]

theorem restored_appendBlock (he : withPersistence d = .ok e) (block : BlockInfo) :
    withPersistence { d with blocks := d.blocks ++ [block] } =
      .ok { e with
        blocks := recordBlock e.blocks block
        lastHeight := max e.lastHeight block.height } := by
  unfold withPersistence at he ⊢
  split at he
  · simp at he
  rename_i e₀ hmeta
  rw [← ok.inj he]
  rw [hmeta]
  dsimp only
  rw [foldl_append, foldl_append]
  rfl

theorem restored_appCommit (d : ExecDisk) (version : ℕ) :
    withPersistence { d with appVersion := version } = withPersistence d := rfl

end CosmosExecutor

/-! ## What a call does -/

/-- The calls that return nil: the client afterwards and the writes. -/
inductive ExecEffect (hashTx : Tx → String) (e : CosmosExecutor) :
    ExecOp → CosmosExecutor → List ExecWrite → Prop
  | again {initialHeight : ℕ} {chainID : String} {appHash : Except String Bytes}
      {commit : Except String AppCommit} (hinit : e.initialized = true) :
      ExecEffect hashTx e (.initChain initialHeight chainID appHash commit) e []
  | start {initialHeight : ℕ} {chainID : String} {hash : Bytes}
      {commit : Except String AppCommit} (hinit : e.initialized = false)
      (hpos : initialHeight ≠ 0) (hhash : hash ≠ []) :
      ExecEffect hashTx e (.initChain initialHeight chainID (.ok hash) commit)
        (e.started initialHeight chainID hash)
        [.saveMetadata (e.started initialHeight chainID hash).metadata]
  | startCommitted {initialHeight : ℕ} {chainID : String} {c : AppCommit}
      (hinit : e.initialized = false) (hpos : initialHeight ≠ 0) :
      ExecEffect hashTx e (.initChain initialHeight chainID (.ok []) (.ok c))
        (e.started initialHeight chainID c.hash)
        [.appCommit c.version, .saveMetadata (e.started initialHeight chainID c.hash).metadata]
  | execute {txs : List Tx} {blockHeight : ℕ} {time : String} {prevStateRoot : Bytes}
      {finalized : Except String (List AppTxResult)} {c : AppCommit}
      {results : List TxExecutionResult} {block : BlockInfo} (hinit : e.initialized = true)
      (hheight : blockHeight = e.lastHeight + 1) (hblock : block.height = blockHeight)
      (hresults : ∀ r ∈ results, r.height = blockHeight) :
      ExecEffect hashTx e (.executeTxs txs blockHeight time prevStateRoot finalized (.ok c))
        (e.executed results block c.hash)
        (results.map ExecWrite.appendTxResult ++ [.appCommit c.version, .appendBlock block,
          .saveMetadata (e.executed results block c.hash).metadata])
  | final {blockHeight : ℕ} (hle : blockHeight ≤ e.lastHeight) :
      ExecEffect hashTx e (.setFinal blockHeight) (e.finalized blockHeight)
        [.saveMetadata (e.finalized blockHeight).metadata]
  | stay {loadVersion : Except String Unit} :
      ExecEffect hashTx e (.rollback e.lastHeight loadVersion) e []
  | prune {height : ℕ} : ExecEffect hashTx e (.pruneExec height) (e.pruned height) []

namespace CosmosExecutor

variable {hashTx : Tx → String} {e : CosmosExecutor}

section

variable {blockHeight : ℕ} {α : Type} {commit : Except String AppCommit} {root : Bytes}

theorem height_of_mem_execResults {validTxs : List Tx} {txResults : List AppTxResult} :
    ∀ r ∈ execResults hashTx blockHeight validTxs txResults, r.height = blockHeight := by
  intro r hr
  obtain ⟨p, -, rfl⟩ := mem_map.mp hr
  rfl

theorem check_passed {check : Prop} [Decidable check] {failed rest : ExecOutcome α}
    {err : ExecError} {a : α} (hfailed : failed.result = .error err)
    (hok : (if check then failed else rest).result = .ok a) : ¬ check := by
  intro hcheck
  simp [if_pos hcheck, hfailed] at hok

theorem initChain_effect {initialHeight : ℕ} {chainID : String} {appHash : Except String Bytes}
    (hok : (e.initChain initialHeight chainID appHash commit).result = .ok root) :
    ExecEffect hashTx e (.initChain initialHeight chainID appHash commit)
      (e.initChain initialHeight chainID appHash commit).exec
      (e.initChain initialHeight chainID appHash commit).writes := by
  unfold initChain at hok ⊢
  have hpos := check_passed rfl hok
  rw [if_neg hpos] at hok ⊢
  have hid := check_passed rfl hok
  rw [if_neg hid] at hok ⊢
  by_cases hinit : e.initialized = true
  · rw [if_pos hinit] at hok ⊢
    rw [if_neg (check_passed rfl hok)]
    exact .again hinit
  rw [if_neg hinit] at hok ⊢
  rcases appHash with err | hash
  · simp at hok
  dsimp only at hok ⊢
  by_cases hhash : hash.length ≠ 0
  · rw [if_pos hhash]
    apply ExecEffect.start (Bool.not_eq_true _ ▸ hinit) hpos
    rintro rfl
    exact hhash rfl
  rw [if_neg hhash] at hok ⊢
  rw [length_eq_zero_iff.mp (not_not.mp hhash)]
  rcases commit with err | c
  · simp at hok
  · exact .startCommitted (Bool.not_eq_true _ ▸ hinit) hpos

theorem executeTxs_effect {txs : List Tx} {time : String}
    {prevStateRoot : Bytes} {finalized : Except String (List AppTxResult)}
    (hok : (executeTxs hashTx e txs blockHeight time prevStateRoot finalized commit).result =
      .ok root) :
    ExecEffect hashTx e (.executeTxs txs blockHeight time prevStateRoot finalized commit)
      (executeTxs hashTx e txs blockHeight time prevStateRoot finalized commit).exec
      (executeTxs hashTx e txs blockHeight time prevStateRoot finalized commit).writes := by
  unfold executeTxs at hok ⊢
  have hpos := check_passed rfl hok
  rw [if_neg hpos] at hok ⊢
  have hinit := check_passed rfl hok
  rw [if_neg hinit] at hok ⊢
  have hroot := check_passed rfl hok
  rw [if_neg hroot] at hok ⊢
  have hheight := check_passed rfl hok
  rw [if_neg hheight] at hok ⊢
  rcases finalized with err | txResults
  · simp at hok
  rcases commit with err | c
  · simp at hok
  · exact .execute (not_not.mp hinit) (not_not.mp hheight) rfl height_of_mem_execResults

theorem setFinal_effect (hok : (e.setFinal blockHeight).result = .ok ()) :
    ExecEffect hashTx e (.setFinal blockHeight) (e.setFinal blockHeight).exec
      (e.setFinal blockHeight).writes := by
  unfold setFinal at hok ⊢
  have hfuture := check_passed rfl hok
  rw [if_neg hfuture]
  exact .final (Nat.le_of_not_lt hfuture)

theorem rollback_effect {targetHeight : ℕ} {loadVersion : Except String Unit}
    (hok : (e.rollback targetHeight loadVersion).result = .ok ()) :
    ExecEffect hashTx e (.rollback targetHeight loadVersion)
      (e.rollback targetHeight loadVersion).exec (e.rollback targetHeight loadVersion).writes := by
  unfold rollback at hok ⊢
  have hfuture := check_passed rfl hok
  rw [if_neg hfuture] at hok ⊢
  by_cases hthere : targetHeight = e.lastHeight
  · rw [if_pos hthere, hthere]
    exact .stay
  -- below the current height there is no answer without an error
  rw [if_neg hthere] at hok
  rcases loadVersion with err | ⟨⟩
  · simp at hok
  · simp at hok

theorem ignore_ok {out : ExecOutcome α} (hok : out.ignore.result = .ok ()) :
    ∃ a, out.result = .ok a := by
  rcases hout : out.result with err | a
  · rw [ExecOutcome.ignore, hout] at hok
    exact absurd hok (by simp [Except.map])
  · exact ⟨a, rfl⟩

end

theorem call_effect {c : ExecCall} (hok : (e.call hashTx c).result = .ok ()) :
    ExecEffect hashTx e c.op (e.call hashTx c).exec (e.call hashTx c).writes := by
  obtain ⟨cancelled, op⟩ := c
  cases cancelled with
  | true => exact absurd hok (by simp [call])
  | false =>
    cases op with
    | initChain initialHeight chainID appHash commit =>
      obtain ⟨root, hroot⟩ := ignore_ok hok
      exact initChain_effect hroot
    | executeTxs txs blockHeight time prevStateRoot finalized commit =>
      obtain ⟨root, hroot⟩ := ignore_ok hok
      exact executeTxs_effect hroot
    | setFinal blockHeight => exact setFinal_effect hok
    | rollback targetHeight loadVersion => exact rollback_effect hok
    | pruneExec height => exact .prune

end CosmosExecutor

/-! ## Restarts -/

namespace ExecNode

/-- A restart gives the client back, at the height of the application. -/
def Faithful (n : ExecNode) : Prop :=
  withPersistence n.disk = .ok n.exec ∧ n.exec.lastHeight = n.disk.appVersion

/-- A client that is not initialized is new, and results belong to executed blocks. -/
structure Sound (n : ExecNode) : Prop where
  fresh : n.exec.initialized = false → n.exec = CosmosExecutor.new ∧ n.disk.txResults = [] ∧
    n.disk.blocks = [] ∧ n.disk.appVersion = 0
  heights : ∀ x r, n.exec.txResults x = some r → r.height ≤ n.exec.lastHeight

end ExecNode

/-- What is taken from the application: a commit makes a version, and in `ExecuteTxs` the one with
the height of the block. -/
def ExecOp.AppVersions : ExecOp → Prop
  | .initChain _ _ (.ok []) (.ok c) => 1 ≤ c.version
  | .executeTxs _ blockHeight _ _ _ (.ok c) => c.version = blockHeight
  | _ => True

/-- The call returns nil, and the application commits as said. -/
def ExecNode.Answered (hashTx : Tx → String) (n : ExecNode) (c : ExecCall) : Prop :=
  (n.exec.call hashTx c).result = .ok () ∧ c.op.AppVersions

/-- A call after which memory and disk agree: `InitChain` one version before the first block, and
`PruneExec` with nothing to prune. A `Rollback` that returns nil has done nothing. -/
def Restorable (e : CosmosExecutor) : ExecOp → Prop
  | .initChain initialHeight _ appHash commit => e.initialized = true ∨
      (∃ hash, appHash = .ok hash ∧ hash ≠ [] ∧ initialHeight = 1) ∨
      ∃ c, appHash = .ok [] ∧ commit = .ok c ∧ initialHeight = c.version + 1
  | .executeTxs .. | .setFinal _ | .rollback .. => True
  | .pruneExec height => (∀ h ≤ height, e.blocks h = none) ∧
      ∀ x r, e.txResults x = some r → height < r.height

namespace ExecDisk

theorem writeAll_append (d : ExecDisk) (ws vs : List ExecWrite) :
    d.writeAll (ws ++ vs) = (d.writeAll ws).writeAll vs := foldl_append

theorem writeAll_appendTxs (d : ExecDisk) (results : List TxExecutionResult) :
    d.writeAll (results.map ExecWrite.appendTxResult) =
      { d with txResults := d.txResults ++ results } := by
  induction results generalizing d with
  | nil => simp [writeAll]
  | cons r results ih =>
    have hcons : d.writeAll ((r :: results).map ExecWrite.appendTxResult) =
        (d.write (.appendTxResult r)).writeAll (results.map ExecWrite.appendTxResult) := rfl
    rw [hcons, ih]
    simp [write]

end ExecDisk

section Effects

variable {hashTx : Tx → String} {n : ExecNode} {op : ExecOp} {exec : CosmosExecutor}
  {writes : List ExecWrite}

theorem recordTx_cases {results : List TxExecutionResult}
    {known : String → Option TxExecutionResult} {x : String} {r : TxExecutionResult}
    (hr : results.foldl recordTx known x = some r) : r ∈ results ∨ known x = some r := by
  rw [foldl_recordTx, or_eq_some_iff] at hr
  rcases hr with hfound | ⟨-, hknown⟩
  · exact .inl (mem_reverse.mp (mem_of_find?_eq_some hfound))
  · exact .inr hknown

theorem ExecNode.Sound.started (hs : n.Sound) (hinit : n.exec.initialized = false)
    (initialHeight : ℕ) (chainID : String) (root : Bytes) (d : ExecDisk) :
    ExecNode.Sound ⟨n.exec.started initialHeight chainID root, d⟩ := by
  refine ⟨fun hnot => absurd hnot (by simp [CosmosExecutor.started]), ?_⟩
  obtain ⟨hnew, -⟩ := hs.fresh hinit
  intro x r hr
  simp [CosmosExecutor.started, hnew, CosmosExecutor.new] at hr

theorem ExecEffect.sound (heff : ExecEffect hashTx n.exec op exec writes) (hs : n.Sound) :
    ExecNode.Sound ⟨exec, n.disk.writeAll writes⟩ := by
  cases heff with
  | again hinit => exact hs
  | start hinit hpos hhash | startCommitted hinit hpos => exact hs.started hinit _ _ _ _
  | execute hinit hheight hblock hresults =>
    refine ⟨fun hnot => absurd (hinit.symm.trans hnot) (by simp), ?_⟩
    intro x r hr
    dsimp only [executed] at hr ⊢
    rw [hblock]
    rcases recordTx_cases hr with hnow | hbefore
    · rw [hresults r hnow]
    · have hle := hs.heights x r hbefore
      omega
  | final hle =>
    refine ⟨fun hnot => ?_, hs.heights⟩
    obtain ⟨hnew, htxs, hblocks, hversion⟩ := hs.fresh hnot
    refine ⟨?_, htxs, hblocks, hversion⟩
    rw [hnew] at hle ⊢
    have hzero := Nat.le_zero.mp hle
    rw [hzero]
    rfl
  | stay => exact hs
  | prune =>
    refine ⟨fun hnot => ?_, ?_⟩
    · obtain ⟨hnew, hdisk⟩ := hs.fresh hnot
      refine ⟨?_, hdisk⟩
      rw [hnew]
      simp [pruned, new]
    · intro x r hr
      exact hs.heights x r (filter_eq_some_iff.mp hr).1

theorem restored_of_fresh {d : ExecDisk} (htxs : d.txResults = []) (hblocks : d.blocks = [])
    {e : CosmosExecutor} (hinit : e.initialized = false) (hmeta : d.metadata = some e.metadata) :
    withPersistence d = .ok new := by
  have hnot : e.metadata.initialized = false := hinit
  unfold withPersistence restoreMetadata
  rw [hmeta, htxs, hblocks]
  simp [hnot]

theorem restored_started (hs : n.Sound) (hinit : n.exec.initialized = false) (version : ℕ)
    (initialHeight : ℕ) (chainID : String) (root : Bytes) :
    withPersistence
        ⟨version, n.disk.txResults, n.disk.blocks,
          some (n.exec.started initialHeight chainID root).metadata⟩ =
      .ok (n.exec.started initialHeight chainID root) := by
  obtain ⟨hnew, htxs, hblocks, -⟩ := hs.fresh hinit
  apply restored_of_saved rfl rfl
  rw [hnew, htxs, hblocks]
  exact ⟨rfl, rfl, fun b hb => absurd hb not_mem_nil⟩

theorem restored_executed (hf : n.Faithful) {results : List TxExecutionResult} {block : BlockInfo}
    {root : Bytes} (hinit : n.exec.initialized = true)
    (hheight : block.height = n.exec.lastHeight + 1) (version : ℕ) :
    withPersistence
        ⟨version, n.disk.txResults ++ results, n.disk.blocks ++ [block],
          some (n.exec.executed results block root).metadata⟩ =
      .ok (n.exec.executed results block root) := by
  have hlogs := replays_of_restored hf.1
  have hstill : (n.exec.executed results block root).initialized = true := hinit
  apply restored_of_saved hstill rfl
  refine ⟨?_, ?_, ?_⟩
  · rw [foldl_append, hlogs.txResults]
    rfl
  · rw [foldl_append, hlogs.blocks]
    rfl
  · intro b hb
    change b.height ≤ block.height
    rcases mem_append.mp hb with hold | hnew
    · have hle := hlogs.height b hold
      omega
    · rw [mem_singleton.mp hnew]

theorem pruned_eq_iff (e : CosmosExecutor) (height : ℕ) :
    e = e.pruned height ↔ (∀ h ≤ height, e.blocks h = none) ∧
      ∀ x r, e.txResults x = some r → height < r.height := by
  constructor
  · intro hsame
    constructor
    · intro h hle
      have hblocks := congrFun (congrArg blocks hsame) h
      rw [hblocks]
      exact if_pos hle
    · intro x r hr
      have htxs := congrFun (congrArg txResults hsame) x
      rw [hr] at htxs
      exact of_decide_eq_true (filter_eq_some_iff.mp htxs.symm).2
  · rintro ⟨hblocks, htxs⟩
    have hblocksSame : (fun h => if h ≤ height then none else e.blocks h) = e.blocks := by
      funext h
      split_ifs with hle
      · exact (hblocks h hle).symm
      · rfl
    have htxsSame : (fun x => (e.txResults x).filter (fun r => height < r.height)) =
        e.txResults := by
      funext x
      rcases hx : e.txResults x with _ | r
      · rfl
      · simp [htxs x r hx]
    unfold pruned
    rw [hblocksSame, htxsSame]

theorem writeAll_executed (d : ExecDisk) (results : List TxExecutionResult) (version : ℕ)
    (block : BlockInfo) (metadata : ChainMetadata) :
    d.writeAll (results.map ExecWrite.appendTxResult ++
        [.appCommit version, .appendBlock block, .saveMetadata metadata]) =
      ⟨version, d.txResults ++ results, d.blocks ++ [block], some metadata⟩ := by
  rw [ExecDisk.writeAll_append, ExecDisk.writeAll_appendTxs]
  rfl

theorem restored_finalized (hs : n.Sound) (hf : n.Faithful) {blockHeight : ℕ}
    (hle : blockHeight ≤ n.exec.lastHeight) :
    withPersistence { n.disk with metadata := some (n.exec.finalized blockHeight).metadata } =
      .ok (n.exec.finalized blockHeight) := by
  have hlogs := replays_of_restored hf.1
  rcases hinit : n.exec.initialized with _ | _
  · -- nothing is finalized before there is a chain
    obtain ⟨hnew, htxs, hblocks, -⟩ := hs.fresh hinit
    have hstill : (n.exec.finalized blockHeight).initialized = false := hinit
    have hsame : n.exec.finalized blockHeight = new := by
      rw [hnew] at hle ⊢
      rw [Nat.le_zero.mp hle]
      rfl
    rw [hsame] at hstill ⊢
    exact restored_of_fresh htxs hblocks hstill rfl
  · have hstill : (n.exec.finalized blockHeight).initialized = true := hinit
    apply restored_of_saved hstill rfl
    exact ⟨hlogs.txResults, hlogs.blocks, hlogs.height⟩

theorem ExecEffect.faithful_iff (heff : ExecEffect hashTx n.exec op exec writes) (hs : n.Sound)
    (hf : n.Faithful) (happ : op.AppVersions) :
    ExecNode.Faithful ⟨exec, n.disk.writeAll writes⟩ ↔ Restorable n.exec op := by
  cases heff with
  | again hinit => exact iff_of_true hf (.inl hinit)
  | @start initialHeight chainID hash commit hinit hpos hhash =>
    have hversion := (hs.fresh hinit).2.2.2
    have hrestored := restored_started hs hinit n.disk.appVersion initialHeight chainID hash
    have hcondition : Restorable n.exec (.initChain initialHeight chainID (.ok hash) commit) ↔
        initialHeight = 1 := by
      simp [Restorable, hinit, hhash]
    have hheight : initialHeight - 1 = n.disk.appVersion ↔ initialHeight = 1 := by omega
    rw [hcondition, ← hheight]
    exact ⟨fun h => h.2, fun h => ⟨hrestored, h⟩⟩
  | @startCommitted initialHeight chainID c hinit hpos =>
    have hrestored := restored_started hs hinit c.version initialHeight chainID c.hash
    have hcondition : Restorable n.exec (.initChain initialHeight chainID (.ok []) (.ok c)) ↔
        initialHeight = c.version + 1 := by
      simp [Restorable, hinit]
    have hheight : initialHeight - 1 = c.version ↔ initialHeight = c.version + 1 := by omega
    rw [hcondition, ← hheight]
    exact ⟨fun h => h.2, fun h => ⟨hrestored, h⟩⟩
  | @execute txs blockHeight time prevStateRoot finalized c results block hinit hheight hblock
      hresults =>
      have hversion : c.version = blockHeight := happ
      refine iff_of_true ⟨?_, ?_⟩ trivial
      · rw [writeAll_executed]
        exact restored_executed hf hinit (hblock.trans hheight) c.version
      · rw [writeAll_executed]
        exact hblock.trans hversion.symm
  | final hle => exact iff_of_true ⟨restored_finalized hs hf hle, hf.2⟩ trivial
  | stay => exact iff_of_true hf trivial
  | @prune height =>
    have hsame : withPersistence n.disk = .ok (n.exec.pruned height) ↔
        n.exec = n.exec.pruned height := by
      rw [hf.1]
      exact ⟨fun h => ok.inj h, fun h => congrArg Except.ok h⟩
    constructor
    · rintro ⟨hrestored, -⟩
      exact (pruned_eq_iff _ _).mp (hsame.mp hrestored)
    · intro hnothing
      exact ⟨hsame.mpr ((pruned_eq_iff _ _).mpr hnothing), hf.2⟩

end Effects

end ChainSdk

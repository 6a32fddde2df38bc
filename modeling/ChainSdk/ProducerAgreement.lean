/-
Producer and validator agree: every block a producer commits is accepted by every syncing node that
has the blocks before it, and leads to the same state up to the DA height.

The invariant: last state, last-block cache and pending block all belong to the tip of the store,
through failed calls, crashes, stops and restarts with replays.
-/
import ChainSdk.ProducedBlocks

namespace ChainSdk

open BlockAct Except Executor Function List Option ProducerNode Runs Store

/-! ## The producer's invariant -/

/-- What an executor holds in memory and as pending block belongs to the tip of its store. -/
structure Executor.OnTip (config : ExecutorConfig) (key : PubKey) (x : ExecutionModel)
    (e : Executor) : Prop where
  config_eq : e.config = config
  lastState : ∀ st, e.lastState = some st → st.AgreesWith (e.store.tip config x)
  lastBlockInfo : ∀ info, e.lastBlockInfo = some info →
    config.genesis.initialHeight ≤ e.store.height →
    info.headerHash = (e.store.tip config x).lastHeaderHash
  pending : ∀ header data, e.store.pendingHeader = some header →
    e.store.pendingData = some data → header.header.height = e.store.height + 1 →
    Built config key (e.store.tip config x) header data

structure ProducedInv (config : ExecutorConfig) (key : PubKey) (x : ExecutionModel)
    (n : ProducerNode) : Prop where
  onTip : n.executor.OnTip config key x
  canonical_or_new : n.executor.store.Canonical config x ∨
    n.running = false ∧ n.executor.store = empty
  started : n.running = true → ∃ st, n.executor.lastState = some st

/-! ## Conditions on events -/

/-- The signer answers with its key and signatures that verify, and the execution client like `x`.
-/
def ProducerEvent.Faithful (w : Wire) (key : PubKey) (x : ExecutionModel) (n : ProducerNode) :
    ProducerEvent → Prop
  | .produce inp =>
    (∀ k, inp.getPublic = .ok k → k = key) ∧
      ∀ header data store, n.executor.Obtained inp header data store →
        (∀ attempt root, inp.executeTxs attempt = .ok root →
          root = x.executeTxs data.txs header.header.height
            (timeOfUint64 header.header.time) n.executor.getLastState.appHash) ∧
        ∀ signature, inp.sign = .ok signature → signature ≠ [] ∧
          w.verify key (n.executor.config.codec.headerBytes header.header) signature = .ok true
  | .start inp => ∀ root, inp.initChain = .ok root → root = x.initChain
  | _ => True

/-- The timestamp of the batch a call is offered is not zero as `uint64`. -/
def ProducerEvent.Timed : ProducerEvent → Prop
  | .produce inp => ∀ res, inp.getNextBatch = .ok (some res) → uint64OfTime res.timestamp ≠ 0
  | _ => True

variable (startTime : Time) {e' : Executor} {n : ProducerNode}

section

variable {config : ExecutorConfig} {key : PubKey} {x : ExecutionModel} {w : Wire}

/-! ## Producing -/

/-- The executor of a running producer. -/
structure Executor.Ready (config : ExecutorConfig) (key : PubKey) (x : ExecutionModel)
    (e : Executor) : Prop extends Executor.OnTip config key x e where
  canonical : e.store.Canonical config x
  started : ∃ st, e.lastState = some st

theorem ProducedInv.ready (hinv : ProducedInv config key x n)
    (hrun : n.running = true) : n.executor.Ready config key x := by
  refine ⟨hinv.onTip, ?_, hinv.started hrun⟩
  rcases hinv.canonical_or_new with hcanonical | ⟨hoff, -⟩
  · exact hcanonical
  · simp [hrun] at hoff

namespace Executor

variable {e : Executor} {inp : ProduceInput} {header : SignedHeader} {data : Data}
  {store : Store}

theorem Ready.last (h : e.Ready config key x) :
    e.getLastState.AgreesWith (e.store.tip config x) := by
  obtain ⟨st, hst⟩ := h.started
  unfold getLastState
  rw [hst]
  exact h.lastState st hst

section

variable (hset : ProducerSetting config key) (h : e.Ready config key x)
include hset h

theorem Ready.newHeight_eq :
    e.newHeight = e.store.height + 1 := by
  unfold newHeight
  rw [h.last.lastBlockHeight_eq]
  show (x.stateAt config.codec config.genesis e.store.blocks e.store.height).lastBlockHeight + 1 =
    e.store.height + 1
  rw [h.canonical.stateAt_height hset.initial_pos h.canonical.initial_le le_rfl]

theorem Ready.lastBlock
    (hgenesis : uint64OfTime config.genesis.startTime ≠ 0) {batchData : BatchData}
    (hbatch : uint64OfTime batchData.time ≠ 0) {time : ℕ} {last : LastBlockInfo}
    (hlast : e.lastBlock e.newHeight batchData = .ok (time, last)) :
    last.headerHash = (e.store.tip config x).lastHeaderHash ∧ time ≠ 0 := by
  have hheight := h.newHeight_eq hset
  rcases lastBlock_ok hlast with
    ⟨hlater, rfl, hinfo | ⟨block, hblock, rfl⟩⟩ | ⟨hfirst, rfl, rfl⟩
  · rw [h.config_eq] at hlater
    exact ⟨h.lastBlockInfo last hinfo (by omega), hbatch⟩
  · refine ⟨?_, hbatch⟩
    rw [hheight, Nat.add_sub_cancel] at hblock
    unfold tip
    rw [h.config_eq, h.canonical.stateAt_block hset.initial_pos hblock]
    rfl
  · rw [h.config_eq] at hfirst
    rw [h.config_eq]
    refine ⟨?_, hgenesis⟩
    unfold tip
    rw [h.canonical.stateAt_genesis (by omega)]
    rfl

theorem Ready.obtained (hgenesis : uint64OfTime config.genesis.startTime ≠ 0)
    (htimed : (ProducerEvent.produce inp).Timed)
    (hkey : ∀ k, inp.getPublic = .ok k → k = key) (hobtained : Obtained e inp header data store) :
    Built config key (e.store.tip config x) header data ∧
      header.header.height = e.store.height + 1 ∧
      Ready config key x { e with store := store } ∧ store.height = e.store.height ∧
      store.blocks = e.store.blocks ∧ store.pendingHeader = some header := by
  have hheight := h.newHeight_eq hset
  rcases hobtained with hpending | ⟨batchData, hbatch, hcreate⟩
  · obtain ⟨hheader, hdata⟩ := pendingFor_some hpending
    have hnext := (pendingFor_height hpending).trans hheight
    exact ⟨h.pending header data hheader hdata hnext, hnext, h, rfl, rfl, hheader⟩
  have htime : uint64OfTime batchData.time ≠ 0 := by
    unfold retrieveBatch at hbatch
    rcases hnext : inp.getNextBatch with err | _ | res
    · simp [hnext] at hbatch
    · simp [hnext] at hbatch
    · rw [hnext] at hbatch
      rw [← ok.inj hbatch]
      exact htimed res hnext
  have hbuilt := createBlock_built hset h.config_eq hkey
    (fun time last hlast => h.lastBlock hset hgenesis htime hlast) hcreate
  refine ⟨hbuilt, (createBlock_height hcreate).trans hheight, ?_, rfl, rfl, rfl⟩
  refine ⟨⟨h.config_eq, h.lastState, h.lastBlockInfo, ?_⟩,
    h.canonical.savePendingBlock header data, h.started⟩
  -- the new block takes the place of whatever was pending
  intro header' data' hheader' hdata' _
  obtain rfl := some.inj hheader'
  obtain rfl := some.inj hdata'
  exact hbuilt

end

theorem Ready.commits (h : e.Ready config key x) {root : Hash} {signature : Signature}
    (hheight : header.header.height = e.store.height + 1)
    (hpending : e.store.pendingHeader = some header)
    (hexec : ∀ attempt root, inp.executeTxs attempt = .ok root →
      root = x.executeTxs data.txs header.header.height (timeOfUint64 header.header.time)
        e.getLastState.appHash) (hsealed : Sealed e inp header data root signature e') :
    Ready config key x e' ∧ ∃ st, e'.store.getState = some st ∧ st.AgreesWith
      (x.applyBlock config.codec (e.store.tip config x) header.header data.txs) := by
  obtain ⟨attempt, hanswer⟩ := executeTxsWithRetry_ok hsealed.executed
  have hstate : (e.newState inp header.header root).AgreesWith
      (x.applyBlock config.codec (e.store.tip config x) header.header data.txs) := by
    unfold newState
    rw [h.config_eq, hexec attempt root hanswer, h.last.appHash_eq]
    exact h.last.nextState _ _ _ _
  have hsigned : ({ header with signature := signature } : SignedHeader).header.height =
      e.store.height + 1 := hheight
  obtain ⟨hcanonical, htip⟩ := h.canonical.commitBatch hsigned hstate
  rw [← hsealed.store_eq] at hcanonical htip
  have hstored : e'.store.getState = some (e.newState inp header.header root) := by
    rw [hsealed.store_eq, commitBatch_eq hsigned, ← hsigned]
    exact update_self _ _ _
  have hnew := hstate
  rw [← htip] at hnew
  refine ⟨⟨⟨hsealed.config_eq.trans h.config_eq, ?_, ?_, ?_⟩, hcanonical, ?_⟩, _, hstored, hstate⟩
  · intro st hst
    rw [hsealed.lastState_eq] at hst
    obtain rfl := some.inj hst
    exact hnew
  · intro info hinfo _
    obtain rfl := some.inj (hsealed.lastBlockInfo_eq.symm.trans hinfo)
    rw [← hnew.lastHeaderHash_eq]
    rfl
  · -- what was pending is the block just committed, a height below
    intro header' data' hheader' _ hnext
    rw [hsealed.store_eq, commitBatch_eq hsigned] at hheader' hnext
    obtain rfl := some.inj (hpending.symm.trans hheader')
    dsimp only at hnext
    omega
  · exact ⟨_, hsealed.lastState_eq⟩

theorem Ready.kept (h : e.Ready config key x) (hkept : Kept e e') :
    Ready config key x e' := by
  refine ⟨⟨hkept.config_eq.trans h.config_eq, ?_, ?_, ?_⟩, ?_, ?_⟩
  · rw [hkept.lastState_eq, hkept.store_eq]
    exact h.lastState
  · rw [hkept.lastBlockInfo_eq, hkept.store_eq]
    exact h.lastBlockInfo
  · rw [hkept.store_eq]
    exact h.pending
  · rw [hkept.store_eq]
    exact h.canonical
  · rw [hkept.lastState_eq]
    exact h.started

/-- A block has been committed that was built on the tip, fits the last state and is signed, and the
state stored with it is that of the chain. -/
structure Publishes (config : ExecutorConfig) (w : Wire) (key : PubKey) (x : ExecutionModel)
    (e e' : Executor) (signed : SignedHeader) (data : Data) : Prop where
  built : Built config key (e.store.tip config x) signed data
  sequence : (e.getLastState.assertValidSequence e.hashMismatchSeen signed.header).1 = .ok ()
  signature_ne : signed.signature ≠ []
  verifies : w.verify key (config.codec.headerBytes signed.header) signed.signature = .ok true
  stored : e'.store.blocks signed.header.height = some ⟨signed, data, signed.signature⟩
  state : ∃ st, e'.store.getState = some st ∧ st.AgreesWith
    (x.applyBlock config.codec (e.store.tip config x) signed.header data.txs)

section

variable {n : ProducerNode} (hset : ProducerSetting config key) (h : n.executor.Ready config key x)
  (hgenesis : uint64OfTime config.genesis.startTime ≠ 0)
  (htimed : (ProducerEvent.produce inp).Timed)
  (hfaithful : (ProducerEvent.produce inp).Faithful w key x n)
include hset h hgenesis htimed hfaithful

theorem Ready.publishes {e' : Executor} {root : Hash} {signature : Signature}
    (hobtained : Obtained n.executor inp header data store)
    (hsealed : Sealed { n.executor with store := store } inp header data root signature e') :
    Ready config key x e' ∧
      Publishes config w key x n.executor e' { header with signature := signature } data := by
  obtain ⟨hkey, hanswers⟩ := hfaithful
  obtain ⟨hbuilt, hheight, hready, hsame, hblocks, hpending⟩ :=
    h.obtained hset hgenesis htimed hkey hobtained
  obtain ⟨hexec, hsign⟩ := hanswers header data store hobtained
  have hnext : header.header.height = store.height + 1 := by rw [hsame, hheight]
  obtain ⟨hafter, st, hst, hstate⟩ := hready.commits hnext hpending hexec hsealed
  have hsignature := signHeader_ok (hready.config_eq ▸ hset.signer) hsealed.signed
  obtain ⟨hne, hverifies⟩ := hsign signature hsignature
  rw [h.config_eq] at hverifies
  have htip : tip config x store = n.executor.store.tip config x := by
    unfold tip
    rw [hsame, hblocks]
  rw [htip] at hstate
  refine ⟨hafter, ⟨hbuilt.1, hbuilt.2, hbuilt.3, hbuilt.4, hbuilt.5, hbuilt.6, hbuilt.7⟩,
    hsealed.sequence, hne, hverifies, ?_, st, hst, hstate⟩
  have hsigned : ({ header with signature := signature } : SignedHeader).header.height =
      store.height + 1 := hnext
  rw [hsealed.store_eq, commitBatch_eq hsigned, hsigned]
  exact update_self _ _ _

theorem Ready.produceBlock :
    Ready config key x (n.executor.produceBlock inp).2.1 ∧
      ∀ hd d, committed hd d ∈ (n.executor.produceBlock inp).2.2 →
        ∃ signed : SignedHeader, signed.header = hd ∧ Publishes config w key x n.executor
          (n.executor.produceBlock inp).2.1 signed d := by
  rcases n.executor.produceBlock_cases inp with
    ⟨hkept, hnil⟩ | ⟨header, data, store, hobtained, -, habout, hend⟩
  · rw [hnil]
    exact ⟨h.kept hkept, fun _ _ hmem => absurd hmem not_mem_nil⟩
  rcases hend with ⟨hkept, hnone⟩ | ⟨root, signature, hsealed⟩
  · have hready := (h.obtained hset hgenesis htimed hfaithful.1 hobtained).2.2.1
    exact ⟨hready.kept hkept, fun hd d hmem => absurd hmem (hnone hd d)⟩
  · obtain ⟨hafter, hpublished⟩ := h.publishes hset hgenesis htimed hfaithful hobtained hsealed
    refine ⟨hafter, fun hd d hmem => ?_⟩
    obtain ⟨rfl, rfl⟩ := habout _ hmem
    exact ⟨{ header with signature := signature }, rfl, hpublished⟩

end

end Executor

theorem ProducedInv.produce (hset : ProducerSetting config key) (hinv : ProducedInv config key x n)
    (hgenesis : uint64OfTime config.genesis.startTime ≠ 0) {inp : ProduceInput}
    (htimed : (ProducerEvent.produce inp).Timed)
    (hfaithful : (ProducerEvent.produce inp).Faithful w key x n) :
    ProducedInv config key x (n.step (.produce inp)) := by
  dsimp only [step]
  by_cases hrun : n.running = true
  · rw [if_pos hrun]
    have hready := ((hinv.ready hrun).produceBlock hset hgenesis htimed hfaithful).1
    exact ⟨hready.toOnTip, .inl hready.canonical, fun _ => hready.started⟩
  · rw [if_neg hrun]
    exact hinv

/-! ## Starting -/

theorem ProducedInv.loadState (hinv : ProducedInv config key x n) {inp : StartInput} {state : State}
    (hinit : ∀ root, inp.initChain = .ok root → root = x.initChain)
    (hload : n.executor.loadState inp = .ok state) :
    state.AgreesWith (n.executor.store.tip config x) := by
  unfold Executor.loadState at hload
  rcases hinv.canonical_or_new with hcanonical | ⟨-, hempty⟩
  · obtain ⟨st, hst, hagrees⟩ := hcanonical.states n.executor.store.height
      hcanonical.initial_le le_rfl
    have hget : n.executor.store.getState = some st := hst
    rw [hget] at hload
    rw [← ok.inj hload]
    exact hagrees
  · have hget : n.executor.store.getState = none := by
      rw [hempty]
      rfl
    rw [hget] at hload
    rcases hroot : inp.initChain with err | root
    · simp [hroot] at hload
    · rw [hroot] at hload
      rw [← ok.inj hload, hempty, hinit root hroot, hinv.onTip.config_eq]
      exact .refl _

/-- The store after a start has written its state, `s'`, against the one before: it is
canonical, and what memory and pending block refer to is the same. -/
structure StartedOn (config : ExecutorConfig) (x : ExecutionModel) (s s' : Store) : Prop where
  canonical : s'.Canonical config x
  tip_eq : s'.tip config x = s.tip config x
  blocks_eq : s'.blocks = s.blocks
  pendingHeader_eq : s'.pendingHeader = s.pendingHeader
  pendingData_eq : s'.pendingData = s.pendingData
  initial_of : config.genesis.initialHeight ≤ s'.height → s'.height = s.height
  pending_of : ∀ header, s.pendingHeader = some header → s'.height = s.height

section

variable {s : Store} {state : State} {n : ProducerNode} {inp : StartInput}
  (hset : ProducerSetting config key)
include hset

theorem StartedOn.of_canonical
    (hs : s.Canonical config x) (hagrees : state.AgreesWith (s.tip config x)) :
    StartedOn config x s ((s.setHeight state.lastBlockHeight).updateState state) := by
  have hheight : state.lastBlockHeight = s.height :=
    hagrees.lastBlockHeight_eq.trans (hs.stateAt_height hset.initial_pos hs.initial_le le_rfl)
  have hwrite : s.setHeight state.lastBlockHeight = s := if_pos hheight.le
  rw [hwrite]
  refine ⟨hs.updateState ?_, rfl, rfl, rfl, rfl, fun _ => rfl, fun _ _ => rfl⟩
  rw [hheight]
  exact hagrees

theorem StartedOn.of_empty (hagrees : state.AgreesWith (empty.tip config x)) :
    StartedOn config x empty
      ((empty.setHeight state.lastBlockHeight).updateState state) := by
  have hpos := hset.initial_pos
  have hheight : state.lastBlockHeight = config.genesis.initialHeight - 1 :=
    hagrees.lastBlockHeight_eq
  have hwrite : empty.setHeight state.lastBlockHeight =
      { empty with height := state.lastBlockHeight } := by
    unfold setHeight empty
    split_ifs with hzero
    · rw [Nat.le_zero.mp hzero]
    · rfl
  have hgenesis : ∀ k, x.stateAt config.codec config.genesis empty.blocks k =
      genesisState config.genesis x.initChain :=
    fun k => ExecutionModel.stateAt_of_none (fun _ _ => rfl)
  rw [hwrite]
  refine ⟨⟨?_, ?_, ?_, ?_⟩, hgenesis _, rfl, rfl, rfl, ?_, ?_⟩
  · show config.genesis.initialHeight ≤ state.lastBlockHeight + 1
    omega
  · intro h
    show (none : Option StoredBlock).isSome = true ↔
      config.genesis.initialHeight ≤ h ∧ h ≤ state.lastBlockHeight
    simp
    omega
  · intro h block hblock
    exact absurd hblock (by simp [updateState, empty])
  · intro h hge hle
    obtain rfl : h = state.lastBlockHeight :=
      Nat.le_antisymm hle (by omega)
    refine ⟨state, update_self _ _ _, ?_⟩
    show state.AgreesWith (x.stateAt config.codec config.genesis empty.blocks _)
    rw [hgenesis]
    exact hagrees
  · intro hge
    have : config.genesis.initialHeight ≤ state.lastBlockHeight := hge
    omega
  · exact fun header hpending => absurd hpending (by simp [empty])

theorem StartedOn.syncToHeight {s' : Store}
    (h : StartedOn config x s s') (env : ReplayEnv) (target : ℕ) :
    StartedOn config x s (ChainSdk.syncToHeight config.codec config.genesis env s' target).2 := by
  have hframe := syncToHeight_frame config.codec config.genesis env s' target
  refine ⟨h.canonical.syncToHeight hset.initial_pos env target, ?_, ?_, ?_, ?_, ?_, ?_⟩
  · rw [← h.tip_eq]
    unfold tip
    rw [hframe.blocks_eq, hframe.height_eq]
  · exact hframe.blocks_eq.trans h.blocks_eq
  · exact hframe.pendingHeader_eq.trans h.pendingHeader_eq
  · exact hframe.pendingData_eq.trans h.pendingData_eq
  · rw [hframe.height_eq]
    exact h.initial_of
  · rw [hframe.height_eq]
    exact h.pending_of

/-- A start fails, with at most the last state replaced, or goes on from the store it has
written with the tip in its last-block cache. -/
theorem ProducedInv.initializeState (hinv : ProducedInv config key x n)
    (hinit : ∀ root, inp.initChain = .ok root → root = x.initChain) :
    (n.executor.initializeState inp).1.isOk = false ∧ ((n.executor.initializeState inp).2 =
        n.executor ∨ ∃ state, state.AgreesWith (n.executor.store.tip config x) ∧
          (n.executor.initializeState inp).2 = { n.executor with lastState := some state }) ∨
      ∃ state e, (n.executor.initializeState inp).2 = e ∧ e.config = config ∧
        e.lastState = some state ∧ state.AgreesWith (n.executor.store.tip config x) ∧
        StartedOn config x n.executor.store e.store ∧ e.CachesTip := by
  rcases n.executor.initializeState_spec inp with ⟨hfailed, hsame⟩ | ⟨state, hload, hrest⟩
  · refine .inl ⟨hfailed, hsame.imp_right ?_⟩
    rintro ⟨state, hload, heq⟩
    exact ⟨state, hinv.loadState hinit hload, heq⟩
  have hagrees := hinv.loadState hinit hload
  have hwritten : StartedOn config x n.executor.store
      ((n.executor.store.setHeight state.lastBlockHeight).updateState state) := by
    rcases hinv.canonical_or_new with hcanonical | ⟨-, hempty⟩
    · exact .of_canonical hset hcanonical hagrees
    · rw [hempty] at hagrees ⊢
      exact .of_empty hset hagrees
  have hheight : state.lastBlockHeight =
      ((n.executor.store.setHeight state.lastBlockHeight).updateState state).height :=
    (hagrees.lastBlockHeight_eq.trans
      (congrArg State.lastBlockHeight hwritten.tip_eq.symm)).trans
      (hwritten.canonical.stateAt_height hset.initial_pos hwritten.canonical.initial_le le_rfl)
  obtain ⟨target, heq⟩ := hrest (by
    rw [← hwritten.blocks_eq]
    exact hwritten.canonical.none_above (by omega))
  have hframe := syncToHeight_frame config.codec config.genesis inp.replay
    ((n.executor.store.setHeight state.lastBlockHeight).updateState state) target
  rw [hinv.onTip.config_eq] at heq
  refine .inr ⟨state, _, heq, rfl, rfl, hagrees, ?_, ?_⟩
  · exact hwritten.syncToHeight hset inp.replay target
  · exact warmCaches_cachesTip hset.initial_pos hwritten.canonical.stored_iff hheight hframe

theorem ProducedInv.start (hinv : ProducedInv config key x n)
    (hinit : ∀ root, inp.initChain = .ok root → root = x.initChain) :
    ProducedInv config key x (n.step (.start inp)) := by
  dsimp only [step]
  rcases hinv.initializeState hset hinit with
    ⟨hfailed, hsame⟩ | ⟨state, e, heq, hconfig, hlast, hagrees, hstarted, hcache⟩
  · rw [hfailed]
    rcases hsame with heq | ⟨state, hagrees, heq⟩
    · rw [heq]
      refine ⟨hinv.onTip, ?_, fun hrun => absurd hrun Bool.false_ne_true⟩
      exact hinv.canonical_or_new.imp_right (fun hnew => ⟨rfl, hnew.2⟩)
    rw [heq]
    refine ⟨⟨hinv.onTip.config_eq, ?_, hinv.onTip.lastBlockInfo, hinv.onTip.pending⟩, ?_,
      fun hrun => absurd hrun Bool.false_ne_true⟩
    · intro st hst
      obtain rfl := some.inj hst
      exact hagrees
    · exact hinv.canonical_or_new.imp_right (fun hnew => ⟨rfl, hnew.2⟩)
  · rw [heq]
    refine ⟨⟨hconfig, ?_, ?_, ?_⟩, .inl hstarted.canonical, fun _ => ⟨state, hlast⟩⟩
    · intro st hst
      obtain rfl := some.inj (hlast.symm.trans hst)
      rw [hstarted.tip_eq]
      exact hagrees
    · intro info hinfo hge
      obtain ⟨block, hblock, rfl⟩ := hcache info hinfo (hconfig.symm ▸ hge)
      unfold tip
      rw [hconfig, hstarted.canonical.stateAt_block hset.initial_pos hblock]
      rfl
    · intro header data hheader hdata hnext
      rw [hstarted.tip_eq]
      have hold := hstarted.pendingHeader_eq.symm.trans hheader
      refine hinv.onTip.pending header data hold (hstarted.pendingData_eq.symm.trans hdata) ?_
      rw [← hstarted.pending_of header hold]
      exact hnext

end

/-! ## The whole run -/

theorem ProducedInv.stop (hinv : ProducedInv config key x n) (headerDeleted dataDeleted : Bool) :
    ProducedInv config key x (n.step (.stop headerDeleted dataDeleted)) := by
  dsimp only [step]
  have hnew : n.executor.store = empty →
      (n.executor.stop headerDeleted dataDeleted).store = empty :=
    fun hempty => stop_empty hempty _ _
  -- a pending block that is left has not been touched
  rcases n.executor.stop_cases headerDeleted dataDeleted with heq | ⟨-, data, -, heq⟩
  all_goals
    rw [heq] at hnew ⊢
    refine ⟨?_, ?_, fun hrun => absurd hrun Bool.false_ne_true⟩
  · exact hinv.onTip
  · exact hinv.canonical_or_new.imp_right fun hempty => ⟨rfl, hempty.2⟩
  · exact ⟨hinv.onTip.config_eq, hinv.onTip.lastState, hinv.onTip.lastBlockInfo,
      fun header data hheader => absurd hheader (by simp)⟩
  · rcases hinv.canonical_or_new with hcanonical | ⟨-, hempty⟩
    · exact .inl ⟨hcanonical.1, hcanonical.2, hcanonical.3, hcanonical.4⟩
    · exact .inr ⟨rfl, hnew hempty⟩

theorem ProducedInv.step (hset : ProducerSetting config key) (hinv : ProducedInv config key x n)
    (hgenesis : uint64OfTime config.genesis.startTime ≠ 0) {ev : ProducerEvent}
    (hfaithful : ev.Faithful w key x n) (htimed : ev.Timed) :
    ProducedInv config key x (n.step ev) := by
  cases ev with
  | produce inp => exact hinv.produce hset hgenesis htimed hfaithful
  | start inp => exact hinv.start hset hfaithful
  | stop headerDeleted dataDeleted => exact hinv.stop headerDeleted dataDeleted
  | crash =>
    refine ⟨⟨hinv.onTip.config_eq, ?_, ?_, hinv.onTip.pending⟩,
      hinv.canonical_or_new.imp_right (fun hnew => ⟨rfl, hnew.2⟩),
      fun hrun => absurd hrun Bool.false_ne_true⟩
    · exact fun st hst => absurd hst (by simp [ProducerNode.step, new])
    · exact fun info hinfo => absurd hinfo (by simp [ProducerNode.step, new])

theorem ProducedInv.fresh : ProducedInv config key x (fresh config) :=
  ⟨⟨rfl, fun st hst => absurd hst (by simp [ProducerNode.fresh, new]),
    fun info hinfo => absurd hinfo (by simp [ProducerNode.fresh, new]),
    fun header data hheader => absurd hheader
      (by simp [ProducerNode.fresh, new, Store.empty])⟩,
    .inr ⟨rfl, rfl⟩, fun hrun => absurd hrun Bool.false_ne_true⟩

end

/-! ## Validation elsewhere -/

structure SyncedTo (config : ExecutorConfig) (x : ExecutionModel) (s : Store) (m : SyncNode) :
    Prop where
  run : ∃ cfg events m₀, cfg.genesis = config.genesis ∧ cfg.codec = config.codec ∧
    cfg.initChain = .ok x.initChain ∧ (∀ p ∈ events, EventEnv.Executes p.1 x) ∧
    SyncNode.start cfg empty = .ok m₀ ∧ m₀.run events = .ok m
  height_eq : m.store.height = s.height
  blocks_eq : ∀ h, h ≤ s.height →
    (m.store.blocks h).map (fun b => (b.header.header, b.data.txs)) =
      (s.blocks h).map (fun b => (b.header.header, b.data.txs))

/-- Every node that has the blocks of `s`, and whose clock is not too far behind, accepts the block,
and `ApplyBlock` gives it `state`, up to the DA height. -/
def Accepted (config : ExecutorConfig) (w : Wire) (x : ExecutionModel) (s : Store)
    (signed : SignedHeader) (data : Data) (state : State) : Prop :=
  ∀ m, SyncedTo config x s m → ∀ env ev, ev.header = signed → ev.data = data →
    timeOfUint64 signed.header.time ≤ env.now + maxClockDrift →
    validateBlock w config.codec (defaultSignatureProvider config.codec) env.now
        m.syncer.lastState m.mismatchSeen data signed = .ok () ∧
      (EventEnv.Executes env x → ∀ s', m.syncer.applyEvent (m.syncEvent env ev) = (.ok (), s') →
        s'.lastState.AgreesWith state)

section

variable {config : ExecutorConfig} {key : PubKey} {x : ExecutionModel} {w : Wire}

section

variable {prev : State} {signed : SignedHeader} {data : Data}

theorem SyncedTo.lastState (hset : ProducerSetting config key) {s : Store} {m : SyncNode}
    (h : SyncedTo config x s m) :
    m.codec = config.codec ∧ m.syncer.lastState.AgreesWith (s.tip config x) := by
  obtain ⟨cfg, events, m₀, hgenesis, hcodec, hinit, hexec, hstart, hrun⟩ := h.run
  have hpos : 0 < cfg.genesis.initialHeight := by
    rw [hgenesis]
    exact hset.initial_pos
  obtain ⟨hgenesis₀, hcodec₀, -⟩ := SyncNode.start_empty hpos hstart
  have hsha : ∀ bz, m₀.codec.sha256 bz ≠ [] := by
    rw [hcodec₀, hcodec]
    exact hset.sha256_ne
  obtain ⟨-, hgenesis', hcodec'⟩ := (SyncNode.SyncedInv.start hpos hstart).run hsha hrun
  have hchain := SyncNode.onChain_of_run hpos hinit hexec hstart hrun
  unfold SyncNode.OnChain at hchain
  have hall := hcodec'.trans (hcodec₀.trans hcodec)
  rw [hgenesis'.trans (hgenesis₀.trans hgenesis), hall, h.height_eq,
    ExecutionModel.stateAt_congr h.blocks_eq] at hchain
  exact ⟨hall, hchain⟩

theorem Built.validateBasicWithData (hset : ProducerSetting config key)
    (hbuilt : Built config key prev signed data) (hne : signed.signature ≠ [])
    (hverifies : w.verify key (config.codec.headerBytes signed.header) signed.signature =
      .ok true) {now : Time} (htime : timeOfUint64 signed.header.time ≤ now + maxClockDrift) :
    signed.validateBasicWithData w config.codec (defaultSignatureProvider config.codec) now
      data = .ok () := by
  have hproposer : signed.header.proposerAddress.length ≠ 0 := by
    rw [hbuilt.proposerAddress_eq, hset.proposer]
    exact fun hzero => hset.sha256_ne _ (length_eq_zero_iff.mp hzero)
  have hbasic : signed.header.validateBasic now = .ok () := by
    unfold Header.validateBasic
    rw [if_neg hproposer, if_neg hbuilt.time_ne_zero, if_neg (not_lt.mpr htime)]
  have hlength : signed.signature.length ≠ 0 :=
    fun hzero => hne (length_eq_zero_iff.mp hzero)
  have haddress : signed.header.proposerAddress = signed.signer.address := by
    rw [hbuilt.proposerAddress_eq, hbuilt.signer_eq]
  have hkey : signed.signer.pubKey = some key := by rw [hbuilt.signer_eq]
  have hpayload : ¬ ((config.codec.headerBytes signed.header).length = 0 ∨
      config.codec.headerBytes signed.header ∈ ([] : List Bytes)) := by
    simp [hset.headerBytes_ne]
  unfold SignedHeader.validateBasicWithData defaultSignatureProvider
  rw [hbasic]
  rw [if_neg hlength, if_neg (not_not.mpr haddress), hkey]
  dsimp only
  rw [SignedHeader.tryPayloads, if_neg hpayload, hverifies]

theorem Built.validate (hbuilt : Built config key prev signed data) :
    ChainSdk.validate config.codec signed data = .ok () := by
  obtain ⟨last, hmetadata⟩ := hbuilt.metadata_eq
  unfold ChainSdk.validate
  rw [hmetadata]
  simp [hbuilt.chainID_eq, hbuilt.dataHash_eq]

theorem Executor.Publishes.accepted (hset : ProducerSetting config key) {e : Executor}
    (hready : e.Ready config key x) (h : Publishes config w key x e e' signed data) :
    ∃ state, e'.store.getState = some state ∧
      Accepted config w x e.store signed data state := by
  obtain ⟨state, hstate, hagrees⟩ := h.state
  refine ⟨state, hstate, fun m hm env ev hheader hdata htime => ?_⟩
  obtain ⟨hcodec, hlast⟩ := hm.lastState hset
  constructor
  · refine validateBlock_ok_iff.mpr ⟨?_, ?_, h.built.validate⟩
    · exact h.built.validateBasicWithData hset h.signature_ne h.verifies htime
    · -- the producer has made the same check on a state that agrees
      refine State.AgreesWith.assertValidSequence (hlast.trans hready.last.symm) ?_ _ _ h.sequence
      rw [h.built.lastHeaderHash_eq, hready.last.lastHeaderHash_eq]
  · intro hexec s' happlied
    rcases m.syncer.applyEvent_cases (m.syncEvent env ev) with
      ⟨root, hroot, heq⟩ | ⟨err, heq, -⟩
    · rw [heq] at happlied
      obtain ⟨-, rfl⟩ := Prod.mk.inj happlied
      have hroot' := hexec _ _ _ _ _ hroot
      rw [hlast.appHash_eq, hheader, hdata] at hroot'
      refine State.AgreesWith.trans ?_ hagrees.symm
      show State.AgreesWith { State.nextState m.codec m.syncer.lastState ev.header.header root with
        daHeight := _ } _
      rw [hcodec, hheader, hroot']
      exact hlast.nextState _ _ _ _
    · rw [heq] at happlied
      exact absurd (Prod.mk.inj happlied).1 (by simp)

end

end

def ProducerNode.run (config : ExecutorConfig) (events : List ProducerEvent) : ProducerNode :=
  events.foldl step (fresh config)

/-- Take any run of a producer with a signer, with calls that fail, crashes and restarts, in
which no header time is zero: neither that of genesis, nor the timestamp of a batch. Every block
that a call of the run commits is accepted by every syncing node that has the blocks before it,
and leads it to the state the producer has stored, up to the DA height. -/
theorem produced_blocks_accepted (config : ExecutorConfig) (w : Wire) (key : PubKey)
    (x : ExecutionModel) (events : List ProducerEvent) (inp : ProduceInput)
    (hset : ProducerSetting config key)
    (hfaithful : ∀ p ∈ steps step (fresh config)
      (events ++ [.produce inp]), p.2.Faithful w key x p.1)
    (hgenesis : uint64OfTime config.genesis.startTime ≠ 0)
    (htimed : ∀ ev ∈ events ++ [.produce inp], ev.Timed) :
    ∀ header data, committed header data ∈
        (run config events).acts (.produce inp) →
      ∃ signed state, signed.header = header ∧
        (run config (events ++ [.produce inp])).executor.store.blocks
          header.height = some ⟨signed, data, signed.signature⟩ ∧
        (run config (events ++ [.produce inp])).executor.store.getState =
          some state ∧
        Accepted config w x (run config events).executor.store signed data
          state := by
  intro header data hcommitted
  rw [steps_append] at hfaithful
  have hinv : ProducedInv config key x (run config events) := by
    refine foldl_invariant step (ProducedInv config key x)
      (fun n ev => ev.Faithful w key x n ∧ ev.Timed)
      (fun n ev hinv hev => hinv.step hset hgenesis hev.1 hev.2) .fresh (fun p hp => ⟨?_, ?_⟩)
    · exact hfaithful p (mem_append_left _ hp)
    · exact steps_of_forall (fun ev hev => htimed ev (mem_append_left _ hev)) p hp
  have hlast : run config (events ++ [.produce inp]) =
      (run config events).step (.produce inp) := by
    unfold run
    rw [foldl_append, foldl_cons, foldl_nil]
  have hcall := hfaithful (run config events, .produce inp)
    (mem_append_right _ (mem_singleton.mpr rfl))
  rw [hlast]
  dsimp only [acts, step] at hcommitted ⊢
  by_cases hrun : (run config events).running = true
  · rw [if_pos hrun] at hcommitted ⊢
    have hready := hinv.ready hrun
    obtain ⟨-, hpublishes⟩ := hready.produceBlock hset hgenesis
      (htimed _ (mem_append_right _ (by simp))) hcall
    obtain ⟨signed, rfl, hpublished⟩ := hpublishes header data hcommitted
    obtain ⟨state, hstate, haccepted⟩ := hpublished.accepted hset hready
    exact ⟨signed, state, rfl, hpublished.stored, hstate, haccepted⟩
  · rw [if_neg hrun] at hcommitted
    exact absurd hcommitted not_mem_nil

/-! ## A small producer -/

def smallProducer (startTime : Time) : ExecutorConfig where
  genesis := ⟨"chain", startTime, 1, [1, 7], 1, 2⟩
  codec := chainCodec
  raftNode := false
  signer := true
  maxPendingHeadersAndData := 0
  basedSequencer := false

def smallKey : PubKey := ⟨0, [7]⟩

def smallExecution : ExecutionModel := ⟨[0], fun _ _ _ _ => [0]⟩

def smallInput : ProduceInput := .smooth ⟨⟨[]⟩, 5, []⟩ smallKey [0] 1 [7, 1]

def smallHeader (startTime : Time) : Header :=
  ⟨1, uint64OfTime startTime, "chain", ⟨0, 0⟩, [], dataHashForEmptyTxs, [0], [], [1, 7], none⟩

def smallData (startTime : Time) : Data := ⟨some ⟨"chain", 1, uint64OfTime startTime, []⟩, []⟩

theorem smallProducer_setting :
    ProducerSetting (smallProducer startTime) smallKey := by
  have hproposer : [1, 7] = keyAddress chainCodec smallKey := by decide
  have hempty : chainCodec.daCommitment [] = dataHashForEmptyTxs := by decide
  exact ⟨Nat.one_pos, rfl, hproposer, chainCodec_sha256_ne, fun _ => cons_ne_nil _ _, hempty⟩

theorem smallInput_timed (answer : Except String Signature) :
    (ProducerEvent.produce { smallInput with sign := answer }).Timed := by
  rintro _ ⟨⟩
  decide

theorem smallInput_faithful {w : Wire} {signature : Signature} (hne : signature ≠ [])
    (hverifies : ∀ header : Header, header.height = n.executor.newHeight →
      w.verify smallKey (n.executor.config.codec.headerBytes header) signature = .ok true) :
    (ProducerEvent.produce { smallInput with sign := .ok signature }).Faithful w smallKey
      smallExecution n := by
  refine ⟨fun k hk => (ok.inj hk).symm, fun header data store hobtained => ⟨?_, ?_⟩⟩
  · exact fun attempt root hroot => (ok.inj hroot).symm
  · rintro _ ⟨⟩
    exact ⟨hne, hverifies header.header hobtained.next.1⟩

theorem smallInput_signs {h : ℕ} (hcodec : n.executor.config.codec = chainCodec)
    (hheight : n.executor.newHeight = h) :
    (ProducerEvent.produce { smallInput with sign := .ok [7, UInt8.ofNat h] }).Faithful
      (tableWire [] []) smallKey smallExecution n := by
  refine smallInput_faithful (cons_ne_nil _ _) (fun header hheader => ?_)
  rw [hcodec, ← hheight, ← hheader]
  simp [tableWire, smallKey, chainCodec]

theorem smallRun_faithful :
    ∀ p ∈ steps step (fresh (smallProducer startTime))
      ([toyStart] ++ [.produce smallInput]),
      p.2.Faithful (tableWire [] []) smallKey smallExecution p.1 :=
  forall_mem_cons.mpr ⟨fun root hroot => (ok.inj hroot).symm,
    forall_mem_singleton.mpr (smallInput_signs rfl rfl)⟩

/-- A chain that starts at the Unix epoch: the producer commits its first block with the header
time zero, and no syncing node accepts it, whatever its clock says. -/
theorem zero_time_block_rejected :
    ProducerSetting (smallProducer 0) smallKey ∧
      (∀ p ∈ steps step (fresh (smallProducer 0))
        ([toyStart] ++ [.produce smallInput]),
        p.2.Faithful (tableWire [] []) smallKey smallExecution p.1) ∧
      committed (smallHeader 0) (smallData 0) ∈
        (run (smallProducer 0) [toyStart]).acts (.produce smallInput) ∧
      ∀ signed state, signed.header = smallHeader 0 →
        ¬ Accepted (smallProducer 0) (tableWire [] []) smallExecution
          (run (smallProducer 0) [toyStart]).executor.store signed (smallData 0)
          state := by
  refine ⟨smallProducer_setting 0, smallRun_faithful 0, by decide +kernel, ?_⟩
  intro signed state hheader haccepted
  -- a node that has just started
  have hstart : ∃ m, SyncNode.start { chainConfig with genesis := (smallProducer 0).genesis }
      empty = .ok m ∧ m.store.height = 0 ∧ ∀ h, m.store.blocks h = none :=
    ⟨_, rfl, rfl, fun _ => rfl⟩
  obtain ⟨m, hstart, hheight, hblocks⟩ := hstart
  have hsynced : SyncedTo (smallProducer 0) smallExecution
      (run (smallProducer 0) [toyStart]).executor.store m := by
    refine ⟨⟨_, [], m, rfl, rfl, rfl, fun p hp => absurd hp not_mem_nil, hstart, rfl⟩,
      hheight, fun h _ => ?_⟩
    rw [hblocks]
    rfl
  have hvalid := (haccepted m hsynced (chainEnv true)
    ⟨⟨signed, smallData 0, 0⟩, .sourceP2P, (0, 0)⟩ rfl rfl (by rw [hheader]; decide)).1
  obtain ⟨hbasic, -⟩ := validateBlock_ok_iff.mp hvalid
  unfold SignedHeader.validateBasicWithData at hbasic
  rw [hheader] at hbasic
  exact absurd hbasic (by simp [Header.validateBasic, smallHeader, uint64OfTime])

theorem produced_blocks_accepted_on_sample :
    committed (smallHeader 1) (smallData 1) ∈
        (run (smallProducer 1) [toyStart]).acts (.produce smallInput) ∧
      ∃ signed state, signed.header = smallHeader 1 ∧
        Accepted (smallProducer 1) (tableWire [] []) smallExecution
          (run (smallProducer 1) [toyStart]).executor.store signed (smallData 1)
          state := by
  have hcommitted : committed (smallHeader 1) (smallData 1) ∈
      (run (smallProducer 1) [toyStart]).acts (.produce smallInput) := by
    decide +kernel
  refine ⟨hcommitted, ?_⟩
  have htimed : ∀ ev ∈ [toyStart] ++ [.produce smallInput], ProducerEvent.Timed ev :=
    forall_mem_cons.mpr ⟨trivial, forall_mem_singleton.mpr (smallInput_timed (.ok [7, 1]))⟩
  obtain ⟨signed, state, hheader, -, -, haccepted⟩ :=
    produced_blocks_accepted (smallProducer 1) (tableWire [] []) smallKey smallExecution
      [toyStart] smallInput (smallProducer_setting 1) (smallRun_faithful 1) (by decide) htimed
      (smallHeader 1) (smallData 1) hcommitted
  exact ⟨signed, state, hheader, haccepted⟩

end ChainSdk

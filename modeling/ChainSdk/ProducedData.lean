/-
The chain a producer has committed, block by block: each was built on the state of the blocks below
it and is signed, and its data names the data of the block below.
-/
import ChainSdk.ProducerAgreement

namespace ChainSdk

open Function List Option ProducerNode

/-! ## Links between data -/

/-- What `LastDataHash` of the block at `h` should be: the hash of the data below, and nothing
for the first block. -/
def lastDataHash (config : ExecutorConfig) (blocks : ℕ → Option StoredBlock) (h : ℕ) : Hash :=
  if h ≤ config.genesis.initialHeight then []
  else
    match blocks (h - 1) with
    | none => []
    | some block => config.codec.dataHash block.data

def LinksData (config : ExecutorConfig) (blocks : ℕ → Option StoredBlock) (h : ℕ) (data : Data) :
    Prop :=
  data.metadata.map Metadata.lastDataHash = some (lastDataHash config blocks h)

section

variable {config : ExecutorConfig} {blocks : ℕ → Option StoredBlock} {h : ℕ}

theorem lastDataHash_congr {blocks' : ℕ → Option StoredBlock}
    (hsame : blocks' (h - 1) = blocks (h - 1)) :
    lastDataHash config blocks' h = lastDataHash config blocks h := by
  unfold lastDataHash
  rw [hsame]

theorem lastDataHash_of_block {block : StoredBlock} (hlater : config.genesis.initialHeight ≤ h)
    (hblock : blocks h = some block) :
    lastDataHash config blocks (h + 1) = config.codec.dataHash block.data := by
  unfold lastDataHash
  rw [if_neg (by omega), Nat.add_sub_cancel, hblock]

end

/-! ## Every block of the chain -/

/-- The block at `h` has all that a node looks at which has the blocks below. -/
structure Published (config : ExecutorConfig) (w : Wire) (key : PubKey) (x : ExecutionModel)
    (blocks : ℕ → Option StoredBlock) (h : ℕ) (block : StoredBlock) : Prop where
  built : Built config key (x.stateAt config.codec config.genesis blocks (h - 1)) block.header
    block.data
  sequence : ((x.stateAt config.codec config.genesis blocks (h - 1)).assertValidSequence true
    block.header.header).1 = .ok ()
  signature_ne : block.header.signature ≠ []
  verifies : w.verify key (config.codec.headerBytes block.header.header) block.header.signature =
    .ok true
  links : LinksData config blocks h block.data

/-- The chain a producer has committed, and what its next block will link to. -/
structure PublishedInv (config : ExecutorConfig) (w : Wire) (key : PubKey) (x : ExecutionModel)
    (n : ProducerNode) : Prop where
  blocks : ∀ h block, n.executor.store.blocks h = some block →
    Published config w key x n.executor.store.blocks h block
  pending : ∀ header data, n.executor.store.pendingHeader = some header →
    n.executor.store.pendingData = some data →
    header.header.height = n.executor.store.height + 1 →
    LinksData config n.executor.store.blocks (n.executor.store.height + 1) data
  info : ∀ info, n.executor.lastBlockInfo = some info →
    config.genesis.initialHeight ≤ n.executor.store.height →
    info.dataHash = lastDataHash config n.executor.store.blocks (n.executor.store.height + 1)

section

variable {config : ExecutorConfig} {key : PubKey} {x : ExecutionModel} {w : Wire}

theorem Published.update {blocks : ℕ → Option StoredBlock} {h k : ℕ} {block : StoredBlock}
    (hblock : Published config w key x blocks k block) (hk : k ≤ h + 1) (new : Option StoredBlock) :
    Published config w key x (Function.update blocks (h + 1) new) k block := by
  have hstate : x.stateAt config.codec config.genesis (Function.update blocks (h + 1) new) (k - 1) =
      x.stateAt config.codec config.genesis blocks (k - 1) :=
    ExecutionModel.stateAt_update (by omega) new
  have hlink : lastDataHash config (Function.update blocks (h + 1) new) k =
      lastDataHash config blocks k := by
    apply lastDataHash_congr
    exact Function.update_of_ne (by omega) _ _
  refine ⟨?_, ?_, hblock.signature_ne, hblock.verifies, ?_⟩
  · rw [hstate]
    exact hblock.built
  · rw [hstate]
    exact hblock.sequence
  · unfold LinksData
    rw [hlink]
    exact hblock.links

namespace Executor

variable {n : ProducerNode} {inp : ProduceInput} {header : SignedHeader} {data : Data}
  {store : Store}

theorem Ready.links (hset : ProducerSetting config key) (hready : n.executor.Ready config key x)
    (hinv : PublishedInv config w key x n) (hobtained : Obtained n.executor inp header data store) :
    LinksData config n.executor.store.blocks (n.executor.store.height + 1) data := by
  have hheight := hready.newHeight_eq hset
  rcases hobtained with hpending | ⟨batchData, -, hcreate⟩
  · obtain ⟨hheader, hdata⟩ := pendingFor_some hpending
    exact hinv.pending header data hheader hdata ((pendingFor_height hpending).trans hheight)
  obtain ⟨time, last, pubKey, validatorHash, hlast, -, -, -, rfl⟩ := createBlock_ok hcreate
  show some last.dataHash = _
  rw [hheight] at hlast
  rcases lastBlock_ok hlast with
    ⟨hlater, -, hinfo | ⟨block, hblock, rfl⟩⟩ | ⟨hfirst, -, rfl⟩
  · rw [hready.config_eq] at hlater
    rw [hinv.info last hinfo (by omega)]
  · rw [hready.config_eq] at hlater
    rw [Nat.add_sub_cancel] at hblock
    rw [lastDataHash_of_block (by omega) hblock, hready.config_eq]
    rfl
  · rw [hready.config_eq] at hfirst
    unfold lastDataHash
    rw [if_pos hfirst]

end Executor

section

variable {n : ProducerNode} (hset : ProducerSetting config key)
  (hproduced : ProducedInv config key x n) (hinv : PublishedInv config w key x n)
include hset hproduced hinv

theorem PublishedInv.produce
    (hgenesis : uint64OfTime config.genesis.startTime ≠ 0) {inp : ProduceInput}
    (htimed : (ProducerEvent.produce inp).Timed)
    (hfaithful : (ProducerEvent.produce inp).Faithful w key x n) :
    PublishedInv config w key x (n.step (.produce inp)) := by
  dsimp only [step]
  by_cases hrun : n.running = true
  swap
  · rw [if_neg hrun]
    exact hinv
  rw [if_pos hrun]
  have hready := hproduced.ready hrun
  rcases n.executor.produceBlock_cases inp with
    ⟨hkept, -⟩ | ⟨header, data, store, hobtained, -, -, hend⟩
  · refine ⟨?_, ?_, ?_⟩
    · rw [hkept.store_eq]
      exact hinv.blocks
    · rw [hkept.store_eq]
      exact hinv.pending
    · rw [hkept.store_eq, hkept.lastBlockInfo_eq]
      exact hinv.info
  obtain ⟨hbuilt, hheight, -, hsame, hblocks, hpendingHeader⟩ :=
    hready.obtained hset hgenesis htimed hfaithful.1 hobtained
  have hlinks := hready.links hset hinv hobtained
  rcases hend with ⟨hkept, -⟩ | ⟨root, signature, hsealed⟩
  · -- the block is left behind as pending
    refine ⟨?_, ?_, ?_⟩
    · rw [hkept.store_eq]
      rw [hblocks]
      exact hinv.blocks
    · rw [hkept.store_eq]
      intro header' data' hheader' hdata' hnext'
      rcases hobtained with hpending | ⟨batchData, hbatch, hcreate⟩
      · exact hinv.pending header' data' hheader' hdata' hnext'
      · obtain rfl := some.inj hdata'
        exact hlinks
    · rw [hkept.store_eq, hkept.lastBlockInfo_eq]
      rw [hblocks, hsame]
      exact hinv.info
  · -- the block is committed
    have hsigned : ({ header with signature := signature } : SignedHeader).header.height =
        store.height + 1 := by
      rw [hsame]
      exact hheight
    have hstore := hsealed.store_eq
    rw [Store.commitBatch_eq hsigned, hsame, hblocks] at hstore
    obtain ⟨-, hpublished⟩ := hready.publishes hset hgenesis htimed hfaithful hobtained hsealed
    have hnew : Published config w key x n.executor.store.blocks (n.executor.store.height + 1)
        ⟨{ header with signature := signature }, data, signature⟩ := by
      refine ⟨hpublished.built, ?_, hpublished.signature_ne, hpublished.verifies, hlinks⟩
      -- the producer has made the check on a state that agrees
      apply State.AgreesWith.assertValidSequence hready.last.symm _ _ _ hsealed.sequence
      exact hbuilt.lastHeaderHash_eq.trans hready.last.symm.lastHeaderHash_eq
    refine ⟨?_, ?_, ?_⟩
    · rw [hstore]
      dsimp only
      refine forall_update_some (fun k block _ hblock => ?_) (hnew.update le_rfl _)
      have hstored := (hready.canonical.stored_iff k).mp (by simp [hblock])
      exact (hinv.blocks k block hblock).update (Nat.le_succ_of_le hstored.2) _
    · -- what is pending is the block just committed
      rw [hstore]
      dsimp only
      intro header' data' hheader' _ hnext'
      obtain rfl := some.inj (hpendingHeader.symm.trans hheader')
      omega
    · intro info hinfo hge
      obtain rfl := some.inj (hsealed.lastBlockInfo_eq.symm.trans hinfo)
      rw [hstore] at hge ⊢
      dsimp only at hge ⊢
      rw [hready.config_eq, lastDataHash_of_block hge (update_self _ _ _)]

theorem PublishedInv.start
    {inp : Executor.StartInput} (hinit : ∀ root, inp.initChain = .ok root → root = x.initChain) :
    PublishedInv config w key x (n.step (.start inp)) := by
  dsimp only [step]
  rcases hproduced.initializeState hset hinit with
    ⟨-, hsame⟩ | ⟨state, e, heq, hconfig, -, -, hstarted, hcache⟩
  · rcases hsame with heq | ⟨state, -, heq⟩
    all_goals
      rw [heq]
      exact ⟨hinv.blocks, hinv.pending, hinv.info⟩
  · rw [heq]
    refine ⟨?_, ?_, ?_⟩
    · rw [hstarted.blocks_eq]
      exact hinv.blocks
    · intro header data hheader hdata hnext
      have hold := hstarted.pendingHeader_eq.symm.trans hheader
      rw [hstarted.pending_of header hold] at hnext ⊢
      rw [hstarted.blocks_eq]
      exact hinv.pending header data hold (hstarted.pendingData_eq.symm.trans hdata) hnext
    · intro info hinfo hge
      obtain ⟨block, hblock, rfl⟩ := hcache info hinfo (hconfig.symm ▸ hge)
      rw [lastDataHash_of_block hge hblock, hconfig]
      rfl

theorem PublishedInv.step
    (hgenesis : uint64OfTime config.genesis.startTime ≠ 0) {ev : ProducerEvent}
    (hfaithful : ev.Faithful w key x n) (htimed : ev.Timed) :
    PublishedInv config w key x (n.step ev) := by
  cases ev with
  | produce inp => exact hinv.produce hset hproduced hgenesis htimed hfaithful
  | start inp => exact hinv.start hset hproduced hfaithful
  | crash =>
    exact ⟨hinv.blocks, hinv.pending,
      fun info hinfo => absurd hinfo (by simp [ProducerNode.step, Executor.new])⟩
  | stop headerDeleted dataDeleted =>
    dsimp only [ProducerNode.step]
    -- a pending block that is left has not been touched
    rcases n.executor.stop_cases headerDeleted dataDeleted with heq | ⟨-, data, -, heq⟩
    · rw [heq]
      exact ⟨hinv.blocks, hinv.pending, hinv.info⟩
    · rw [heq]
      exact ⟨hinv.blocks, fun header data hheader => absurd hheader (by simp), hinv.info⟩

end

theorem published_of_run (hset : ProducerSetting config key) {events : List ProducerEvent}
    (hfaithful : ∀ p ∈ Runs.steps step (fresh config) events,
      p.2.Faithful w key x p.1) (hgenesis : uint64OfTime config.genesis.startTime ≠ 0)
    (htimed : ∀ ev ∈ events, ProducerEvent.Timed ev) :
    ProducedInv config key x (run config events) ∧
      PublishedInv config w key x (run config events) := by
  refine Runs.foldl_invariant step
    (fun n => ProducedInv config key x n ∧ PublishedInv config w key x n)
    (fun n ev => ev.Faithful w key x n ∧ ev.Timed) ?_ ⟨.fresh, ?_⟩ (fun p hp => ⟨?_, ?_⟩)
  · intro n ev hn hev
    exact ⟨hn.1.step hset hgenesis hev.1 hev.2, hn.2.step hset hn.1 hgenesis hev.1 hev.2⟩
  · exact ⟨fun h block hblock => absurd hblock
        (by simp [fresh, Executor.new, Store.empty]),
      fun header data hheader => absurd hheader
        (by simp [fresh, Executor.new, Store.empty]),
      fun info hinfo => absurd hinfo (by simp [fresh, Executor.new])⟩
  · exact hfaithful p hp
  · exact Runs.steps_of_forall htimed p hp

/-- Whatever calls of a producer fail, and wherever it crashes: a syncing node that has its blocks
up to a height is in the state recorded there. -/
theorem follower_agrees_with_producer (hset : ProducerSetting config key)
    {events : List ProducerEvent} {s : Store} {m : SyncNode} {h : ℕ}
    (hfaithful : ∀ p ∈ Runs.steps step (fresh config) events,
      p.2.Faithful w key x p.1) (hgenesis : uint64OfTime config.genesis.startTime ≠ 0)
    (htimed : ∀ ev ∈ events, ProducerEvent.Timed ev)
    (hstore : (run config events).executor.store = s)
    (hlow : config.genesis.initialHeight ≤ h) (hle : h ≤ s.height)
    (hm : SyncedTo config x { s with height := h } m) :
    ∃ st, s.states h = some st ∧ m.syncer.lastState.AgreesWith st := by
  have hpos := hset.initial_pos
  have hproduced := (published_of_run hset hfaithful hgenesis htimed).1.canonical_or_new
  rw [hstore] at hproduced
  rcases hproduced with hcanonical | ⟨-, rfl⟩
  · obtain ⟨st, hst, hagrees⟩ := hcanonical.states h (by omega) hle
    exact ⟨st, hst, (hm.lastState hset).2.trans hagrees.symm⟩
  · have hzero : h ≤ 0 := hle
    omega

end

theorem follower_agrees_on_two_blocks : ∃ (m : SyncNode) (s : Store) (st : State),
    m.store.height = 2 ∧ s.states 2 = some st ∧ m.syncer.lastState.AgreesWith st := by
  have hfaithful : ∀ p ∈ Runs.steps step (fresh (smallProducer 1))
      [toyStart, .produce smallInput, .produce { smallInput with sign := .ok [7, 2] }],
      p.2.Faithful (tableWire [] []) smallKey smallExecution p.1 :=
    forall_mem_cons.mpr ⟨fun _ hroot => (Except.ok.inj hroot).symm, forall_mem_cons.mpr
      ⟨smallInput_signs rfl rfl, forall_mem_singleton.mpr (smallInput_signs rfl rfl)⟩⟩
  have hexec : (chainEnv true).Executes smallExecution := by
    rintro _ _ _ _ _ ⟨⟩
    rfl
  obtain ⟨st, hagrees⟩ := follower_agrees_with_producer (smallProducer_setting 1) hfaithful
    (by decide) (forall_mem_cons.mpr ⟨trivial, forall_mem_cons.mpr ⟨smallInput_timed (.ok [7, 1]),
      forall_mem_singleton.mpr (smallInput_timed _)⟩⟩) rfl (Nat.le_succ 1) (by decide +kernel)
    ⟨⟨{ chainConfig with genesis := (smallProducer 1).genesis }, [(chainEnv true,
      ⟨⟨⟨smallHeader 1, [7, 1], ⟨some smallKey, [1, 7]⟩⟩, smallData 1, 0⟩, .sourceP2P, (0, 0)⟩),
      (chainEnv true, ⟨⟨⟨{ smallHeader 5 with height := 2, lastHeaderHash := [1, 1] }, [7, 2],
        ⟨some smallKey, [1, 7]⟩⟩, ⟨some ⟨"chain", 2, 5, chainCodec.dataHash (smallData 1)⟩, []⟩, 0⟩,
        .sourceP2P, (0, 0)⟩)],
      _, rfl, rfl, rfl, by simp [hexec], rfl, rfl⟩, rfl, fun _ _ => rfl⟩
  exact ⟨_, _, st, rfl, hagrees⟩

end ChainSdk

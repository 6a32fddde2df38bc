/-
What the block producer commits is what a syncing node accepts.

`ProduceBlock` does not validate its own blocks: it builds header and data from its last state and
its caches, signs, and only compares the header with the state. So acceptance elsewhere rests on the
way a block is built.
-/
import ChainSdk.ChainStates
import ChainSdk.ExecutorSafety

namespace ChainSdk

open Except ExecutionModel Executor Function Option

/-! ## One call of the producer -/

variable {height : ℕ} {data : Data} {root : Hash} {prev : State} {header : SignedHeader}
  {batchData : BatchData} {e : Executor} {inp : ProduceInput}

namespace Executor

theorem signHeader_ok {signature : Signature}
    (hsigner : e.config.signer = true) (h : e.signHeader inp = .ok signature) :
    inp.sign = .ok signature := by
  unfold signHeader at h
  rw [if_pos hsigner] at h
  rcases hanswer : inp.sign with err | given
  · simp [hanswer] at h
  · rw [hanswer] at h
    rw [ok.inj h]

theorem executeAttempts_ok :
    ∀ {remaining attempt : ℕ}, 0 < remaining → attempt + remaining = maxRetriesBeforeHalt + 1 →
      executeAttempts inp remaining attempt = .ok root →
      ∃ k, inp.executeTxs k = .ok root := by
  intro remaining
  induction remaining with
  | zero => exact fun hpos => absurd hpos (Nat.lt_irrefl 0)
  | succ remaining ih =>
    intro attempt _ hsum h
    rw [executeAttempts] at h
    rcases hanswer : inp.executeTxs attempt with err | appHash
    · rw [hanswer] at h
      -- the last attempt does not go on
      split_ifs at h with hlast hcancelled
      exact ih (by omega) (by omega) h
    · rw [hanswer] at h
      exact ⟨attempt, by rw [hanswer, ok.inj h]⟩

theorem executeTxsWithRetry_ok
    (h : executeTxsWithRetry inp = .ok root) : ∃ k, inp.executeTxs k = .ok root := by
  exact executeAttempts_ok (by decide) (Nat.add_comm _ _) h

end Executor

/-! ## How a block is built -/

/-- The block names its predecessor, its time is not zero, its data is its own, and it carries the
proposer's address and key. -/
structure Built (config : ExecutorConfig) (key : PubKey) (prev : State) (header : SignedHeader)
    (data : Data) : Prop where
  chainID_eq : header.header.chainID = config.genesis.chainID
  lastHeaderHash_eq : header.header.lastHeaderHash = prev.lastHeaderHash
  time_ne_zero : header.header.time ≠ 0
  dataHash_eq : header.header.dataHash = config.codec.daCommitment data.txs
  proposerAddress_eq : header.header.proposerAddress = config.genesis.proposerAddress
  signer_eq : header.signer = ⟨some key, config.genesis.proposerAddress⟩
  metadata_eq : ∃ last, data.metadata =
    some ⟨config.genesis.chainID, header.header.height, header.header.time, last⟩

/-- A producer with a signer: what its configuration, its key and the functions it uses
guarantee. -/
structure ProducerSetting (config : ExecutorConfig) (key : PubKey) : Prop where
  initial_pos : 0 < config.genesis.initialHeight
  signer : config.signer = true
  proposer : config.genesis.proposerAddress = keyAddress config.codec key
  sha256_ne : ∀ bz, config.codec.sha256 bz ≠ []
  headerBytes_ne : ∀ header, config.codec.headerBytes header ≠ []
  empty_commitment : config.codec.daCommitment [] = dataHashForEmptyTxs

section

variable {config : ExecutorConfig} {key : PubKey} {x : ExecutionModel}

def StoredBlock.info (c : Codec) (block : StoredBlock) : LastBlockInfo :=
  ⟨c.headerHash block.header.header, c.dataHash block.data, block.signature⟩

def Executor.CachesTip (e : Executor) : Prop :=
  ∀ info, e.lastBlockInfo = some info → e.config.genesis.initialHeight ≤ e.store.height →
    ∃ block, e.store.blocks e.store.height = some block ∧ info = block.info e.config.codec

theorem Executor.warmCaches_cachesTip {state : State} {store : Store}
    (hpos : 0 < e.config.genesis.initialHeight) (hstored : ∀ h, (e.store.blocks h).isSome ↔
      e.config.genesis.initialHeight ≤ h ∧ h ≤ e.store.height)
    (hheight : state.lastBlockHeight = e.store.height) (hframe : ReplayFrame e.store store) :
    CachesTip { e.warmCaches state with store := store } := by
  intro info hinfo hge
  dsimp only at hinfo hge ⊢
  rw [hframe.height_eq] at hge ⊢
  obtain ⟨block, hblock⟩ := isSome_iff_exists.mp ((hstored _).mpr ⟨hge, le_rfl⟩)
  refine ⟨block, by rw [hframe.blocks_eq, hblock], ?_⟩
  unfold warmCaches at hinfo ⊢
  rw [hheight, hblock] at hinfo
  dsimp only at hge hinfo
  rw [if_pos (hpos.trans_le hge)] at hinfo
  exact (some.inj hinfo).symm

theorem Executor.lastBlock_ok {time : ℕ}
    {last : LastBlockInfo} (h : e.lastBlock height batchData = .ok (time, last)) :
    e.config.genesis.initialHeight < height ∧ time = uint64OfTime batchData.time ∧
        (e.lastBlockInfo = some last ∨ ∃ block, e.store.blocks (height - 1) = some block ∧
          last = block.info e.config.codec) ∨
      height ≤ e.config.genesis.initialHeight ∧
        time = uint64OfTime e.config.genesis.startTime ∧ last = ⟨[], [], []⟩ := by
  unfold lastBlock at h
  by_cases hlater : e.config.genesis.initialHeight < height
  · rw [if_pos hlater] at h
    refine .inl ⟨hlater, ?_⟩
    rcases hinfo : e.lastBlockInfo with _ | info
    · rw [hinfo] at h
      rcases hblock : e.store.blocks (height - 1) with _ | block
      · simp [hblock] at h
      · rw [hblock] at h
        obtain ⟨rfl, rfl⟩ := Prod.mk.inj (ok.inj h)
        exact ⟨rfl, .inr ⟨block, rfl, rfl⟩⟩
    · rw [hinfo] at h
      obtain ⟨rfl, rfl⟩ := Prod.mk.inj (ok.inj h)
      exact ⟨rfl, .inl rfl⟩
  · rw [if_neg hlater] at h
    obtain ⟨rfl, rfl⟩ := Prod.mk.inj (ok.inj h)
    exact .inr ⟨Nat.not_lt.mp hlater, rfl, rfl⟩

theorem Executor.createBlock_built (hset : ProducerSetting config key) (hconfig : e.config = config)
    (hkey : ∀ k, inp.getPublic = .ok k → k = key)
    (hlast : ∀ time last, e.lastBlock height batchData = .ok (time, last) →
      last.headerHash = prev.lastHeaderHash ∧ time ≠ 0)
    (h : e.createBlock height batchData inp = .ok (header, data)) :
    Built config key prev header data := by
  obtain ⟨time, last, pubKey, validatorHash, hlb, hpublic, -, rfl, rfl⟩ :=
    createBlock_ok h
  obtain ⟨hhash, htime⟩ := hlast time last hlb
  have hsigner : pubKey = some key := by
    unfold publicKey at hpublic
    rw [hconfig, if_pos hset.signer] at hpublic
    split at hpublic
    · simp at hpublic
    · rename_i k hk
      rw [← ok.inj hpublic, hkey k hk]
  subst hsigner hconfig
  refine ⟨rfl, hhash, htime, ?_, rfl, rfl, last.dataHash, rfl⟩
  -- empty data is marked with the constant instead of its commitment
  split_ifs with hempty
  · rw [List.length_eq_zero_iff.mp hempty, hset.empty_commitment]
  · rfl

end

/-! ## The store of a producer -/

namespace Store

def tip (config : ExecutorConfig) (x : ExecutionModel) (s : Store) : State :=
  x.stateAt config.codec config.genesis s.blocks s.height

/-- The store holds a chain without gaps, and for each height the state of its blocks. -/
structure Canonical (config : ExecutorConfig) (x : ExecutionModel) (s : Store) : Prop where
  initial_le : config.genesis.initialHeight ≤ s.height + 1
  stored_iff : ∀ h, (s.blocks h).isSome ↔ config.genesis.initialHeight ≤ h ∧ h ≤ s.height
  height_eq : ∀ h block, s.blocks h = some block → block.header.header.height = h
  states : ∀ h, config.genesis.initialHeight ≤ h + 1 → h ≤ s.height →
    ∃ st, s.states h = some st ∧
      st.AgreesWith (x.stateAt config.codec config.genesis s.blocks h)

variable {config : ExecutorConfig} {x : ExecutionModel} {s : Store}

section

variable {h : ℕ} {block : StoredBlock} {st : State} (hs : s.Canonical config x)
include hs

theorem Canonical.none_above (hlt : s.height < h) :
    s.blocks h = none := by
  rw [← not_isSome_iff_eq_none, hs.stored_iff]
  omega

theorem Canonical.stateAt_genesis (hlt : h < config.genesis.initialHeight) :
    x.stateAt config.codec config.genesis s.blocks h =
      genesisState config.genesis x.initChain := by
  refine stateAt_of_none (fun k hk => ?_)
  rw [← not_isSome_iff_eq_none, hs.stored_iff]
  omega

theorem Canonical.stateAt_block (hpos : 0 < config.genesis.initialHeight)
    (hblock : s.blocks h = some block) :
    x.stateAt config.codec config.genesis s.blocks h =
      x.applyBlock config.codec (x.stateAt config.codec config.genesis s.blocks (h - 1))
        block.header.header block.data.txs := by
  have hstored := (hs.stored_iff h).mp (by simp [hblock])
  obtain ⟨k, rfl⟩ : ∃ k, h = k + 1 := ⟨h - 1, by omega⟩
  exact stateAt_succ_some hblock

theorem Canonical.stateAt_height (hpos : 0 < config.genesis.initialHeight)
    (hge : config.genesis.initialHeight ≤ h + 1) (hle : h ≤ s.height) :
    (x.stateAt config.codec config.genesis s.blocks h).lastBlockHeight = h := by
  by_cases hlt : h < config.genesis.initialHeight
  · rw [hs.stateAt_genesis hlt]
    show config.genesis.initialHeight - 1 = h
    omega
  · obtain ⟨block, hblock⟩ := isSome_iff_exists.mp
      ((hs.stored_iff h).mpr ⟨Nat.not_lt.mp hlt, hle⟩)
    rw [hs.stateAt_block hpos hblock]
    exact hs.height_eq h block hblock

theorem Canonical.savePendingBlock (header : SignedHeader)
    (data : Data) : (s.savePendingBlock header data).Canonical config x :=
  ⟨hs.initial_le, hs.stored_iff, hs.height_eq, hs.states⟩

theorem Canonical.updateState (hst : st.AgreesWith
      (x.stateAt config.codec config.genesis s.blocks st.lastBlockHeight)) :
    (s.updateState st).Canonical config x := by
  refine ⟨hs.initial_le, hs.stored_iff, hs.height_eq, fun h hge hle => ?_⟩
  by_cases hh : h = st.lastBlockHeight
  · subst hh
    exact ⟨st, update_self _ _ _, hst⟩
  · obtain ⟨st', hst', hagrees⟩ := hs.states h hge hle
    exact ⟨st', by rw [← hst']; exact update_of_ne hh _ _, hagrees⟩

theorem Canonical.commitBatch (hheight : header.header.height = s.height + 1) (hst : st.AgreesWith
      (x.applyBlock config.codec (s.tip config x) header.header data.txs)) :
    (commitBatch s header data st).Canonical config x ∧
      (commitBatch s header data st).tip config x =
        x.applyBlock config.codec (s.tip config x) header.header data.txs := by
  have hstHeight : st.lastBlockHeight = s.height + 1 := hst.lastBlockHeight_eq.trans hheight
  rw [commitBatch_eq hheight, hstHeight]
  have hnew : x.stateAt config.codec config.genesis
      (update s.blocks (s.height + 1) (some ⟨header, data, header.signature⟩))
      (s.height + 1) = x.applyBlock config.codec (s.tip config x) header.header data.txs := by
    rw [stateAt_succ_some (update_self _ _ _), stateAt_update le_rfl]
    rfl
  have hinitial := hs.initial_le
  refine ⟨⟨by dsimp only; omega, fun h => ?_, ?_, fun h hge hle => ?_⟩, hnew⟩
  · dsimp only
    by_cases hh : h = s.height + 1
    · rw [hh]
      simpa using hinitial
    · rw [update_of_ne hh, hs.stored_iff]
      omega
  · exact forall_update_some (fun h block _ => hs.height_eq h block) hheight
  · dsimp only at hle ⊢
    by_cases hh : h = s.height + 1
    · rw [hh, update_self, hnew]
      exact ⟨st, rfl, hst⟩
    · rw [update_of_ne hh, stateAt_update (by omega)]
      exact hs.states h hge (by omega)

/-! ## Replay -/

theorem Canonical.replayPrevState (hpos : 0 < config.genesis.initialHeight)
    (hblock : s.blocks h = some block)
    (hprev : replayPrevState config.genesis s block h = some prev) :
    prev.version = (x.stateAt config.codec config.genesis s.blocks (h - 1)).version ∧
      prev.chainID = (x.stateAt config.codec config.genesis s.blocks (h - 1)).chainID ∧
      prev.initialHeight =
        (x.stateAt config.codec config.genesis s.blocks (h - 1)).initialHeight := by
  have hstored := (hs.stored_iff h).mp (by simp [hblock])
  rcases replayPrevState_cases hprev with ⟨hfirst, _, rfl⟩ | ⟨hfirst, hprev⟩
  · rw [hs.stateAt_genesis (by omega)]
    exact ⟨rfl, rfl, rfl⟩
  · obtain ⟨st, hst, hagrees⟩ := hs.states (h - 1) (by omega) (by omega)
    obtain rfl := some.inj (hst.symm.trans hprev)
    exact ⟨hagrees.version_eq, hagrees.chainID_eq, hagrees.initialHeight_eq⟩

theorem Canonical.syncToHeight
    (hpos : 0 < config.genesis.initialHeight) (env : ReplayEnv) (target : ℕ) :
    (ChainSdk.syncToHeight config.codec config.genesis env s target).2.Canonical config x := by
  refine syncToHeight_induct (fun s h block prev root hs hblock hprev hroot => ?_) hs target
  have hstored := (hs.stored_iff h).mp (by simp [hblock])
  obtain ⟨expected, hexpected, hagrees⟩ := hs.states h (by omega) hstored.2
  obtain ⟨hversion, hchainID, hinitial⟩ := hs.replayPrevState hpos hblock hprev
  have hheight : (prev.nextState config.codec block.header.header root).lastBlockHeight = h :=
    hs.height_eq h block hblock
  refine hs.updateState ?_
  rw [hheight]
  -- the root has been compared with the stored state's
  have happ := (hroot expected hexpected).trans hagrees.appHash_eq
  rw [hs.stateAt_block hpos hblock] at happ ⊢
  exact ⟨hversion, hchainID, hinitial, rfl, rfl, rfl, happ⟩

end

end Store

end ChainSdk

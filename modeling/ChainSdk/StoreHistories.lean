/-
The stores a node leaves behind: by producing, by syncing, and by one after the other, with failed
starts, crashes and replays in between.

Both kinds of node write a block and its state in one batch, on top of the last one, and both begin
a new chain with the state of genesis.
-/
import ChainSdk.ProducedBlocks

namespace ChainSdk

open Except Executor Function Option ProducerNode Store SyncNode Syncer

/-! ## States that belong to a chain -/

/-- The fields every state of a chain has from its genesis. -/
structure State.OfGenesis (genesis : Genesis) (st : State) : Prop where
  version_eq : st.version = ⟨0, 0⟩
  chainID_eq : st.chainID = genesis.chainID
  initialHeight_eq : st.initialHeight = genesis.initialHeight

variable {data : Data} {e : Executor} {genesis : Genesis} {block : StoredBlock} {s : Store}
  {header : SignedHeader} {n : ProducerNode} {st : State}

theorem State.OfGenesis.nextState (h : st.OfGenesis genesis)
    (c : Codec) (header : Header) (root : Hash) (daHeight : ℕ) :
    State.OfGenesis genesis { st.nextState c header root with daHeight := daHeight } :=
  ⟨h.version_eq, h.chainID_eq, h.initialHeight_eq⟩

/-- A state is one of height `h` over `blocks`: it carries that height, and the time and the
hash of the block there, if there is one. -/
structure State.Records (genesis : Genesis) (c : Codec) (blocks : ℕ → Option StoredBlock) (h : ℕ)
    (st : State) : Prop extends State.OfGenesis genesis st where
  lastBlockHeight_eq : st.lastBlockHeight = h
  lastBlockTime_eq : ∀ block, blocks h = some block →
    st.lastBlockTime = timeOfUint64 block.header.header.time
  lastHeaderHash_eq : ∀ block, blocks h = some block →
    st.lastHeaderHash = c.headerHash block.header.header

section

variable {genesis : Genesis} {c : Codec} {blocks : ℕ → Option StoredBlock} {h : ℕ}

theorem State.OfGenesis.records {prev : State}
    (hprev : prev.OfGenesis genesis) (hblock : blocks h = some block)
    (hheight : block.header.header.height = h) (root : Hash) (daHeight : ℕ) :
    State.Records genesis c blocks h
      { prev.nextState c block.header.header root with daHeight := daHeight } := by
  refine ⟨hprev.nextState c _ root daHeight, hheight, ?_, ?_⟩
  all_goals
    intro block' hblock'
    obtain rfl := some.inj (hblock.symm.trans hblock')
    rfl

theorem State.Records.congr {blocks' : ℕ → Option StoredBlock}
    (hst : st.Records genesis c blocks h) (hsame : blocks' h = blocks h) :
    st.Records genesis c blocks' h := by
  refine ⟨hst.toOfGenesis, hst.lastBlockHeight_eq, ?_, ?_⟩
  · rw [hsame]
    exact hst.lastBlockTime_eq
  · rw [hsame]
    exact hst.lastHeaderHash_eq

end

namespace Store

/-- No chain has begun in the store. -/
structure Blank (s : Store) : Prop where
  height_eq : s.height = 0
  blocks_eq : ∀ h, s.blocks h = none
  states_eq : ∀ h, s.states h = none

/-- The store holds a chain without gaps, and a state for each height from that of genesis
on. -/
structure Recorded (genesis : Genesis) (c : Codec) (s : Store) : Prop where
  initial_le : genesis.initialHeight ≤ s.height + 1
  stored_iff : ∀ h, (s.blocks h).isSome ↔ genesis.initialHeight ≤ h ∧ h ≤ s.height
  height_eq : ∀ h block, s.blocks h = some block → block.header.header.height = h
  states : ∀ h, genesis.initialHeight ≤ h + 1 → h ≤ s.height →
    ∃ st, s.states h = some st ∧ st.Records genesis c s.blocks h

variable {genesis : Genesis} {c : Codec} {s s' : Store}

section

variable {h : ℕ} {prev : State} (hs : s.Recorded genesis c)
include hs

theorem Recorded.none_above (hlt : s.height < h) :
    s.blocks h = none := by
  rw [← not_isSome_iff_eq_none, hs.stored_iff]
  omega

theorem Recorded.getState :
    ∃ st, s.getState = some st ∧ st.Records genesis c s.blocks s.height :=
  hs.states s.height hs.initial_le le_rfl

theorem Recorded.congr (hheight : s'.height = s.height)
    (hblocks : s'.blocks = s.blocks) (hstates : s'.states = s.states) :
    s'.Recorded genesis c := by
  refine ⟨?_, ?_, ?_, ?_⟩
  · rw [hheight]
    exact hs.initial_le
  · rw [hblocks, hheight]
    exact hs.stored_iff
  · rw [hblocks]
    exact hs.height_eq
  · rw [hblocks, hheight, hstates]
    exact hs.states

theorem Recorded.updateState
    (hst : st.Records genesis c s.blocks h) : (s.updateState st).Recorded genesis c := by
  refine ⟨hs.initial_le, hs.stored_iff, hs.height_eq, fun k hge hle => ?_⟩
  by_cases hk : k = h
  · subst hk
    refine ⟨st, ?_, hst⟩
    show update s.states st.lastBlockHeight (some st) k = some st
    rw [hst.lastBlockHeight_eq, update_self]
  · obtain ⟨old, hold, hrecords⟩ := hs.states k hge hle
    refine ⟨old, ?_, hrecords⟩
    show update s.states st.lastBlockHeight (some st) k = some old
    rw [hst.lastBlockHeight_eq, update_of_ne hk, hold]

theorem Recorded.commit {root : Hash} {daHeight : ℕ}
    (hprev : prev.OfGenesis genesis) (hheight : header.header.height = s.height + 1) :
    (commitBatch s header data
      { prev.nextState c header.header root with daHeight := daHeight }).Recorded genesis c := by
  have hstHeight : ({ prev.nextState c header.header root with
      daHeight := daHeight } : State).lastBlockHeight = s.height + 1 := hheight
  have hinitial := hs.initial_le
  rw [commitBatch_eq hheight, hstHeight]
  refine ⟨by dsimp only; omega, fun h => ?_, ?_, fun h hge hle => ?_⟩
  · dsimp only
    by_cases hh : h = s.height + 1
    · rw [hh]
      simpa using hinitial
    · rw [update_of_ne hh, hs.stored_iff]
      omega
  · exact forall_update_some (fun h block _ => hs.height_eq h block) hheight
  · dsimp only at hle ⊢
    by_cases hh : h = s.height + 1
    · rw [hh, update_self]
      exact ⟨_, rfl, hprev.records (update_self _ _ _) hheight root daHeight⟩
    · obtain ⟨st, hst, hrecords⟩ := hs.states h hge (by omega)
      rw [update_of_ne hh]
      exact ⟨st, hst, hrecords.congr (update_of_ne hh _ _)⟩

/-! ## Replays -/

theorem Recorded.replayPrevState (hpos : 0 < genesis.initialHeight)
    (hblock : s.blocks h = some block)
    (hprev : replayPrevState genesis s block h = some prev) : prev.OfGenesis genesis := by
  have hstored := (hs.stored_iff h).mp (by simp [hblock])
  rcases replayPrevState_cases hprev with ⟨-, _, rfl⟩ | ⟨hfirst, hprev⟩
  · exact ⟨rfl, rfl, rfl⟩
  · obtain ⟨st, hst, hrecords⟩ := hs.states (h - 1) (by omega) (by omega)
    obtain rfl := some.inj (hst.symm.trans hprev)
    exact hrecords.toOfGenesis

theorem Recorded.syncToHeight (hpos : 0 < genesis.initialHeight) (env : ReplayEnv) (target : ℕ) :
    (ChainSdk.syncToHeight c genesis env s target).2.Recorded genesis c := by
  refine syncToHeight_induct (fun s h block prev root hs hblock hprev _ => ?_) hs target
  exact hs.updateState ((hs.replayPrevState hpos hblock hprev).records hblock
    (hs.height_eq h block hblock) root prev.daHeight)

end

/-! ## Starts -/

def Loads (genesis : Genesis) (s : Store) (st : State) : Prop :=
  s.getState = some st ∨ s.getState = none ∧ ∃ root, st = genesisState genesis root

theorem recorded_of_loads (hpos : 0 < genesis.initialHeight)
    (hs : s.Recorded genesis c ∨ s.Blank) (hload : Loads genesis s st) :
    ((s.setHeight st.lastBlockHeight).updateState st).Recorded genesis c ∧
      st.OfGenesis genesis ∧
      st.lastBlockHeight = ((s.setHeight st.lastBlockHeight).updateState st).height ∧
      s.blocks (st.lastBlockHeight + 1) = none := by
  rcases hs with hs | hblank
  · obtain ⟨old, hold, hrecords⟩ := hs.getState
    have hst : st = old := by
      rcases hload with hload | ⟨hnone, -⟩
      · exact some.inj (hload.symm.trans hold)
      · simp [hold] at hnone
    subst hst
    have hwrite : s.setHeight st.lastBlockHeight = s := if_pos hrecords.lastBlockHeight_eq.le
    rw [hwrite]
    refine ⟨hs.updateState hrecords, hrecords.toOfGenesis, hrecords.lastBlockHeight_eq, ?_⟩
    apply hs.none_above
    rw [hrecords.lastBlockHeight_eq]
    exact Nat.lt_succ_self _
  · obtain ⟨root, rfl⟩ : ∃ root, st = genesisState genesis root := by
      rcases hload with hload | ⟨-, hroot⟩
      · unfold Store.getState at hload
        simp [hblank.states_eq] at hload
      · exact hroot
    have hlast : (genesisState genesis root).lastBlockHeight =
        genesis.initialHeight - 1 := rfl
    have hheight : (s.setHeight (genesis.initialHeight - 1)).height =
        genesis.initialHeight - 1 := by
      have hzero := hblank.height_eq
      unfold setHeight
      split_ifs with hle
      · omega
      · rfl
    have hblocks : (s.setHeight (genesis.initialHeight - 1)).blocks = s.blocks := by
      unfold setHeight
      split_ifs <;> rfl
    rw [hlast]
    refine ⟨⟨?_, fun h => ?_, fun h block hblock => ?_, fun h hge hle => ?_⟩, ⟨rfl, rfl, rfl⟩,
      hheight.symm, hblank.blocks_eq _⟩
    · show genesis.initialHeight ≤ (s.setHeight _).height + 1
      omega
    · show ((s.setHeight _).blocks h).isSome ↔ _ ∧ h ≤ (s.setHeight _).height
      rw [hblocks, hblank.blocks_eq]
      simp
      omega
    · change (s.setHeight _).blocks h = some block at hblock
      simp [hblocks, hblank.blocks_eq] at hblock
    · change h ≤ (s.setHeight _).height at hle
      -- the only height with a state is the one below the first block
      obtain rfl : h = genesis.initialHeight - 1 := by omega
      refine ⟨_, update_self _ _ _, ⟨rfl, rfl, rfl⟩, rfl, ?_, ?_⟩
      all_goals
        intro block hblock
        change (s.setHeight _).blocks _ = some block at hblock
        simp [hblocks, hblank.blocks_eq] at hblock

end Store

/-! ## A producer -/

/-- The store of a producer has no chain yet or is recorded. -/
structure ProducerNode.Records (genesis : Genesis) (c : Codec) (n : ProducerNode) : Prop where
  genesis_eq : n.executor.config.genesis = genesis
  codec_eq : n.executor.config.codec = c
  recorded_or_blank : n.executor.store.Recorded genesis c ∨ n.executor.store.Blank
  running : n.running = true → n.executor.store.Recorded genesis c ∧
    n.executor.getLastState.OfGenesis genesis ∧
    n.executor.getLastState.lastBlockHeight = n.executor.store.height

section

variable {genesis : Genesis} {c : Codec}

namespace Executor

theorem loadState_loads {inp : StartInput}
    (h : e.loadState inp = .ok st) : Store.Loads e.config.genesis e.store st := by
  unfold loadState at h
  rcases hget : e.store.getState with _ | stored
  · rw [hget] at h
    rcases hroot : inp.initChain with err | root
    · simp [hroot] at h
    · rw [hroot] at h
      exact .inr ⟨hget, root, (ok.inj h).symm⟩
  · rw [hget] at h
    rw [ok.inj h] at hget
    exact .inl hget

end Executor

theorem ProducerNode.Records.produce (h : n.Records genesis c)
    (inp : ProduceInput) : (n.step (.produce inp)).Records genesis c := by
  dsimp only [step]
  by_cases hrun : n.running = true
  · rw [if_pos hrun]
    obtain ⟨hs, hgenesis, hheight⟩ := h.running hrun
    -- at most a block is left behind as pending
    have hkeeps : ∀ {store : Store}, store.height = n.executor.store.height →
        store.blocks = n.executor.store.blocks → store.states = n.executor.store.states →
        Kept { n.executor with store := store } (n.executor.produceBlock inp).2.1 →
        Records genesis c { n with executor := (n.executor.produceBlock inp).2.1 } := by
      intro store hsame hblocks hstates hkept
      have hs' := hs.congr hsame hblocks hstates
      have hlast : (n.executor.produceBlock inp).2.1.getLastState = n.executor.getLastState := by
        unfold getLastState
        rw [hkept.lastState_eq]
      refine ⟨by rw [hkept.config_eq]; exact h.genesis_eq,
        by rw [hkept.config_eq]; exact h.codec_eq, ?_, fun _ => ?_⟩
      · rw [hkept.store_eq]
        exact .inl hs'
      · rw [hkept.store_eq, hlast]
        exact ⟨hs', hgenesis, hheight.trans hsame.symm⟩
    rcases n.executor.produceBlock_cases inp with
      ⟨hkept, -⟩ | ⟨header, data, store, hobtained, -, -, ⟨hkept, -⟩ | ⟨root, signature, hsealed⟩⟩
    · exact hkeeps rfl rfl rfl hkept
    · obtain ⟨-, hsame, hblocks, hstates⟩ := hobtained.next
      exact hkeeps hsame hblocks hstates hkept
    · obtain ⟨hnext, hsame, hblocks, hstates⟩ := hobtained.next
      have hs' := hs.congr hsame hblocks hstates
      have hnew : header.header.height = store.height + 1 := by
        rw [hnext, hsame, ← hheight]
        rfl
      have hcodec : n.executor.config.codec = c := h.codec_eq
      have hstore : (n.executor.produceBlock inp).2.1.store.Recorded genesis c := by
        rw [hsealed.store_eq]
        unfold Executor.newState
        rw [hcodec]
        exact hs'.commit hgenesis hnew
      have hlast : (n.executor.produceBlock inp).2.1.getLastState =
          { n.executor.getLastState.nextState c header.header root with
            daHeight := inp.daHeight } := by
        unfold getLastState
        rw [hsealed.lastState_eq, ← hcodec]
        rfl
      have hsigned : ({ header with signature := signature } : SignedHeader).header.height =
          store.height + 1 := hnew
      refine ⟨by rw [hsealed.config_eq]; exact h.genesis_eq,
        by rw [hsealed.config_eq]; exact h.codec_eq, .inl hstore, fun _ => ⟨hstore, ?_, ?_⟩⟩
      · rw [hlast]
        exact hgenesis.nextState c _ root _
      · rw [hlast, hsealed.store_eq, commitBatch_eq hsigned]
        exact hnew
  · rw [if_neg hrun]
    exact h

theorem ProducerNode.Records.start (hpos : 0 < genesis.initialHeight)
    (h : n.Records genesis c) (inp : Executor.StartInput) :
    (n.step (.start inp)).Records genesis c := by
  dsimp only [step]
  rcases n.executor.initializeState_spec inp with ⟨hfailed, hsame⟩ | ⟨st, hload, hrest⟩
  · -- nothing has been written
    have hstore : (n.executor.initializeState inp).2.store = n.executor.store ∧
        (n.executor.initializeState inp).2.config = n.executor.config := by
      rcases hsame with heq | ⟨st, -, heq⟩ <;> rw [heq] <;> exact ⟨rfl, rfl⟩
    refine ⟨by rw [hstore.2]; exact h.genesis_eq, by rw [hstore.2]; exact h.codec_eq, ?_, ?_⟩
    · rw [hstore.1]
      exact h.recorded_or_blank
    · intro hrun
      change (n.executor.initializeState inp).1.isOk = true at hrun
      rw [hfailed] at hrun
      exact absurd hrun Bool.false_ne_true
  · have hloads := loadState_loads hload
    rw [h.genesis_eq] at hloads
    obtain ⟨hs, hgenesis, hheight, hnone⟩ :=
      recorded_of_loads hpos h.recorded_or_blank hloads
    obtain ⟨target, heq⟩ := hrest hnone
    rw [h.genesis_eq, h.codec_eq] at heq
    have hframe := syncToHeight_frame c genesis inp.replay
      ((n.executor.store.setHeight st.lastBlockHeight).updateState st) target
    have hsynced := hs.syncToHeight hpos inp.replay target
    rw [heq]
    refine ⟨h.genesis_eq, h.codec_eq, .inl hsynced, fun _ => ⟨hsynced, hgenesis, ?_⟩⟩
    exact hheight.trans hframe.height_eq.symm

theorem ProducerNode.Records.step (hpos : 0 < genesis.initialHeight)
    (h : n.Records genesis c) (ev : ProducerEvent) : (n.step ev).Records genesis c := by
  cases ev with
  | produce inp => exact h.produce inp
  | start inp => exact h.start hpos inp
  | crash =>
    exact ⟨h.genesis_eq, h.codec_eq, h.recorded_or_blank,
      fun hrun => absurd hrun Bool.false_ne_true⟩
  | stop headerDeleted dataDeleted =>
    have hstore : ∀ s' : Store, s'.height = n.executor.store.height →
        s'.blocks = n.executor.store.blocks → s'.states = n.executor.store.states →
        s'.Recorded genesis c ∨ s'.Blank := by
      intro s' hheight hblocks hstates
      refine h.recorded_or_blank.imp (fun hs => hs.congr hheight hblocks hstates)
        (fun hblank => ⟨hheight.trans hblank.height_eq, ?_, ?_⟩)
      · rw [hblocks]
        exact hblank.blocks_eq
      · rw [hstates]
        exact hblank.states_eq
    dsimp only [ProducerNode.step]
    rcases n.executor.stop_cases headerDeleted dataDeleted with heq | ⟨-, data, -, heq⟩
    all_goals
      rw [heq]
      exact ⟨h.genesis_eq, h.codec_eq, hstore _ rfl rfl rfl,
        fun hrun => absurd hrun Bool.false_ne_true⟩

end

/-! ## A syncing node -/

namespace SyncNode

/-- The store after `start`, which a start leaves behind also where its replay fails. -/
def startStore (cfg : StartConfig) (store : Store) : Store :=
  match initializeState cfg.genesis cfg.codec cfg.client
      ⟨cfg.initChain, cfg.stateSaved, true⟩ store.getState with
  | .error _ => store
  | .ok syncer =>
    (syncToHeight cfg.codec cfg.genesis cfg.replay
      ((store.setHeight syncer.lastState.lastBlockHeight).updateState syncer.lastState)
      syncer.lastState.lastBlockHeight).2

/-- The store of a syncing node is recorded, and its last state is one of the chain. -/
structure Records (genesis : Genesis) (c : Codec) (n : SyncNode) : Prop where
  genesis_eq : n.syncer.genesis = genesis
  codec_eq : n.codec = c
  recorded : n.store.Recorded genesis c
  lastState : n.syncer.lastState.OfGenesis genesis
  height_eq : n.syncer.lastState.lastBlockHeight = n.store.height

variable {genesis : Genesis} {c : Codec}

theorem loadState_loads {inp : Syncer.StartInput}
    (h : Syncer.loadState genesis inp s.getState = .ok st) : Store.Loads genesis s st := by
  unfold Syncer.loadState at h
  rcases hget : s.getState with _ | stored
  · rw [hget] at h
    rcases hroot : inp.initChain with err | root
    · simp [hroot] at h
    · rw [hroot] at h
      exact .inr ⟨hget, root, (ok.inj h).symm⟩
  · rw [hget] at h
    rw [ok.inj h] at hget
    exact .inl hget

theorem startStore_records {cfg : StartConfig} (hgenesis : cfg.genesis = genesis)
    (hcodec : cfg.codec = c) (hpos : 0 < genesis.initialHeight)
    (hs : s.Recorded genesis c ∨ s.Blank) :
    ((startStore cfg s).Recorded genesis c ∨ (startStore cfg s).Blank) ∧
      ∀ n, start cfg s = .ok n → n.Records genesis c ∧ n.store = startStore cfg s := by
  subst hgenesis hcodec
  unfold startStore start
  rcases hsyncer : initializeState cfg.genesis cfg.codec cfg.client
    ⟨cfg.initChain, cfg.stateSaved, true⟩ s.getState with err | syncer
  · exact ⟨hs, fun n hn => absurd hn (by simp)⟩
  obtain ⟨st, hload, rfl⟩ := initializeState_ok hsyncer
  obtain ⟨hwritten, hgenesis, hheight, -⟩ :=
    Store.recorded_of_loads hpos hs (loadState_loads hload)
  have hsynced := hwritten.syncToHeight hpos cfg.replay st.lastBlockHeight
  have hframe := syncToHeight_frame cfg.codec cfg.genesis cfg.replay
    ((s.setHeight st.lastBlockHeight).updateState st) st.lastBlockHeight
  refine ⟨.inl hsynced, fun n hn => ?_⟩
  dsimp only [Syncer.ofState] at hn
  split at hn
  · simp at hn
  rename_i store hreplayed
  rw [hreplayed] at hsynced hframe
  obtain rfl := ok.inj hn
  refine ⟨⟨rfl, rfl, hsynced, hgenesis, hheight.trans hframe.height_eq.symm⟩, ?_⟩
  dsimp only [Syncer.ofState]
  rw [hreplayed]

theorem Records.processHeightEvent {n n' : SyncNode} {env : EventEnv} {ev : HeightEvent}
    (h : n.Records genesis c) (hevent : n.processHeightEvent env ev = .ok n') :
    n'.Records genesis c := by
  rcases processHeightEvent_cases hevent with hunmoved | ⟨data, hcommits⟩
  · refine ⟨hunmoved.chain.genesis_eq.trans h.genesis_eq, hunmoved.chain.codec_eq.trans h.codec_eq,
      ?_, ?_, ?_⟩
    · rw [hunmoved.store_eq]
      exact h.recorded
    · rw [hunmoved.chain.lastState_eq]
      exact h.lastState
    · rw [hunmoved.chain.lastState_eq, hunmoved.store_eq]
      exact h.height_eq
  · obtain ⟨root, daHeight, -, hstate⟩ := hcommits.lastState_eq
    rw [h.codec_eq] at hstate
    refine ⟨hcommits.genesis_eq.trans h.genesis_eq, hcommits.codec_eq.trans h.codec_eq, ?_, ?_, ?_⟩
    · rw [hcommits.store_eq, hstate]
      exact h.recorded.commit h.lastState hcommits.height_eq
    · rw [hstate]
      exact h.lastState.nextState c _ root daHeight
    · rw [hcommits.lastBlockHeight_after, hcommits.height_after]

theorem Records.run {n n' : SyncNode} {events : List (EventEnv × HeightEvent)}
    (h : n.Records genesis c) (hrun : n.run events = .ok n') : n'.Records genesis c :=
  run_invariant (fun _ _ _ _ hm hone => hm.processHeightEvent hone) h hrun

end SyncNode

/-! ## Every history -/

/-- The stores of one chain: what producers and syncing nodes leave behind, one after the other
on the same disk. -/
inductive Store.OfNode (genesis : Genesis) (c : Codec) : Store → Prop
  | empty : OfNode genesis c Store.empty
  | produced {store : Store} (config : ExecutorConfig) (events : List ProducerEvent)
      (hgenesis : config.genesis = genesis) (hcodec : config.codec = c)
      (hstore : OfNode genesis c store) :
      OfNode genesis c
        (events.foldl ProducerNode.step ⟨Executor.new config store, false⟩).executor.store
  | started {store : Store} (cfg : StartConfig) (hgenesis : cfg.genesis = genesis)
      (hcodec : cfg.codec = c) (hstore : OfNode genesis c store) :
      OfNode genesis c (startStore cfg store)
  | synced {store : Store} (cfg : StartConfig) (events : List (EventEnv × HeightEvent))
      (n₀ n : SyncNode) (hgenesis : cfg.genesis = genesis) (hcodec : cfg.codec = c)
      (hstore : OfNode genesis c store) (hstart : SyncNode.start cfg store = .ok n₀)
      (hrun : n₀.run events = .ok n) : OfNode genesis c n.store

theorem Store.OfNode.recorded {c : Codec}
    (hpos : 0 < genesis.initialHeight) (h : s.OfNode genesis c) :
    s.Recorded genesis c ∨ s.Blank := by
  induction h with
  | empty => exact .inr ⟨rfl, fun _ => rfl, fun _ => rfl⟩
  | produced config events hgenesis hcodec _ ih =>
    refine (Runs.foldl_invariant ProducerNode.step (ProducerNode.Records genesis c)
      (fun _ _ => True) (fun n ev hn _ => hn.step hpos ev) ?_
      (fun _ _ => trivial)).recorded_or_blank
    exact ⟨hgenesis, hcodec, ih, fun hrun => absurd hrun Bool.false_ne_true⟩
  | started cfg hgenesis hcodec _ ih =>
    exact (startStore_records hgenesis hcodec hpos ih).1
  | synced cfg events n₀ n hgenesis hcodec _ hstart hrun ih =>
    obtain ⟨hn₀, -⟩ := (startStore_records hgenesis hcodec hpos ih).2 n₀ hstart
    exact .inl (hn₀.run hrun).recorded

/-- Whatever producers and syncing nodes have run on one disk in turn: a chain begun there has no
gaps, and the state recorded at a height is one of the block there. -/
theorem disk_holds_chain {c : Codec} (hpos : 0 < genesis.initialHeight)
    (hs : s.OfNode genesis c) (hbegun : ¬ s.Blank) : s.Recorded genesis c :=
  (hs.recorded hpos).resolve_right hbegun

end ChainSdk

/-
The store of a syncing node is a chain, whatever events the node is given.

Everything rests on one inversion lemma, `SyncNode.processHeightEvent_cases`: an event either leaves
the store and the last state as they were, or commits one block, and then the block has the next
height and has passed every check against the last state.
-/
import ChainSdk.BlockAuthenticity
import ChainSdk.SyncNode
import ChainSdk.SyncerSoundness

namespace ChainSdk

open Except Function Option Store SyncNode

/-! ## What one event can do -/

variable {prev block : StoredBlock} (s : Syncer) {k : ℕ} {ev : HeightEvent} (n : SyncNode)
  {env : EventEnv}

namespace SyncNode

structure Unmoved (n n' : SyncNode) : Prop where
  store_eq : n'.store = n.store
  chain : Syncer.SameChain n.syncer n'.syncer
  counted : n.mismatchSeen = true → n'.mismatchSeen = true

/-- An event that commits a block: the next one, checked against the last state. -/
structure Commits (n : SyncNode) (env : EventEnv) (n' : SyncNode) (header : SignedHeader)
    (data : Data) : Prop where
  height_eq : header.header.height = n.store.height + 1
  sequence : (n.syncer.lastState.assertValidSequence n.mismatchSeen header.header).1 = .ok ()
  mismatchSeen_eq :
    n'.mismatchSeen = (n.syncer.lastState.assertValidSequence n.mismatchSeen header.header).2
  valid : validate n.codec header data = .ok ()
  genesis_eq : n'.syncer.genesis = n.syncer.genesis
  codec_eq : n'.codec = n.codec
  lastState_eq : ∃ root daHeight,
    env.executeTxs data.txs header.header.height (timeOfUint64 header.header.time)
        n.syncer.lastState.appHash = .ok root ∧
      n'.syncer.lastState =
        { n.syncer.lastState.nextState n.codec header.header root with daHeight := daHeight }
  store_eq : n'.store =
    ((n.store.saveBlockData header data header.signature).setHeight
      header.header.height).updateState n'.syncer.lastState

theorem Unmoved.refl : Unmoved n n := ⟨rfl, ⟨rfl, rfl, rfl⟩, fun h => h⟩

theorem mismatchAfter_counted (env : EventEnv) (ev : HeightEvent)
    (hseen : n.mismatchSeen = true) : n.mismatchAfter env ev = true := by
  unfold mismatchAfter
  split
  · exact hseen
  · rw [hseen]
    exact State.assertValidSequence_counted _ _

theorem onSyncError_unmoved {n n' : SyncNode} (hunmoved : Unmoved n n') (ev : HeightEvent)
    (e : TrySyncError) : Unmoved n (n'.onSyncError ev e) := by
  unfold onSyncError
  split_ifs
  · exact hunmoved
  · split <;> exact ⟨hunmoved.store_eq, hunmoved.chain, hunmoved.counted⟩

theorem trySyncNextBlock_commits {n n' : SyncNode}
    {result : Except TrySyncError Unit} (hnext : ev.header.header.height = n.store.height + 1)
    (h : n.trySyncNextBlock env ev = .ok (result, n')) :
    (∃ e, result = .error e) ∧ Unmoved n n' ∨
      result = .ok () ∧ Commits n env n' ev.header ev.data := by
  unfold trySyncNextBlock at h
  by_cases hcancelled : env.cancelled = true
  · rw [if_pos hcancelled] at h
    obtain ⟨rfl, rfl⟩ := Prod.mk.inj (ok.inj h)
    exact .inl ⟨⟨_, rfl⟩, .refl n⟩
  rw [if_neg hcancelled] at h
  have hcounted := n.mismatchAfter_counted env ev
  split at h
  · simp at h
  · obtain ⟨rfl, rfl⟩ := Prod.mk.inj (ok.inj h)
    exact .inl ⟨⟨_, rfl⟩, rfl, ⟨rfl, rfl, rfl⟩, hcounted⟩
  · rename_i hvalidated
    obtain ⟨hbasic, hsequence, hdata⟩ := validateBlock_ok_iff.mp hvalidated
    have hflag : n.mismatchAfter env ev =
        (n.syncer.lastState.assertValidSequence n.mismatchSeen ev.header.header).2 := by
      unfold mismatchAfter
      rw [hbasic]
    obtain ⟨checked, hsame, ⟨root, hroot, hsynced⟩ | ⟨e, hsynced, -⟩⟩ :=
      n.syncer.trySyncNextBlock_cases (n.syncEvent env ev)
    · rw [hsynced] at h
      obtain ⟨rfl, rfl⟩ := Prod.mk.inj (ok.inj h)
      exact .inr ⟨rfl, hnext, hsequence, hflag, hdata, hsame.genesis_eq, hsame.codec_eq,
        ⟨root, _, hroot, rfl⟩, rfl⟩
    · -- the three ways to fail after validation differ in the caches and the error flag
      rw [hsynced] at h
      dsimp only at h
      split at h
      · rename_i hok
        simp at hok
      all_goals
        obtain ⟨rfl, rfl⟩ := Prod.mk.inj (ok.inj h)
        exact .inl ⟨⟨_, rfl⟩, rfl, hsame, hcounted⟩

theorem queueHints_eq (env : EventEnv) (ev : HeightEvent) :
    ∃ queue, n.queueHints env ev = { n with priorityHeights := queue } := by
  unfold queueHints
  rcases ev.source with _ | _
  · exact ⟨n.priorityHeights, rfl⟩
  · exact ⟨_, rfl⟩

theorem fillLastDataHash_cases {n : SyncNode} {filled : HeightEvent}
    (h : n.fillLastDataHash env ev = .ok (some filled)) :
    filled = ev ∨ ev.source = .sourceDA ∧ ev.header.header.dataHash = dataHashForEmptyTxs ∧
      ∃ last, filled = { ev with data := ev.toDAHeightEvent.filledData (some last) } := by
  unfold fillLastDataHash at h
  by_cases hempty : ev.source = .sourceDA ∧ ev.header.header.dataHash = dataHashForEmptyTxs ∧
      0 < n.store.height
  · rw [if_pos hempty] at h
    split at h
    · simp at h
    split_ifs at h
    · simp at h
    · split at h
      · simp at h
      · exact .inr ⟨hempty.1, hempty.2.1, _, (some.inj (ok.inj h)).symm⟩
  · rw [if_neg hempty] at h
    exact .inl (some.inj (ok.inj h)).symm

theorem fillLastDataHash_header {n : SyncNode} {filled : HeightEvent}
    (h : n.fillLastDataHash env ev = .ok (some filled)) : filled.header = ev.header := by
  rcases fillLastDataHash_cases h with rfl | ⟨-, -, last, rfl⟩
  · rfl
  · rfl

inductive EventOutcome (n : SyncNode) (env : EventEnv) (ev : HeightEvent) : SyncNode → Prop
  | dropped (hwhy : env.heightRead = false ∨ ev.header.header.height ≤ n.store.height ∨
      n.headerCache.isSeen (n.headerKey ev.header) = true) : EventOutcome n env ev n
  | ahead (hahead : n.store.height + 1 < ev.header.header.height) :
      EventOutcome n env ev (n.setPendingEvent ev)
  | unread (queue : List ℕ) (hnext : ev.header.header.height = n.store.height + 1)
      (hfill : n.fillLastDataHash env ev = .ok none) :
      EventOutcome n env ev { n with priorityHeights := queue }
  | synced (queue : List ℕ) (filled : HeightEvent) (n' : SyncNode)
      (hnext : ev.header.header.height = n.store.height + 1)
      (hfill : n.fillLastDataHash env ev = .ok (some filled))
      (hsync : trySyncNextBlock { n with priorityHeights := queue } env filled =
        .ok (.ok (), n')) : EventOutcome n env ev n'
  | failed (queue : List ℕ) (filled : HeightEvent) (e : TrySyncError) (n' : SyncNode)
      (hnext : ev.header.header.height = n.store.height + 1)
      (hfill : n.fillLastDataHash env ev = .ok (some filled))
      (hsync : trySyncNextBlock { n with priorityHeights := queue } env filled =
        .ok (.error e, n')) : EventOutcome n env ev (n'.onSyncError filled e)

section

variable {n n' : SyncNode} {env : EventEnv} {ev : HeightEvent}
  (h : n.processHeightEvent env ev = .ok n')
include h

theorem processHeightEvent_outcome : EventOutcome n env ev n' := by
  unfold processHeightEvent at h
  dsimp only at h
  split_ifs at h with hread hskip hahead
  · obtain rfl := ok.inj h
    exact .dropped (.inl (by simpa using hread))
  · obtain rfl := ok.inj h
    exact .dropped (.inr hskip)
  · obtain rfl := ok.inj h
    exact .ahead (by omega)
  · have hnext := not_not.mp hahead
    obtain ⟨queue, hqueued⟩ := n.queueHints_eq env ev
    rw [hqueued] at h
    split at h
    · simp at h
    · rename_i hfill
      obtain rfl := ok.inj h
      exact .unread queue hnext hfill
    · rename_i filled hfill
      split at h
      · simp at h
      · rename_i synced hsync
        obtain rfl := ok.inj h
        exact .synced queue filled _ hnext hfill hsync
      · rename_i e synced hsync
        obtain rfl := ok.inj h
        exact .failed queue filled e _ hnext hfill hsync

theorem processHeightEvent_cases :
    Unmoved n n' ∨ ∃ data, Commits n env n' ev.header data := by
  cases processHeightEvent_outcome h with
  | dropped _ => exact .inl (.refl n)
  | ahead _ | unread queue _ _ => exact .inl ⟨rfl, ⟨rfl, rfl, rfl⟩, fun hcounted => hcounted⟩
  | synced queue filled _ hnext hfill hsync =>
    have hheader := fillLastDataHash_header hfill
    rw [← hheader] at hnext
    rcases trySyncNextBlock_commits (n := { n with priorityHeights := queue }) hnext hsync with
      ⟨⟨e, he⟩, -⟩ | ⟨-, hcommits⟩
    · simp at he
    · rw [hheader] at hcommits
      exact .inr ⟨filled.data, hcommits.1, hcommits.2, hcommits.3, hcommits.4, hcommits.5,
        hcommits.6, hcommits.7, hcommits.8⟩
  | failed queue filled e synced hnext hfill hsync =>
    rw [← fillLastDataHash_header hfill] at hnext
    rcases trySyncNextBlock_commits (n := { n with priorityHeights := queue }) hnext hsync with
      ⟨-, hunmoved⟩ | ⟨he, -⟩
    · have hdone := onSyncError_unmoved hunmoved filled e
      exact .inl ⟨hdone.store_eq, hdone.chain, hdone.counted⟩
    · simp at he

end

/-! ## The invariant -/

structure Follows (c : Codec) (prev block : StoredBlock) (prevState state : State) : Prop where
  time_le : timeOfUint64 prev.header.header.time ≤ timeOfUint64 block.header.header.time
  appHash_eq : block.header.header.appHash = prevState.appHash
  nextState_eq : { state with daHeight := prevState.daHeight } =
    prevState.nextState c block.header.header state.appHash

/-- The block stored at `h` names another last header than the one stored before it. -/
def HashMismatch (n : SyncNode) (h : ℕ) : Prop :=
  ∃ prev block, n.store.blocks h = some prev ∧ n.store.blocks (h + 1) = some block ∧
    block.header.header.lastHeaderHash ≠ n.codec.headerHash prev.header.header

structure ChainInvariant (n : SyncNode) : Prop where
  stored_iff : ∀ h, (n.store.blocks h).isSome ↔
    n.syncer.genesis.initialHeight ≤ h ∧ h ≤ n.store.height
  valid : ∀ h block, n.store.blocks h = some block →
    block.header.header.height = h ∧ validate n.codec block.header block.data = .ok ()
  follows : ∀ h prev block, n.store.blocks h = some prev → n.store.blocks (h + 1) = some block →
    ∃ prevState state, n.store.states h = some prevState ∧
      n.store.states (h + 1) = some state ∧ Follows n.codec prev block prevState state
  mismatch_unique : ∀ h h', n.HashMismatch h → n.HashMismatch h' → h = h'
  lastState_eq : n.store.getState = some n.syncer.lastState

/-- The invariant with what the next block is checked against. -/
structure SyncedInv (n : SyncNode) : Prop extends ChainInvariant n where
  height_eq : n.syncer.lastState.lastBlockHeight = n.store.height
  initial_le : n.syncer.genesis.initialHeight ≤ n.store.height + 1
  tip : ∀ block, n.store.blocks n.store.height = some block →
    n.syncer.lastState.lastHeaderHash = n.codec.headerHash block.header.header ∧
      n.syncer.lastState.lastBlockTime = timeOfUint64 block.header.header.time
  counted : ∀ h, n.HashMismatch h → n.mismatchSeen = true

theorem SyncedInv.unmoved {n n' : SyncNode} (hinv : SyncedInv n) (h : Unmoved n n') :
    SyncedInv n' := by
  have hcodec : n'.codec = n.codec := h.chain.codec_eq
  have hmismatch : ∀ k, n'.HashMismatch k → n.HashMismatch k := by
    intro k hk
    unfold HashMismatch at hk ⊢
    rwa [h.store_eq, hcodec] at hk
  refine ⟨⟨?_, ?_, ?_, ?_, ?_⟩, ?_, ?_, ?_, ?_⟩
  · rw [h.store_eq, h.chain.genesis_eq]
    exact hinv.stored_iff
  · rw [h.store_eq, hcodec]
    exact hinv.valid
  · rw [h.store_eq, hcodec]
    exact hinv.follows
  · exact fun k k' hk hk' => hinv.mismatch_unique k k' (hmismatch k hk) (hmismatch k' hk')
  · rw [h.store_eq, h.chain.lastState_eq]
    exact hinv.lastState_eq
  · rw [h.store_eq, h.chain.lastState_eq]
    exact hinv.height_eq
  · rw [h.store_eq, h.chain.genesis_eq]
    exact hinv.initial_le
  · rw [h.store_eq, h.chain.lastState_eq, hcodec]
    exact hinv.tip
  · exact fun k hk => h.counted (hinv.counted k (hmismatch k hk))

section

variable {n n' : SyncNode} {env : EventEnv} {header : SignedHeader} {data : Data}

section

variable {k : ℕ} (h : Commits n env n' header data)
include h

theorem Commits.height_after :
    n'.store.height = n.store.height + 1 := by
  rw [h.store_eq]
  unfold setHeight saveBlockData
  dsimp only
  rw [if_neg (by rw [h.height_eq]; omega)]
  exact h.height_eq

theorem Commits.blocks_after :
    n'.store.blocks = update n.store.blocks (n.store.height + 1)
      (some ⟨header, data, header.signature⟩) := by
  rw [h.store_eq, ← h.height_eq]
  unfold setHeight saveBlockData
  split_ifs <;> rfl

theorem Commits.lastBlockHeight_after :
    n'.syncer.lastState.lastBlockHeight = n.store.height + 1 := by
  obtain ⟨root, daHeight, -, hstate⟩ := h.lastState_eq
  rw [hstate]
  exact h.height_eq

theorem Commits.states_after :
    n'.store.states = update n.store.states (n.store.height + 1)
      (some n'.syncer.lastState) := by
  rw [h.store_eq, ← h.lastBlockHeight_after]
  unfold setHeight saveBlockData
  split_ifs <;> rfl

theorem Commits.block_of_le (hk : k ≤ n.store.height) :
    n'.store.blocks k = n.store.blocks k := by
  rw [h.blocks_after]
  exact update_of_ne (by omega) _ _

theorem Commits.block_new :
    n'.store.blocks (n.store.height + 1) = some ⟨header, data, header.signature⟩ := by
  rw [h.blocks_after]
  exact update_self _ _ _

theorem Commits.state_of_le (hk : k ≤ n.store.height) :
    n'.store.states k = n.store.states k := by
  rw [h.states_after]
  exact update_of_ne (by omega) _ _

theorem Commits.state_new :
    n'.store.states (n.store.height + 1) = some n'.syncer.lastState := by
  rw [h.states_after]
  exact update_self _ _ _

end

theorem SyncedInv.le_height (hinv : SyncedInv n)
    (hblock : n.store.blocks k = some block) : k ≤ n.store.height :=
  ((hinv.stored_iff k).mp (by simp [hblock])).2

theorem Commits.consecutive (hinv : SyncedInv n) (h : Commits n env n' header data)
    (hprev : n'.store.blocks k = some prev) (hblock : n'.store.blocks (k + 1) = some block) :
    k < n.store.height ∧ n.store.blocks k = some prev ∧ n.store.blocks (k + 1) = some block ∨
      k = n.store.height ∧ n.store.blocks n.store.height = some prev ∧
        block = ⟨header, data, header.signature⟩ := by
  have hle : k + 1 ≤ n.store.height + 1 := by
    by_contra hgt
    rw [h.blocks_after, update_of_ne (by omega)] at hblock
    exact absurd (hinv.le_height hblock) (by omega)
  by_cases hlt : k < n.store.height
  · rw [h.block_of_le hlt.le] at hprev
    rw [h.block_of_le hlt] at hblock
    exact .inl ⟨hlt, hprev, hblock⟩
  · obtain rfl : k = n.store.height := by omega
    rw [h.block_of_le le_rfl] at hprev
    rw [h.block_new] at hblock
    exact .inr ⟨rfl, hprev, (some.inj hblock).symm⟩

theorem Commits.follows (hsha : ∀ bz, n.codec.sha256 bz ≠ []) (hinv : SyncedInv n)
    (h : Commits n env n' header data) (hprev : n.store.blocks n.store.height = some prev) :
    Follows n.codec prev ⟨header, data, header.signature⟩ n.syncer.lastState
        n'.syncer.lastState ∧
      (header.header.lastHeaderHash ≠ n.codec.headerHash prev.header.header →
        n.mismatchSeen = false ∧ n'.mismatchSeen = true) := by
  obtain ⟨hhash, htime⟩ := hinv.tip prev hprev
  have hblock : n.syncer.lastState.lastHeaderHash ≠ [] := by
    rw [hhash]
    unfold Codec.headerHash
    split_ifs <;> exact hsha _
  obtain ⟨-, hle, happ, hmismatch⟩ := State.assertValidSequence_ok h.sequence hblock
  rw [← hhash, h.mismatchSeen_eq]
  refine ⟨⟨?_, happ, ?_⟩, hmismatch⟩
  · rw [← htime]
    exact hle
  · obtain ⟨root, daHeight, -, hstate⟩ := h.lastState_eq
    rw [hstate]
    rfl

theorem Commits.mismatch_cases (hinv : SyncedInv n) (h : Commits n env n' header data)
    (hk : n'.HashMismatch k) :
    n.HashMismatch k ∨ k = n.store.height ∧ ∃ prev,
      n.store.blocks n.store.height = some prev ∧
        header.header.lastHeaderHash ≠ n.codec.headerHash prev.header.header := by
  obtain ⟨prev, block, hprev, hblock, hne⟩ := hk
  rw [h.codec_eq] at hne
  rcases h.consecutive hinv hprev hblock with ⟨-, hprev, hblock⟩ | ⟨rfl, hprev, rfl⟩
  · exact .inl ⟨prev, block, hprev, hblock, hne⟩
  · exact .inr ⟨rfl, prev, hprev, hne⟩

theorem SyncedInv.commits (hsha : ∀ bz, n.codec.sha256 bz ≠ []) (hinv : SyncedInv n)
    (h : Commits n env n' header data) : SyncedInv n' := by
  have hheight := h.height_after
  refine ⟨⟨?_, ?_, ?_, ?_, ?_⟩, ?_, ?_, ?_, ?_⟩
  · intro k
    rw [h.genesis_eq, hheight]
    have hold := hinv.stored_iff k
    have hinitial := hinv.initial_le
    by_cases hk : k = n.store.height + 1
    · rw [hk, h.block_new]
      simp [hinitial]
    · rw [h.blocks_after, update_of_ne hk, hold]
      omega
  · intro k block hblock
    rw [h.codec_eq]
    by_cases hk : k = n.store.height + 1
    · rw [hk, h.block_new] at hblock
      obtain rfl := some.inj hblock
      exact ⟨h.height_eq.trans hk.symm, h.valid⟩
    · rw [h.blocks_after, update_of_ne hk] at hblock
      exact hinv.valid k block hblock
  · intro k prev block hprev hblock
    rw [h.codec_eq]
    rcases h.consecutive hinv hprev hblock with ⟨hlt, hprev, hblock⟩ | ⟨rfl, hprev, rfl⟩
    · rw [h.state_of_le hlt.le, h.state_of_le hlt]
      exact hinv.follows k prev block hprev hblock
    · rw [h.state_of_le le_rfl, h.state_new]
      exact ⟨_, _, hinv.lastState_eq, rfl, (h.follows hsha hinv hprev).1⟩
  · -- a second mismatch would have found the flag up
    intro k k' hk hk'
    rcases h.mismatch_cases hinv hk with hold | ⟨rfl, prev, hprev, hne⟩
    · rcases h.mismatch_cases hinv hk' with hold' | ⟨rfl, prev, hprev, hne⟩
      · exact hinv.mismatch_unique k k' hold hold'
      · have hfree := ((h.follows hsha hinv hprev).2 hne).1
        simp [hinv.counted k hold] at hfree
    · rcases h.mismatch_cases hinv hk' with hold' | ⟨rfl, -⟩
      · have hfree := ((h.follows hsha hinv hprev).2 hne).1
        simp [hinv.counted k' hold'] at hfree
      · rfl
  · unfold getState
    rw [hheight]
    exact h.state_new
  · rw [hheight]
    exact h.lastBlockHeight_after
  · have hinitial := hinv.initial_le
    rw [h.genesis_eq]
    omega
  · intro block hblock
    rw [hheight, h.block_new] at hblock
    obtain rfl := some.inj hblock
    obtain ⟨root, daHeight, -, hstate⟩ := h.lastState_eq
    rw [hstate, h.codec_eq]
    exact ⟨rfl, rfl⟩
  · intro k hk
    rcases h.mismatch_cases hinv hk with hold | ⟨-, prev, hprev, hne⟩
    · rw [h.mismatchSeen_eq, hinv.counted k hold]
      exact State.assertValidSequence_counted _ _
    · exact ((h.follows hsha hinv hprev).2 hne).2

end

/-! ## Whole runs -/

theorem SyncedInv.processHeightEvent {n n' : SyncNode}
    (hsha : ∀ bz, n.codec.sha256 bz ≠ []) (hinv : SyncedInv n)
    (h : n.processHeightEvent env ev = .ok n') :
    SyncedInv n' ∧ n'.syncer.genesis = n.syncer.genesis ∧ n'.codec = n.codec := by
  rcases processHeightEvent_cases h with hunmoved | ⟨data, hcommits⟩
  · exact ⟨hinv.unmoved hunmoved, hunmoved.chain.genesis_eq, hunmoved.chain.codec_eq⟩
  · exact ⟨hinv.commits hsha hcommits, hcommits.genesis_eq, hcommits.codec_eq⟩

theorem le_height_of_processHeightEvent {n n' : SyncNode}
    (h : n.processHeightEvent env ev = .ok n') : n.store.height ≤ n'.store.height := by
  rcases processHeightEvent_cases h with hunmoved | ⟨data, hcommits⟩
  · rw [hunmoved.store_eq]
  · rw [hcommits.height_after]
    omega

/-- What each event of a run keeps, the run keeps. -/
theorem run_invariant {P : SyncNode → Prop} {n n' : SyncNode}
    {events : List (EventEnv × HeightEvent)} (hstep : ∀ p ∈ events, ∀ n n', P n →
      n.processHeightEvent p.1 p.2 = .ok n' → P n') (hn : P n) (h : n.run events = .ok n') :
    P n' := by
  induction events generalizing n with
  | nil =>
    obtain rfl := ok.inj h
    exact hn
  | cons event events ih =>
    obtain ⟨env, ev⟩ := event
    rw [List.forall_mem_cons] at hstep
    rw [run] at h
    rcases hone : n.processHeightEvent env ev with panic | next
    · simp [hone] at h
    · rw [hone] at h
      exact ih hstep.2 (hstep.1 n next hn hone) h

theorem SyncedInv.run {n n' : SyncNode} {events : List (EventEnv × HeightEvent)}
    (hsha : ∀ bz, n.codec.sha256 bz ≠ []) (hinv : SyncedInv n) (h : n.run events = .ok n') :
    SyncedInv n' ∧ n'.syncer.genesis = n.syncer.genesis ∧ n'.codec = n.codec := by
  refine run_invariant (P := fun m => SyncedInv m ∧ m.syncer.genesis = n.syncer.genesis ∧
    m.codec = n.codec) ?_ ⟨hinv, rfl, rfl⟩ h
  rintro p - m m' ⟨hm, hgenesis, hcodec⟩ hone
  obtain ⟨hnext, hgenesis', hcodec'⟩ := hm.processHeightEvent (hcodec ▸ hsha) hone
  exact ⟨hnext, hgenesis'.trans hgenesis, hcodec'.trans hcodec⟩

section

variable {cfg : StartConfig} {n : SyncNode} (hinitial : 0 < cfg.genesis.initialHeight)
  (h : start cfg empty = .ok n)
include hinitial h

theorem start_empty :
    n.syncer.genesis = cfg.genesis ∧ n.codec = cfg.codec ∧
      Syncer.loadState cfg.genesis ⟨cfg.initChain, cfg.stateSaved, true⟩ none =
        .ok n.syncer.lastState ∧
      n.syncer.lastState.lastBlockHeight = cfg.genesis.initialHeight - 1 ∧
      n.store = (empty.setHeight (cfg.genesis.initialHeight - 1)).updateState
        n.syncer.lastState := by
  unfold start at h
  split at h
  · simp at h
  rename_i syncer hsyncer
  obtain ⟨state, hload, rfl⟩ := Syncer.initializeState_ok hsyncer
  have hheight : state.lastBlockHeight = cfg.genesis.initialHeight - 1 := by
    unfold Syncer.loadState at hload
    rcases hinit : cfg.initChain with e | root
    · simp [getState, empty, hinit] at hload
    · simp only [getState, empty, hinit, ok.injEq] at hload
      rw [← hload]
  -- there is nothing to replay below the first height
  have hreplay : ∀ store, syncToHeight cfg.codec cfg.genesis cfg.replay store
      (cfg.genesis.initialHeight - 1) = (.ok (), store) := by
    intro store
    unfold syncToHeight
    split
    · rfl
    · rw [if_pos (by omega)]
  dsimp only [Syncer.ofState] at h
  rw [hheight, hreplay] at h
  obtain rfl := ok.inj h
  exact ⟨rfl, rfl, hload, hheight, rfl⟩

theorem start_store :
    n.store.height = cfg.genesis.initialHeight - 1 ∧ ∀ k, n.store.blocks k = none := by
  obtain ⟨-, -, -, -, hstore⟩ := start_empty hinitial h
  rw [hstore]
  unfold setHeight empty
  split_ifs with hzero
  · exact ⟨(Nat.le_zero.mp hzero).symm, fun _ => rfl⟩
  · exact ⟨rfl, fun _ => rfl⟩

theorem SyncedInv.start :
    SyncedInv n := by
  obtain ⟨hgenesis, -, -, hstate, hstore⟩ := start_empty hinitial h
  obtain ⟨hheight, hblocks⟩ := start_store hinitial h
  have hnone : ∀ k, ¬ n.HashMismatch k := by
    rintro k ⟨prev, block, hprev, -⟩
    simp [hblocks] at hprev
  refine ⟨⟨?_, ?_, ?_, ?_, ?_⟩, ?_, ?_, ?_, ?_⟩
  · intro k
    rw [hblocks, hgenesis]
    simp
    omega
  · intro k block hblock
    simp [hblocks] at hblock
  · intro k prev block hblock
    simp [hblocks] at hblock
  · exact fun k k' hk => absurd hk (hnone k)
  · unfold getState
    rw [hheight, ← hstate, hstore]
    exact update_self _ _ _
  · rw [hstate, hheight]
  · rw [hgenesis]
    omega
  · intro block hblock
    simp [hblocks] at hblock
  · exact fun k hk => absurd hk (hnone k)

end

end SyncNode

/-- From an empty store, and whatever height events a node is given and whatever fails while
they are processed, its store is a chain: no height is missing, every block is valid and
follows the one before it, all but at most one of them name the hash of the one before, and the
state in memory is the one stored. -/
theorem synced_store_is_chain (cfg : SyncNode.StartConfig)
    (events : List (EventEnv × HeightEvent)) (n₀ n : SyncNode)
    (hinitial : cfg.genesis.initialHeight = 1) (hsha : ∀ bz, cfg.codec.sha256 bz ≠ [])
    (hstart : start cfg empty = .ok n₀) (hrun : n₀.run events = .ok n) :
    n.syncer.genesis = cfg.genesis ∧ n.codec = cfg.codec ∧ n.ChainInvariant := by
  have hpos : 0 < cfg.genesis.initialHeight := by
    rw [hinitial]
    exact Nat.one_pos
  obtain ⟨hgenesis₀, hcodec₀, -⟩ := start_empty hpos hstart
  rw [← hcodec₀] at hsha
  obtain ⟨hinv, hgenesis, hcodec⟩ := (SyncNode.SyncedInv.start hpos hstart).run hsha hrun
  exact ⟨hgenesis.trans hgenesis₀, hcodec.trans hcodec₀, hinv.toChainInvariant⟩

/-! ## A small chain -/

def chainCodec : Codec where
  headerBytes := fun h => [UInt8.ofNat h.height]
  headerBytesLegacy := fun _ => []
  dataBytes := fun d => d.txs.flatten
  sha256 := fun bz => if bz = [0] then dataHashForEmptyTxs else 1 :: bz

theorem chainCodec_sha256_ne (bz : Bytes) : chainCodec.sha256 bz ≠ [] := by
  show (if bz = [0] then dataHashForEmptyTxs else 1 :: bz) ≠ []
  split_ifs
  · decide
  · simp

def chainConfig : SyncNode.StartConfig where
  genesis := smallGenesis
  codec := chainCodec
  client := forcedClient
  wire := tableWire [] []
  provider := none
  headerSnapshot := []
  dataSnapshot := []
  headerTip := none
  dataTip := none
  mismatchSeen := false
  initChain := .ok [0]
  stateSaved := true
  latestDAHeight := .ok 0
  replay := ⟨none, none, fun _ => .ok [], fun _ => true⟩

def chainEnv (committed : Bool) : EventEnv where
  now := 10
  heightRead := true
  blockRead := true
  latestDAHeight := .ok 9
  cancelled := false
  verify := plainEnv (fun _ => [])
  executeTxs := fun _ _ _ _ => .ok [0]
  committed := committed

def chainBlock (source : EventSource) (height : ℕ) (lastHeaderHash : Hash) (txs : List Tx) :
    HeightEvent where
  header := ⟨⟨height, 5, "chain", ⟨0, 0⟩, lastHeaderHash, chainCodec.daCommitment txs, [0], [],
    [7], none⟩, [7, UInt8.ofNat height], ⟨some ⟨0, [7]⟩, [7]⟩⟩
  data := ⟨some ⟨"chain", height, 5, []⟩, txs⟩
  daHeight := 3
  source := source
  daHeightHints := (0, 0)

/-- A block too early, a first block whose commit fails at first, an unsigned block, and a second
and a third block, of which one names a wrong last header. -/
def chainEvents : List (EventEnv × HeightEvent) :=
  [(chainEnv true, chainBlock .sourceP2P 2 [1, 1] [[5]]),
    (chainEnv false, chainBlock .sourceDA 1 [] []),
    (chainEnv true, chainBlock .sourceDA 1 [] []),
    (chainEnv true, { chainBlock .sourceP2P 2 [1, 1] [[5]] with
      header := { (chainBlock .sourceP2P 2 [1, 1] [[5]]).header with signature := [8] } }),
    (chainEnv true, chainBlock .sourceDA 2 [9] []),
    (chainEnv true, chainBlock .sourceP2P 3 [1, 2] [[5]])]

theorem exists_of_map_ok {ε α β : Type} {e : Except ε α} {f : α → β} {b : β}
    (h : e.map f = .ok b) : ∃ a, e = .ok a ∧ f a = b := by
  rcases e with _ | a
  · exact absurd h (by simp [Except.map])
  · exact ⟨a, rfl, ok.inj h⟩

theorem synced_store_is_chain_on_sample :
    ∃ n₀ n, start chainConfig empty = .ok n₀ ∧ n₀.run chainEvents = .ok n ∧
      n.store.height = 3 ∧ n.ChainInvariant := by
  have hstart : ∃ n₀, start chainConfig empty = .ok n₀ := ⟨_, rfl⟩
  obtain ⟨n₀, hstart⟩ := hstart
  have hruns : (start chainConfig empty).map
      (fun n => (n.run chainEvents).map (fun n => n.store.height)) = .ok (.ok 3) := by
    decide +kernel
  rw [hstart] at hruns
  obtain ⟨n, hrun, hheight⟩ := exists_of_map_ok (ok.inj hruns)
  exact ⟨n₀, n, hstart, hrun, hheight,
    (synced_store_is_chain chainConfig chainEvents n₀ n rfl chainCodec_sha256_ne hstart
      hrun).2.2⟩

end ChainSdk

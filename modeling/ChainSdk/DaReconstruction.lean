/-
A node that reads nothing but DA, from genesis on, against the chain of the producer.

Empty blocks are never posted as data. The retriever makes up data for them from the header, and
`processHeightEvent` completes it with the hash of the last stored data.
-/
import ChainSdk.EventDelivery
import ChainSdk.PostedChain

namespace ChainSdk

open DaRetriever Except List Option ProducerNode Runs Store SyncNode

/-! ## The node -/

/-- Nothing fails while an event is processed, and the execution client answers like `x`. -/
structure EventEnv.Works (x : ExecutionModel) (env : EventEnv) : Prop where
  heightRead : env.heightRead = true
  blockRead : env.blockRead = true
  running : env.cancelled = false
  committed : env.committed = true
  executes : ∀ txs h t r, env.executeTxs txs h t r = .ok (x.executeTxs txs h t r)

/-- An event of the retriever as the node receives it. -/
def daEvent (ev : DAHeightEvent) : HeightEvent := ⟨ev, .sourceDA, (0, 0)⟩

variable {i : ℕ} {events : List (EventEnv × HeightEvent)} {n : SyncNode}

namespace SyncNode

variable {n n' : SyncNode} {env : EventEnv} {ev filled : HeightEvent} {x : ExecutionModel}

theorem trySyncNextBlock_of_works (hworks : env.Works x) (hvalid : n.validateBlock env ev = .ok ())
    (haccuses : ¬ n.syncer.Accuses (n.syncEvent env ev)) :
    ∃ n', n.trySyncNextBlock env ev = .ok (.ok (), n') ∧ n'.wire = n.wire ∧
      n'.provider = n.provider := by
  rcases hsynced : (n.syncer.trySyncNextBlock (n.syncEvent env ev)).1 with err | _
  · exfalso
    rcases Syncer.notApplied_of_error hsynced with hinvalid | count | ⟨msg, happ⟩ | hfailed
    · cases hinvalid
    · exact haccuses ⟨count, hsynced⟩
    · have hroot : (n.syncEvent env ev).appHash = .ok _ := hworks.executes _ _ _ _
      exact absurd (hroot.symm.trans happ) (by simp)
    · exact absurd (hworks.committed.symm.trans hfailed) (by simp)
  · unfold trySyncNextBlock
    simp only [hworks.running, hvalid, hsynced]
    exact ⟨_, rfl, rfl, rfl⟩

theorem processHeightEvent_of_works (hworks : env.Works x)
    (hnext : ev.header.header.height = n.store.height + 1)
    (hunseen : n.headerCache.isSeen (n.headerKey ev.header) = false)
    (hfilled : n.fillLastDataHash env ev = .ok (some filled))
    (hvalid : n.validateBlock env filled = .ok ())
    (haccuses : ¬ n.syncer.Accuses (n.syncEvent env filled)) :
    ∃ n', n.processHeightEvent env ev = .ok n' ∧ Commits n env n' filled.header filled.data ∧
      n'.wire = n.wire ∧ n'.provider = n.provider := by
  have hskip : ¬ (ev.header.header.height ≤ n.store.height ∨
      n.headerCache.isSeen (n.headerKey ev.header) = true) := by
    rw [hunseen, hnext]
    simp
  obtain ⟨queue, hqueued⟩ := n.queueHints_eq env ev
  obtain ⟨n', hsynced, hwire, hprovider⟩ :=
    trySyncNextBlock_of_works (n := { n with priorityHeights := queue }) hworks hvalid haccuses
  refine ⟨n', ?_, ?_, hwire, hprovider⟩
  · have hfill : ({ n with priorityHeights := queue } : SyncNode).fillLastDataHash env ev =
        .ok (some filled) := hfilled
    unfold processHeightEvent
    dsimp only
    rw [if_neg (by simp [hworks.heightRead]), if_neg hskip, if_neg (not_not.mpr hnext), hqueued,
      hfill]
    dsimp only
    rw [hsynced]
  · have hheight : filled.header.header.height = n.store.height + 1 := by
      rw [fillLastDataHash_header hfilled, hnext]
    rcases trySyncNextBlock_commits (n := { n with priorityHeights := queue }) hheight hsynced with
      ⟨⟨e, he⟩, -⟩ | ⟨-, hcommits⟩
    · simp at he
    · exact ⟨hcommits.1, hcommits.2, hcommits.3, hcommits.4, hcommits.5, hcommits.6, hcommits.7,
        hcommits.8⟩

theorem processHeightEvent_out_of_turn (hne : ev.header.header.height ≠ n.store.height + 1) :
    ∃ n', n.processHeightEvent env ev = .ok n' ∧ n'.store = n.store := by
  unfold processHeightEvent
  dsimp only
  split_ifs
  · exact ⟨n, rfl, rfl⟩
  · exact ⟨n, rfl, rfl⟩
  · exact ⟨_, rfl, rfl⟩

theorem processHeightEvent_of_missing (hsource : ev.source = .sourceDA)
    (hempty : ev.header.header.dataHash = dataHashForEmptyTxs) (hpos : 0 < n.store.height)
    (hnone : n.store.blocks n.store.height = none) :
    ∃ n', n.processHeightEvent env ev = .ok n' ∧ n'.store = n.store := by
  by_cases hnext : ev.header.header.height = n.store.height + 1
  swap
  · exact processHeightEvent_out_of_turn hnext
  obtain ⟨queue, hqueued⟩ := n.queueHints_eq env ev
  have hfill : ({ n with priorityHeights := queue } : SyncNode).fillLastDataHash env ev =
      .ok none := by
    unfold fillLastDataHash
    simp only [hsource, hempty, hpos, and_self, if_true, hnone]
  unfold processHeightEvent
  dsimp only
  rw [if_neg (not_not.mpr hnext), hqueued, hfill]
  split_ifs
  · exact ⟨n, rfl, rfl⟩
  · exact ⟨n, rfl, rfl⟩
  · exact ⟨_, rfl, rfl⟩

/-- No block of these events has the check of forced inclusion accuse the proposer. -/
def NeverAccused (n : SyncNode) (events : List (EventEnv × HeightEvent)) : Prop :=
  ∀ before env ev after n' filled, events = before ++ (env, ev) :: after →
    n.run before = .ok n' → n'.fillLastDataHash env ev = .ok (some filled) →
    ¬ n'.syncer.Accuses (n'.syncEvent env filled)

theorem NeverAccused.tail
    (h : n.NeverAccused ((env, ev) :: events)) (hone : n.processHeightEvent env ev = .ok n') :
    n'.NeverAccused events := by
  intro before env' ev' after n'' filled hsplit hrun
  refine h ((env, ev) :: before) env' ev' after n'' filled (by rw [hsplit]; rfl) ?_
  rw [run, hone]
  exact hrun

end SyncNode

/-! ## Block after block -/

/-- The chain a producer has committed, with blobs that can be read, and the functions it rests
on: commitments and header hashes do not collide. -/
structure ChainOnDa (config : ExecutorConfig) (w : Wire) (key : PubKey) (x : ExecutionModel)
    (posted : PostedBlobs) (s : Store) : Prop where
  setting : ProducerSetting config key
  commitment : ∀ txs, config.codec.daCommitment txs = dataHashForEmptyTxs → txs = []
  headerHash : ∀ h h' : Header, config.codec.headerHash h = config.codec.headerHash h' →
    h.height = h'.height
  canonical_or_empty : s.Canonical config x ∨ s = empty
  published : ∀ h block, s.blocks h = some block → Published config w key x s.blocks h block
  blobs : ∀ h block, s.blocks h = some block → RoundTrips config w key posted block

/-- The node has the blocks of `s` below `h`, header and data, and nothing else. -/
structure SyncNode.Mirrors (config : ExecutorConfig) (w : Wire) (x : ExecutionModel) (s : Store)
    (h : ℕ) (n : SyncNode) : Prop where
  genesis_eq : n.syncer.genesis = config.genesis
  codec_eq : n.codec = config.codec
  wire_eq : n.wire = w
  provider_eq : n.provider = defaultSignatureProvider config.codec
  height_eq : n.store.height + 1 = h
  blocks_eq : ∀ k, k < h → (n.store.blocks k).map (fun b => (b.header, b.data)) =
    (s.blocks k).map (fun b => (b.header, b.data))
  onChain : n.OnChain x
  seen : EventPipeline.SeenApplied n

section

variable {config : ExecutorConfig} {w : Wire} {key : PubKey} {x : ExecutionModel}
  {posted : PostedBlobs} {s : Store} {h : ℕ} {block : StoredBlock}

section

variable (hchain : ChainOnDa config w key x posted s) (hblock : s.blocks h = some block)
include hchain hblock

theorem ChainOnDa.canonical : s.Canonical config x := by
  rcases hchain.canonical_or_empty with hcanonical | rfl
  · exact hcanonical
  · exact absurd hblock (by simp [empty])

theorem ChainOnDa.dataHash_iff :
    block.header.header.dataHash = dataHashForEmptyTxs ↔ block.data.txs = [] := by
  rw [(hchain.published h block hblock).built.dataHash_eq]
  constructor
  · exact hchain.commitment _
  · intro hempty
    rw [hempty, hchain.setting.empty_commitment]

theorem ChainOnDa.readable : DaRetriever.Readable config w key posted h block := by
  have hbuilt := (hchain.published h block hblock).built
  have hheight := (hchain.canonical hblock).height_eq h block hblock
  refine ⟨hchain.blobs h block hblock, hheight, by rw [hbuilt.signer_eq],
    hbuilt.proposerAddress_eq, ?_, ?_, ?_⟩
  · intro now hclock
    have hproposer : block.header.header.proposerAddress.length ≠ 0 := by
      rw [hbuilt.proposerAddress_eq, hchain.setting.proposer]
      exact fun hzero => hchain.setting.sha256_ne _ (length_eq_zero_iff.mp hzero)
    unfold Header.validateBasic
    rw [if_neg hproposer, if_neg hbuilt.time_ne_zero, if_neg (not_lt.mpr hclock)]
  · obtain ⟨last, hmetadata⟩ := hbuilt.metadata_eq
    exact ⟨_, hmetadata, hheight⟩
  · have hlength : block.header.header.dataHash.length ≠ 0 := by
      rw [hbuilt.dataHash_eq]
      exact fun hzero => hchain.setting.sha256_ne _ (length_eq_zero_iff.mp hzero)
    unfold isEmptyDataExpected
    rw [← hchain.dataHash_iff hblock]
    simp [hlength]

theorem ChainOnDa.data_eq :
    block.data = ⟨some ⟨block.header.header.chainID, block.header.header.height,
      block.header.header.time, lastDataHash config s.blocks h⟩, block.data.txs⟩ := by
  have hpublished := hchain.published h block hblock
  obtain ⟨last, hmetadata⟩ := hpublished.built.metadata_eq
  have hlast : last = lastDataHash config s.blocks h := by
    have hlinks := hpublished.links
    unfold LinksData at hlinks
    rw [hmetadata] at hlinks
    exact some.inj hlinks
  rw [hpublished.built.chainID_eq, ← hlast, ← hmetadata]

end

section

variable {n : SyncNode} {env : EventEnv} {ev : DAHeightEvent}
  (hchain : ChainOnDa config w key x posted s) (hn : n.Mirrors config w x s h)
  (hblock : s.blocks h = some block)
  (hfirst : config.genesis.initialHeight = 1 ∨ ∀ block,
    s.blocks config.genesis.initialHeight = some block → block.data.txs ≠ [])
include hchain hn hblock hfirst

theorem SyncNode.Mirrors.fillLastDataHash (hread : env.blockRead = true) (hev : ev.Shows block) :
    ∃ filled, n.fillLastDataHash env (daEvent ev) = .ok (some filled) ∧
      filled.header = block.header ∧ filled.data = block.data := by
  have hcanonical := hchain.canonical hblock
  have hstored := (hcanonical.stored_iff h).mp (by simp [hblock])
  have hheight := hn.height_eq
  by_cases hempty : block.data.txs = []
  swap
  · -- there is nothing to complete
    have hdataHash : block.header.header.dataHash ≠ dataHashForEmptyTxs := fun heq =>
      hempty ((hchain.dataHash_iff hblock).mp heq)
    refine ⟨daEvent ev, ?_, hev.header_eq, hev.data_eq.trans (if_neg hempty)⟩
    unfold SyncNode.fillLastDataHash daEvent
    rw [hev.header_eq]
    simp only [hdataHash, false_and, and_false, if_false]
  have hdataHash := (hchain.dataHash_iff hblock).mpr hempty
  have hshown : ev.data = createEmptyDataForHeader block.header :=
    hev.data_eq.trans (if_pos hempty)
  have hdata := hchain.data_eq hblock
  rw [hempty] at hdata
  by_cases hzero : n.store.height = 0
  · -- the first block, of a chain that starts at 1
    have hinitial : h ≤ config.genesis.initialHeight := by
      have hpos := hchain.setting.initial_pos
      omega
    refine ⟨daEvent ev, ?_, hev.header_eq, ?_⟩
    · unfold SyncNode.fillLastDataHash
      rw [hzero]
      simp only [lt_irrefl, and_false, if_false]
    · rw [show (daEvent ev).data = ev.data from rfl, hshown, hdata]
      unfold lastDataHash
      rw [if_pos hinitial]
      rfl
  · -- a later block: the block below is there, with the producer's data
    have hlater : config.genesis.initialHeight < h := by
      rcases Nat.eq_or_lt_of_le hstored.1 with heq | hlt
      · rcases hfirst with hone | hfull
        · omega
        · exact absurd hempty (hfull block (by rw [heq]; exact hblock))
      · exact hlt
    obtain ⟨prev, hprev⟩ := isSome_iff_exists.mp
      ((hcanonical.stored_iff (h - 1)).mpr ⟨by omega, by omega⟩)
    have hsame := hn.blocks_eq (h - 1) (by omega)
    rw [hprev] at hsame
    have hbelow : n.store.height = h - 1 := by omega
    rcases hlast : n.store.blocks (h - 1) with _ | last
    · simp [hlast] at hsame
    rw [hlast] at hsame
    have hlastData : last.data = prev.data := (Prod.mk.inj (some.inj hsame)).2
    have hlink : lastDataHash config s.blocks h = config.codec.dataHash prev.data := by
      have hof : lastDataHash config s.blocks (h - 1 + 1) = config.codec.dataHash prev.data :=
        lastDataHash_of_block (by omega) hprev
      rwa [Nat.sub_add_cancel (by omega)] at hof
    have hcompleted : ∃ completed : HeightEvent, completed =
        { daEvent ev with
          data := ev.filledData (some (n.codec.dataHash last.data)) } :=
      ⟨_, rfl⟩
    obtain ⟨completed, hcompleted⟩ := hcompleted
    refine ⟨completed, ?_, ?_, ?_⟩
    · have hpos : 0 < h - 1 := by omega
      rw [hcompleted]
      unfold SyncNode.fillLastDataHash daEvent
      have hmetadata : ev.data.metadata = some ⟨block.header.header.chainID,
          block.header.header.height, block.header.header.time, []⟩ := by
        rw [hshown]
        rfl
      rw [hev.header_eq, hbelow, hlast]
      simp only [hdataHash, hread, hpos, and_self, if_true, Bool.not_true, Bool.false_eq_true,
        if_false, hmetadata]
      rw [hev.header_eq]
    · rw [hcompleted]
      exact hev.header_eq
    · rw [hcompleted, hdata, hlink, hlastData, hn.codec_eq]
      unfold DAHeightEvent.filledData
      rw [hev.header_eq, hshown]
      simp only [hdataHash]
      rfl

theorem SyncNode.Mirrors.step (hworks : env.Works x)
    (hclock : timeOfUint64 block.header.header.time ≤ env.now + maxClockDrift)
    (hev : ev.Shows block) (haccuses : ∀ filled,
      n.fillLastDataHash env (daEvent ev) = .ok (some filled) →
      ¬ n.syncer.Accuses (n.syncEvent env filled)) :
    ∃ n', n.processHeightEvent env (daEvent ev) = .ok n' ∧
      n'.Mirrors config w x s (h + 1) := by
  have hcanonical := hchain.canonical hblock
  have hpublished := hchain.published h block hblock
  have hheight := hcanonical.height_eq h block hblock
  have hnheight := hn.height_eq
  have hbelow : h - 1 = n.store.height := by omega
  have hheader : (daEvent ev).header = block.header := hev.header_eq
  obtain ⟨filled, hfilled, hfheader, hfdata⟩ :=
    hn.fillLastDataHash hchain hblock hfirst hworks.blockRead hev
  have hnext : (daEvent ev).header.header.height = n.store.height + 1 := by
    rw [hheader, hheight, hn.height_eq]
  have hunseen : n.headerCache.isSeen (n.headerKey (daEvent ev).header) =
      false := by
    refine hn.seen.isSeen_eq_false ?_ (by omega)
    rw [hn.codec_eq]
    exact hchain.headerHash
  -- the node's last state is that of the producer's blocks
  have hstate : n.syncer.lastState.AgreesWith
      (x.stateAt config.codec config.genesis s.blocks (h - 1)) := by
    have hon := hn.onChain
    unfold SyncNode.OnChain at hon
    rw [hn.codec_eq, hn.genesis_eq, ← hbelow] at hon
    have hblocks : x.stateAt config.codec config.genesis n.store.blocks (h - 1) =
        x.stateAt config.codec config.genesis s.blocks (h - 1) := by
      refine ExecutionModel.stateAt_congr (fun k hk => ?_)
      have hlt : k < h := by omega
      have hsame := congrArg (Option.map (fun p : SignedHeader × Data => (p.1.header, p.2.txs)))
        (hn.blocks_eq k hlt)
      simpa [Function.comp_def] using hsame
    rw [← hblocks]
    exact hon
  have hvalid : n.validateBlock env filled = .ok () := by
    unfold validateBlock
    rw [hn.codec_eq, hn.wire_eq, hn.provider_eq, hfheader, hfdata]
    refine validateBlock_ok_iff.mpr ⟨?_, ?_, hpublished.built.validate⟩
    · exact hpublished.built.validateBasicWithData hchain.setting hpublished.signature_ne
        hpublished.verifies hclock
    · exact hstate.assertValidSequence hpublished.built.lastHeaderHash_eq _ _ hpublished.sequence
  obtain ⟨n', hprocessed, hcommits, hwire, hprovider⟩ :=
    processHeightEvent_of_works hworks hnext hunseen hfilled hvalid
      (haccuses filled hfilled)
  rw [hfheader, hfdata] at hcommits
  refine ⟨n', hprocessed, hcommits.genesis_eq.trans hn.genesis_eq,
    hcommits.codec_eq.trans hn.codec_eq, hwire.trans hn.wire_eq, hprovider.trans hn.provider_eq,
    ?_, ?_, ?_, (hn.seen.processHeightEvent hprocessed).1⟩
  · rw [hcommits.height_after, hn.height_eq]
  · intro k hk
    by_cases hlt : k < h
    · rw [hcommits.block_of_le (by omega)]
      exact hn.blocks_eq k hlt
    · obtain rfl : k = n.store.height + 1 := by omega
      rw [hcommits.block_new]
      rw [hn.height_eq, hblock]
      rfl
  · refine hn.onChain.processHeightEvent (fun txs h t r root hroot => ?_) hprocessed
    rw [hworks.executes] at hroot
    exact (ok.inj hroot).symm

end

end

/-! ## The whole chain -/

def chainHeights (config : ExecutorConfig) (s : Store) : List ℕ :=
  List.range' config.genesis.initialHeight (s.height + 1 - config.genesis.initialHeight)

/-- Events of the retriever as a node receives them. -/
def daEvents (taken : List (EventEnv × DAHeightEvent)) : List (EventEnv × HeightEvent) :=
  taken.map (fun p => (p.1, daEvent p.2))

section

variable {config : ExecutorConfig} {w : Wire} {key : PubKey} {x : ExecutionModel}
  {posted : PostedBlobs} {s : Store} {taken : List (EventEnv × DAHeightEvent)}

theorem SyncNode.Mirrors.run (hchain : ChainOnDa config w key x posted s)
    (hfirst : config.genesis.initialHeight = 1 ∨
      ∀ block, s.blocks config.genesis.initialHeight = some block → block.data.txs ≠ [])
    (hshown : ShowChain s (taken.map Prod.snd)) (hworks : ∀ p ∈ taken, EventEnv.Works x p.1)
    (hclock : ∀ p ∈ taken, timeOfUint64 p.2.header.header.time ≤ p.1.now + maxClockDrift) {h : ℕ}
    (hturn : taken.map (fun p => p.2.header.header.height) = List.range' h taken.length)
    (hn : n.Mirrors config w x s h) (haccused : n.NeverAccused (daEvents taken)) :
    ∃ n', n.run (daEvents taken) = .ok n' ∧ n'.Mirrors config w x s (h + taken.length) := by
  induction taken generalizing h n with
  | nil => exact ⟨n, rfl, hn⟩
  | cons p taken ih =>
    obtain ⟨env, ev⟩ := p
    obtain ⟨k, block, hblock, hev⟩ := hshown ev (by simp)
    obtain ⟨hheight, hturn⟩ := cons.inj hturn
    obtain rfl : k = h := by
      rw [← (hchain.canonical hblock).height_eq k block hblock, ← hev.header_eq]
      exact hheight
    obtain ⟨n', hone, hn'⟩ := hn.step hchain hblock hfirst
      (hworks (env, ev) mem_cons_self)
      (by rw [← hev.header_eq]; exact hclock (env, ev) mem_cons_self) hev
      (fun filled hfilled => haccused [] _ _ _ n filled rfl rfl hfilled)
    obtain ⟨n'', hrest, hn''⟩ := ih
      (fun ev hmem => hshown ev (mem_cons_of_mem _ hmem))
      (fun p hp => hworks p (mem_cons_of_mem _ hp))
      (fun p hp => hclock p (mem_cons_of_mem _ hp)) hturn hn' (haccused.tail hone)
    refine ⟨n'', ?_, ?_⟩
    · rw [daEvents, map_cons, run, hone]
      exact hrest
    · rw [length_cons, show k + (taken.length + 1) = k + 1 + taken.length by omega]
      exact hn''

theorem SyncNode.run_stuck (hpos : 0 < n.store.height)
    (hnone : n.store.blocks n.store.height = none)
    (hevents : ∀ p ∈ events, p.2.header.header.height = n.store.height + 1 →
      p.2.source = .sourceDA ∧ p.2.header.header.dataHash = dataHashForEmptyTxs) :
    ∃ n', n.run events = .ok n' ∧ n'.store = n.store := by
  induction events generalizing n with
  | nil => exact ⟨n, rfl, rfl⟩
  | cons event events ih =>
    obtain ⟨env, ev⟩ := event
    have hone : ∃ n', n.processHeightEvent env ev = .ok n' ∧ n'.store = n.store := by
      by_cases hnext : ev.header.header.height = n.store.height + 1
      · obtain ⟨hsource, hempty⟩ := hevents (env, ev) mem_cons_self hnext
        exact processHeightEvent_of_missing hsource hempty hpos hnone
      · exact processHeightEvent_out_of_turn hnext
    obtain ⟨n', hone, hstore⟩ := hone
    obtain ⟨n'', hrest, hstore'⟩ := ih (n := n') (by rw [hstore]; exact hpos)
      (by rw [hstore]; exact hnone)
      (fun p hp => by rw [hstore]; exact hevents p (mem_cons_of_mem _ hp))
    refine ⟨n'', ?_, hstore'.trans hstore⟩
    rw [run, hone]
    exact hrest

theorem SyncNode.mirrors_start (hchain : ChainOnDa config w key x posted s)
    {cfg : StartConfig} (hgenesis : cfg.genesis = config.genesis)
    (hcodec : cfg.codec = config.codec) (hwire : cfg.wire = w)
    (hprovider : cfg.provider = defaultSignatureProvider config.codec)
    (hinit : cfg.initChain = .ok x.initChain) (hstart : start cfg empty = .ok n) :
    n.Mirrors config w x s config.genesis.initialHeight := by
  have hpos : 0 < cfg.genesis.initialHeight := by
    rw [hgenesis]
    exact hchain.setting.initial_pos
  obtain ⟨hgenesis', hcodec', -⟩ := start_empty hpos hstart
  obtain ⟨hheight, hblocks⟩ := start_store hpos hstart
  have hstatic : n.wire = cfg.wire ∧ n.provider = cfg.provider := by
    unfold start at hstart
    split at hstart
    · simp at hstart
    dsimp only at hstart
    split at hstart
    · simp at hstart
    · obtain rfl := ok.inj hstart
      exact ⟨rfl, rfl⟩
  refine ⟨hgenesis'.trans hgenesis, hcodec'.trans hcodec, hstatic.1.trans hwire,
    hstatic.2.trans hprovider, ?_, fun k hk => ?_, ?_,
    (EventPipeline.seenApplied_of_start hstart).1⟩
  · rw [← hgenesis]
    omega
  · rw [hblocks]
    rcases hblock : s.blocks k with _ | block
    · rfl
    · have hstored := ((hchain.canonical hblock).stored_iff k).mp (by simp [hblock])
      omega
  · have hnone : n.run [] = .ok n := rfl
    exact onChain_of_run hpos hinit (fun p hp => absurd hp not_mem_nil) hstart hnone

end

/-- A chain that a producer has committed, however its blobs are spread over DA, and a fresh node
that reads them. The retriever emits an event of each block; processed for each height in turn
they give the node the producer's headers and data, exactly if the chain starts at 1 or its first
block is not empty. -/
theorem da_reconstruction_iff (config : ExecutorConfig) (w : Wire) (key : PubKey)
    (x : ExecutionModel) (events : List ProducerEvent) (hset : ProducerSetting config key)
    (hfaithful : ∀ p ∈ steps step (fresh config) events,
      p.2.Faithful w key x p.1) (hgenesis : uint64OfTime config.genesis.startTime ≠ 0)
    (htimed : ∀ ev ∈ events, ProducerEvent.Timed ev)
    (hcommitment : ∀ txs, config.codec.daCommitment txs = dataHashForEmptyTxs → txs = [])
    (hheaderHash : ∀ h h' : Header, config.codec.headerHash h = config.codec.headerHash h' →
      h.height = h'.height) (s : Store) (hs : (run config events).executor.store = s)
    (posted : PostedBlobs)
    (hblobs : ∀ h block, s.blocks h = some block → RoundTrips config w key posted block)
    (calls : List DaRetriever.Call) (hposted : PostedChain posted s calls)
    (cfg : StartConfig) (hcfgGenesis : cfg.genesis = config.genesis)
    (hcfgCodec : cfg.codec = config.codec) (hcfgWire : cfg.wire = w)
    (hcfgProvider : cfg.provider = defaultSignatureProvider config.codec)
    (hinit : cfg.initChain = .ok x.initChain) (n₀ : SyncNode)
    (hstart : start cfg empty = .ok n₀) :
    (∀ h block, s.blocks h = some block → DaRetriever.Emitted
      ((new config.genesis config.codec w).run calls).1 h) ∧
    ∀ taken : List (EventEnv × DAHeightEvent),
      (∀ p ∈ taken, p.2 ∈ ((new config.genesis config.codec w).run calls).1) →
      taken.map (fun p => p.2.header.header.height) = chainHeights config s →
      (∀ p ∈ taken, EventEnv.Works x p.1) →
      (∀ p ∈ taken, timeOfUint64 p.2.header.header.time ≤ p.1.now + maxClockDrift) →
      n₀.NeverAccused (daEvents taken) →
      ((∃ n, n₀.run (daEvents taken) = .ok n ∧ ∀ h, h ≤ s.height →
          (n.store.blocks h).map (fun b => (b.header, b.data)) =
            (s.blocks h).map (fun b => (b.header, b.data))) ↔
        (config.genesis.initialHeight = 1 ∨
          ∀ block, s.blocks config.genesis.initialHeight = some block →
            block.data.txs ≠ [])) := by
  subst hs
  obtain ⟨hproduced, hpublished⟩ := published_of_run hset hfaithful hgenesis htimed
  have hchain : ChainOnDa config w key x posted (run config events).executor.store :=
    ⟨hset, hcommitment, hheaderHash, hproduced.canonical_or_new.imp id And.right,
      hpublished.blocks, hblobs⟩
  obtain ⟨-, hshown, hemitted⟩ :=
    run_postedChain (fun h block hblock => hchain.readable hblock) hposted
  refine ⟨hemitted, fun taken htaken hturn hworks hclock haccused => ?_⟩
  have hn₀ := mirrors_start hchain hcfgGenesis hcfgCodec hcfgWire hcfgProvider hinit hstart
  have hheight := hn₀.height_eq
  have hpos := hset.initial_pos
  constructor
  · -- an empty first block above 1 is never stored, and so no other block is
    rintro ⟨n, hrun, hblocks⟩
    by_contra hnot
    rw [not_or, not_forall] at hnot
    obtain ⟨hone, block, hfirst⟩ := hnot
    rw [Classical.not_imp, not_not] at hfirst
    obtain ⟨hblock, hempty⟩ := hfirst
    have hcanonical := hchain.canonical hblock
    have hstuck : ∀ p ∈ daEvents taken, p.2.header.header.height = n₀.store.height + 1 →
        p.2.source = .sourceDA ∧ p.2.header.header.dataHash = dataHashForEmptyTxs := by
      intro p hp hnext
      obtain ⟨q, hq, rfl⟩ := mem_map.mp hp
      obtain ⟨k, block', hblock', hev⟩ := hshown q.2 (htaken q hq)
      have hk : k = config.genesis.initialHeight := by
        rw [← hheight, ← hcanonical.height_eq k block' hblock', ← hev.header_eq]
        exact hnext
      subst hk
      obtain rfl := some.inj (hblock.symm.trans hblock')
      refine ⟨rfl, ?_⟩
      rw [show (daEvent q.2).header = block.header from hev.header_eq]
      exact (hchain.dataHash_iff hblock).mpr hempty
    have hnone : ∀ h, n₀.store.blocks h = none :=
      (start_store (by rw [hcfgGenesis]; exact hpos) hstart).2
    obtain ⟨n', hrun', hstore⟩ := run_stuck (by omega) (hnone _) hstuck
    obtain rfl := ok.inj (hrun.symm.trans hrun')
    have hlost := hblocks config.genesis.initialHeight
      ((hcanonical.stored_iff _).mp (by simp [hblock])).2
    simp [hstore, hnone, hblock] at hlost
  · intro hfirst
    have hlength : taken.length =
        (run config events).executor.store.height + 1 -
          config.genesis.initialHeight := by
      have hmap := congrArg List.length hturn
      simpa [chainHeights] using hmap
    obtain ⟨n, hrun, hn⟩ := hn₀.run hchain hfirst
      (fun ev hmem => by
        obtain ⟨p, hp, rfl⟩ := mem_map.mp hmem
        exact hshown p.2 (htaken p hp))
      hworks hclock (by rw [hturn, hlength]; rfl) haccused
    refine ⟨n, hrun, fun h hle => hn.blocks_eq h ?_⟩
    omega

/-! ## One empty block, as the block 1 and as the block 2 of a chain -/

def tallyCodec : Codec :=
  { chainCodec with
    headerBytes := fun h => 2 :: List.replicate h.height 1
    headerBytesLegacy := fun h => 2 :: List.replicate h.height 1
    dataBytes := fun d => d.txs.flatMap (fun tx => 9 :: tx) }

theorem tallyCodec_height (h h' : Header)
    (hhash : tallyCodec.headerHash h = tallyCodec.headerHash h') : h.height = h'.height := by
  have hlength : ∀ h : Header, (tallyCodec.headerHash h).length = h.height + 2 := by
    intro h
    have hsha : tallyCodec.sha256 (2 :: List.replicate h.height 1) =
        1 :: 2 :: List.replicate h.height 1 := by
      simp [tallyCodec, chainCodec]
    unfold Codec.headerHash
    split_ifs
    all_goals
      change (tallyCodec.sha256 (2 :: List.replicate h.height 1)).length = _
      rw [hsha]
      simp
  have hsame := congrArg List.length hhash
  rw [hlength, hlength] at hsame
  omega

theorem tallyCodec_commitment (txs : List Tx)
    (hempty : tallyCodec.daCommitment txs = dataHashForEmptyTxs) : txs = [] := by
  rcases txs with _ | ⟨tx, txs⟩
  · rfl
  · have hcommitment : tallyCodec.daCommitment (tx :: txs) =
        1 :: 0 :: 9 :: (tx ++ txs.flatMap (fun tx => 9 :: tx)) := by
      simp [tallyCodec, chainCodec, Codec.daCommitment, Codec.leafHash]
    exact absurd (cons.inj hempty).1 (by decide)

def tallyProducer (i : ℕ) : ExecutorConfig :=
  { smallProducer 1 with
    genesis := { (smallProducer 1).genesis with initialHeight := i }
    codec := tallyCodec }

theorem tallyProducer_setting (hpos : 0 < i) :
    ProducerSetting (tallyProducer i) smallKey := by
  have hproposer : [1, 7] = keyAddress tallyCodec smallKey := by decide
  have hempty : tallyCodec.daCommitment [] = dataHashForEmptyTxs := by decide
  exact ⟨hpos, rfl, hproposer, chainCodec_sha256_ne, fun _ => cons_ne_nil _ _, hempty⟩

def tallyRun (i : ℕ) : List ProducerEvent :=
  [toyStart, .produce { smallInput with sign := .ok (7 :: 2 :: List.replicate i 1) }]

def tallyBlock (i : ℕ) : StoredBlock where
  header := ⟨{ smallHeader 1 with height := i }, 7 :: 2 :: List.replicate i 1,
    ⟨some smallKey, [1, 7]⟩⟩
  data := ⟨some ⟨"chain", i, 1, []⟩, []⟩
  signature := 7 :: 2 :: List.replicate i 1

def tallyWire (i : ℕ) : Wire :=
  tableWire [([1], ⟨⟨some ⟨none, i, 1, [], dataHashForEmptyTxs, [0], [1, 7], [], "chain", []⟩,
      7 :: 2 :: List.replicate i 1, some ⟨[1, 7], [7]⟩⟩, [7, 4]⟩)]
    [([2], ⟨some (tallyBlock i).data, [7], some ⟨[1, 7], [7]⟩⟩)]

def tallyPosted : PostedBlobs := ⟨fun _ => [1], fun _ => [2]⟩

def tallyCalls : List DaRetriever.Call := [⟨[[1]], 1, 10⟩]

theorem tallyBlock_roundTrips (i : ℕ) :
    RoundTrips (tallyProducer i) (tallyWire i) smallKey tallyPosted (tallyBlock i) where
  header_ne := cons_ne_nil _ _
  header := ⟨[7, 4], rfl, by decide, rfl⟩
  data := fun hfull => absurd rfl hfull

def tallyEvent (i : ℕ) : DAHeightEvent :=
  ⟨(tallyBlock i).header, createEmptyDataForHeader (tallyBlock i).header, 1⟩

def tallyConfig (i : ℕ) : StartConfig :=
  { chainConfig with
    genesis := (tallyProducer i).genesis
    codec := tallyCodec
    wire := tallyWire i
    provider := defaultSignatureProvider tallyCodec }

def tallyNode (i : ℕ) : SyncNode :=
  { EventPipeline.unaryNode with
    syncer := Syncer.ofState (tallyProducer i).genesis tallyCodec forcedClient
      (Executor.genesisState (tallyProducer i).genesis [0])
    wire := tallyWire i
    provider := defaultSignatureProvider tallyCodec
    store := (empty.setHeight (i - 1)).updateState
      (Executor.genesisState (tallyProducer i).genesis [0]) }

theorem tallyRun_faithful
    (hnew : ((fresh (tallyProducer i)).step toyStart).executor.newHeight = i)
    (hcodec : ((fresh (tallyProducer i)).step toyStart).executor.config.codec =
      tallyCodec) :
    ∀ p ∈ steps step (fresh (tallyProducer i)) (tallyRun i),
      p.2.Faithful (tallyWire i) smallKey smallExecution p.1 := by
  refine forall_mem_cons.mpr ⟨fun root hroot => (ok.inj hroot).symm, forall_mem_singleton.mpr ?_⟩
  refine smallInput_faithful (cons_ne_nil _ _) (fun header hheight => ?_)
  have hbytes : tallyCodec.headerBytes header = 2 :: List.replicate i 1 := by
    rw [← hnew, ← hheight]
    rfl
  rw [hcodec, hbytes]
  simp [tallyWire, tableWire, smallKey]

theorem tallyRun_timed (i : ℕ) : ∀ ev ∈ tallyRun i, ProducerEvent.Timed ev :=
  forall_mem_cons.mpr ⟨trivial, forall_mem_singleton.mpr (smallInput_timed _)⟩

theorem tallyRun_blocks (hpos : 0 < i)
    (hfaithful : ∀ p ∈ steps step (fresh (tallyProducer i))
      (tallyRun i), p.2.Faithful (tallyWire i) smallKey smallExecution p.1)
    (hheight : (run (tallyProducer i) (tallyRun i)).executor.store.height = i)
    (hfirst : (run (tallyProducer i) (tallyRun i)).executor.store.blocks i =
      some (tallyBlock i)) (h : ℕ) (block : StoredBlock)
    (hblock : (run (tallyProducer i) (tallyRun i)).executor.store.blocks h =
      some block) : h = i ∧ block = tallyBlock i := by
  obtain ⟨hinv, -⟩ := published_of_run (tallyProducer_setting hpos) hfaithful
    (by show uint64OfTime 1 ≠ 0; decide) (tallyRun_timed i)
  rcases hinv.canonical_or_new with hcanonical | ⟨-, hempty⟩
  · obtain ⟨hle, hge⟩ := (hcanonical.stored_iff h).mp (by simp [hblock])
    obtain rfl : h = i := Nat.le_antisymm (hge.trans hheight.le) hle
    exact ⟨rfl, some.inj (hblock.symm.trans hfirst)⟩
  · rw [hempty] at hblock
    exact absurd hblock (by simp [empty])

theorem tallyPosted_chain {s : Store} (hfirst : s.blocks i = some (tallyBlock i))
    (honly : ∀ h block, s.blocks h = some block → h = i ∧ block = tallyBlock i) :
    PostedChain tallyPosted s tallyCalls := by
  refine ⟨?_, ?_, ?_, ?_⟩
  · intro call hcall bz hbz
    obtain rfl := mem_singleton.mp hcall
    exact ⟨i, tallyBlock i, hfirst, .inl (mem_singleton.mp hbz)⟩
  · exact fun h block hblock => ⟨_, mem_singleton_self _, mem_singleton_self _⟩
  · intro h block hblock hfull
    obtain ⟨-, rfl⟩ := honly h block hblock
    exact absurd rfl hfull
  · intro call hcall h block hblock hmem
    obtain rfl := mem_singleton.mp hcall
    obtain ⟨-, rfl⟩ := honly h block hblock
    show timeOfUint64 1 ≤ (10 : Time) + maxClockDrift
    decide

theorem chainEnv_works : EventEnv.Works smallExecution (chainEnv true) :=
  ⟨rfl, rfl, rfl, rfl, fun _ _ _ _ => rfl⟩

theorem SyncNode.neverAccused_single {env : EventEnv} {ev : HeightEvent}
    (haccuses : ∀ filled, n.fillLastDataHash env ev = .ok (some filled) →
      ¬ n.syncer.Accuses (n.syncEvent env filled)) : n.NeverAccused [(env, ev)] := by
  intro before env' ev' after n' filled hsplit hrun
  rcases before with _ | ⟨p, before⟩
  · obtain ⟨hp, -⟩ := cons.inj hsplit
    obtain ⟨rfl, rfl⟩ := Prod.mk.inj hp
    obtain rfl := ok.inj hrun
    exact haccuses filled
  · exact absurd (cons.inj hsplit).2 (by simp)

/-- A chain that starts at 2 with an empty block: producer, blobs and node are as they should be,
nothing fails, and the node asks for the data of a block 1 and drops the event. -/
theorem empty_first_block_dropped :
    ProducerSetting (tallyProducer 2) smallKey ∧
      (∀ p ∈ steps step (fresh (tallyProducer 2)) (tallyRun 2),
        p.2.Faithful (tallyWire 2) smallKey smallExecution p.1) ∧
      (run (tallyProducer 2) (tallyRun 2)).executor.store.blocks 2 =
        some (tallyBlock 2) ∧
      RoundTrips (tallyProducer 2) (tallyWire 2) smallKey tallyPosted (tallyBlock 2) ∧
      ((new (tallyProducer 2).genesis tallyCodec (tallyWire 2)).run tallyCalls).1 =
        [tallyEvent 2] ∧
      start (tallyConfig 2) empty = .ok (tallyNode 2) ∧
      EventEnv.Works smallExecution (chainEnv true) ∧
      (tallyNode 2).NeverAccused (daEvents [(chainEnv true, tallyEvent 2)]) ∧
      ∃ n, (tallyNode 2).run (daEvents [(chainEnv true, tallyEvent 2)]) = .ok n ∧
        n.store.height = 1 ∧ n.store.blocks 2 = none := by
  refine ⟨tallyProducer_setting (by decide), tallyRun_faithful rfl rfl, by decide +kernel,
    tallyBlock_roundTrips 2, by decide +kernel, rfl, chainEnv_works, ?_, _, rfl, rfl, rfl⟩
  refine neverAccused_single (fun filled hfilled => ?_)
  exact absurd (ok.inj hfilled) (by simp)

theorem da_reconstruction_of_one :
    ∃ n, (tallyNode 1).run (daEvents [(chainEnv true, tallyEvent 1)]) = .ok n ∧
      ∀ h, h ≤ (run (tallyProducer 1) (tallyRun 1)).executor.store.height →
        (n.store.blocks h).map (fun b => (b.header, b.data)) =
          ((run (tallyProducer 1) (tallyRun 1)).executor.store.blocks h).map
            (fun b => (b.header, b.data)) := by
  have hfaithful := tallyRun_faithful (i := 1) rfl rfl
  have hfirst : (run (tallyProducer 1) (tallyRun 1)).executor.store.blocks 1 =
      some (tallyBlock 1) := by
    decide +kernel
  have honly := tallyRun_blocks Nat.one_pos hfaithful (by decide +kernel) hfirst
  have hemitted : ((new (tallyProducer 1).genesis tallyCodec (tallyWire 1)).run
      tallyCalls).1 = [tallyEvent 1] := by
    decide +kernel
  obtain ⟨-, hiff⟩ := da_reconstruction_iff (tallyProducer 1) (tallyWire 1) smallKey
    smallExecution (tallyRun 1) (tallyProducer_setting Nat.one_pos) hfaithful
    (by show uint64OfTime 1 ≠ 0; decide) (tallyRun_timed 1) tallyCodec_commitment
    tallyCodec_height _ rfl tallyPosted
    (fun h block hblock => by rw [(honly h block hblock).2]; exact tallyBlock_roundTrips 1)
    tallyCalls (tallyPosted_chain hfirst honly) (tallyConfig 1) rfl rfl rfl rfl rfl (tallyNode 1)
    rfl
  refine (hiff [(chainEnv true, tallyEvent 1)] ?_ (by decide +kernel) ?_ ?_ ?_).mpr (.inl rfl)
  · intro p hp
    rw [mem_singleton.mp hp]
    exact hemitted ▸ mem_singleton_self _
  · intro p hp
    rw [mem_singleton.mp hp]
    exact chainEnv_works
  · intro p hp
    rw [mem_singleton.mp hp]
    show timeOfUint64 1 ≤ (10 : Time) + maxClockDrift
    decide
  · refine neverAccused_single (fun filled hfilled => ?_)
    obtain rfl := some.inj (ok.inj hfilled)
    rintro ⟨count, hcount⟩
    have hok := hcount.symm.trans (b := Except.ok ()) (by rfl)
    simp at hok

end ChainSdk

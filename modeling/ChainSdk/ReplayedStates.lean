/-
What a replay does to the states it finds.

`SyncToHeight` is run at every start, to bring the execution client up to the store. It recomputes
the state of each block it replays from the state before and writes it through the batch that
production and syncing use.
-/
import ChainSdk.ProducerAgreement
import ChainSdk.StoreHistories

namespace ChainSdk

/-! ## The execution client during a replay -/

def replayBlockClient (genesis : Genesis) (env : ReplayEnv) (store : Store) (height client : ℕ) :
    ℕ :=
  match store.blocks height with
  | none => client
  | some block =>
    match replayPrevState genesis store block height with
    | none => client
    | some _ =>
      match env.execute height with
      | .error _ => client
      | .ok _ => height

def replayBlocksClient (c : Codec) (genesis : Genesis) (env : ReplayEnv) :
    Store → List ℕ → ℕ → ℕ
  | _, [], client => client
  | store, h :: hs, client =>
    match replayBlock c genesis env store h with
    | (.error _, _) => replayBlockClient genesis env store h client
    | (.ok _, store') =>
      replayBlocksClient c genesis env store' hs (replayBlockClient genesis env store h client)

def syncToHeightClient (c : Codec) (genesis : Genesis) (env : ReplayEnv) (store : Store)
    (target client : ℕ) : ℕ :=
  match env.execHeight with
  | none => client
  | some reply =>
    if target < genesis.initialHeight then client
    else
      match reply with
      | .error _ => client
      | .ok execHeight =>
        if target < execHeight then
          match env.rollback with
          | some true => target
          | _ => client
        else if execHeight < target then
          if (store.blocks target).isNone then client
          else replayBlocksClient c genesis env store
            (List.range' (execHeight + 1) (target - execHeight)) client
        else client

/-! ## A replay that goes through -/

/-- The state of `h` after a replay: it follows from the state before, as it is then, with the
root that was recorded. -/
structure ReplayedAt (c : Codec) (genesis : Genesis) (before after : Store) (h : ℕ)
    (block : StoredBlock) (prev : State) (root : Hash) : Prop where
  block_eq : before.blocks h = some block
  prev_eq : replayPrevState genesis after block h = some prev
  root_eq : ∀ st, before.states h = some st → root = st.appHash
  state_eq : after.states h = some (prev.nextState c block.header.header root)

section

variable {c : Codec} {genesis : Genesis} {env : ReplayEnv} {store store' : Store}

theorem replayBlock_ok {h : ℕ} (hok : replayBlock c genesis env store h = (.ok (), store')) :
    ∃ block prev root, store.blocks h = some block ∧
      replayPrevState genesis store block h = some prev ∧
      (∀ st, store.states h = some st → root = st.appHash) ∧
      store' = store.updateState (prev.nextState c block.header.header root) ∧
      ∀ client, replayBlockClient genesis env store h client = h := by
  unfold replayBlock at hok
  unfold replayBlockClient
  rcases hblock : store.blocks h with _ | block
  · simp [hblock] at hok
  simp only [hblock] at hok ⊢
  rcases hprev : replayPrevState genesis store block h with _ | prev
  · simp [hprev] at hok
  simp only [hprev] at hok ⊢
  rcases hroot : env.execute h with err | root
  · simp [hroot] at hok
  simp only [hroot] at hok ⊢
  split_ifs at hok with hmismatch hcommits
  · simp at hok
  · simp at hok
  · refine ⟨block, prev, root, rfl, hprev, ?_, (Prod.mk.inj hok).2.symm, fun _ => trivial⟩
    intro st hst
    simpa [hst] using hmismatch

/-- Replaying the heights from `first` on in turn: each state is written once, from the one
written just before, and the client ends at the last of them. -/
theorem replayBlocks_ok {first count : ℕ}
    (hheight : ∀ h block, store.blocks h = some block → block.header.header.height = h)
    (hok : replayBlocks c genesis env store (List.range' (first + 1) count) = (.ok (), store')) :
    (∀ h, h ≤ first ∨ first + count < h → store'.states h = store.states h) ∧
      (∀ h, first < h → h ≤ first + count →
        ∃ block prev root, ReplayedAt c genesis store store' h block prev root) ∧
      replayBlocksClient c genesis env store (List.range' (first + 1) count) first =
        first + count := by
  induction count generalizing first store with
  | zero =>
    obtain ⟨-, rfl⟩ := Prod.mk.inj hok
    exact ⟨fun _ _ => rfl, fun h hlo hhi => absurd hlo (by omega), rfl⟩
  | succ count ih =>
    rw [List.range'_succ] at hok ⊢
    rw [replayBlocks] at hok
    rw [replayBlocksClient]
    rcases hone : replayBlock c genesis env store (first + 1) with ⟨err | _, next⟩
    · rw [hone] at hok
      exact absurd (Prod.mk.inj hok).1 (by simp)
    rw [hone] at hok
    obtain ⟨block, prev, root, hblock, hprev, hroot, rfl, hclient⟩ := replayBlock_ok hone
    obtain ⟨hrest, hwritten, hlast⟩ := @ih (store.updateState _) (first + 1) hheight hok
    -- the first write is at its own height
    have hself : (store.updateState (prev.nextState c block.header.header root)).states
        (first + 1) = some (prev.nextState c block.header.header root) := by
      rw [← hheight _ block hblock]
      exact Function.update_self _ _ _
    have hother : ∀ h, h ≠ first + 1 →
        (store.updateState (prev.nextState c block.header.header root)).states h =
          store.states h := by
      intro h hne
      rw [← hheight _ block hblock] at hne
      exact Function.update_of_ne hne _ _
    refine ⟨fun h hout => ?_, fun h hlo hhi => ?_, ?_⟩
    · rw [hrest h (by omega), hother h (by omega)]
    · by_cases hfirst : h = first + 1
      · subst hfirst
        refine ⟨block, prev, root, hblock, ?_, hroot, ?_⟩
        · unfold replayPrevState at hprev ⊢
          rw [Nat.add_sub_cancel, hrest first (by omega), hother first (by omega)]
          exact hprev
        · rw [hrest (first + 1) (by omega), hself]
      · obtain ⟨block', prev', root', hat⟩ := hwritten h (by omega) (by omega)
        refine ⟨block', prev', root', hat.block_eq, hat.prev_eq, ?_, hat.state_eq⟩
        rw [← hother h hfirst]
        exact hat.root_eq
    · dsimp only
      rw [hclient]
      omega

end

/-! ## Recorded DA heights -/

/-- The block of `h` did not move the DA height: its state has that of the state before, and
the state of the first block has none. -/
def Store.KeepsDAHeight (genesis : Genesis) (s : Store) (h : ℕ) : Prop :=
  (s.states h).map State.daHeight =
    if h = genesis.initialHeight then some 0 else (s.states (h - 1)).map State.daHeight

instance (genesis : Genesis) (s : Store) (h : ℕ) : Decidable (s.KeepsDAHeight genesis h) :=
  inferInstanceAs (Decidable (_ = _))

theorem State.AgreesWith.eq_of_daHeight {s t : State} (h : s.AgreesWith t)
    (hda : s.daHeight = t.daHeight) : s = t := by
  obtain ⟨h1, h2, h3, h4, h5, h6, h7⟩ := h
  cases s
  cases t
  simp only at h1 h2 h3 h4 h5 h6 h7 hda
  rw [h1, h2, h3, h4, h5, h6, h7, hda]

section

variable {c : Codec} {genesis : Genesis} {before after : Store} {h : ℕ} {block : StoredBlock}
  {prev : State} {root : Hash}

theorem ReplayedAt.prev_daHeight (hat : ReplayedAt c genesis before after h block prev root) :
    (if h = genesis.initialHeight then some 0 else (after.states (h - 1)).map State.daHeight) =
      some prev.daHeight := by
  rcases replayPrevState_cases hat.prev_eq with ⟨hfirst, _, rfl⟩ | ⟨hfirst, hprev⟩
  · rw [if_pos hfirst]
    rfl
  · rw [if_neg hfirst, hprev]
    rfl

theorem ReplayedAt.agreesWith (hpos : 0 < genesis.initialHeight)
    (hs : before.Recorded genesis c) (hafter : after.Recorded genesis c)
    (hat : ReplayedAt c genesis before after h block prev root)
    (hblocks : after.blocks = before.blocks) {st : State} (hst : before.states h = some st) :
    State.AgreesWith (prev.nextState c block.header.header root) st := by
  have hblock := hat.block_eq
  have hstored := (hs.stored_iff h).mp (by simp [hblock])
  obtain ⟨st', hst', hrecords⟩ := hs.states h (by omega) hstored.2
  obtain rfl := Option.some.inj (hst.symm.trans hst')
  have hnew : State.Records genesis c before.blocks h
      (prev.nextState c block.header.header root) := by
    refine State.OfGenesis.records ?_ hblock (hs.height_eq h block hblock) root prev.daHeight
    refine hafter.replayPrevState hpos ?_ hat.prev_eq
    rw [hblocks]
    exact hblock
  constructor
  · rw [hnew.version_eq, hrecords.version_eq]
  · rw [hnew.chainID_eq, hrecords.chainID_eq]
  · rw [hnew.initialHeight_eq, hrecords.initialHeight_eq]
  · rw [hnew.lastBlockHeight_eq, hrecords.lastBlockHeight_eq]
  · rw [hnew.lastBlockTime_eq block hblock, hrecords.lastBlockTime_eq block hblock]
  · rw [hnew.lastHeaderHash_eq block hblock, hrecords.lastHeaderHash_eq block hblock]
  · exact hat.root_eq st hst

theorem ReplayedAt.keepsDAHeight (hat : ReplayedAt c genesis before after h block prev root)
    (hsame : ∀ k, after.states k = before.states k) : before.KeepsDAHeight genesis h := by
  unfold Store.KeepsDAHeight
  rw [← hsame h, ← hsame (h - 1), hat.prev_daHeight, hat.state_eq]
  rfl

theorem ReplayedAt.states_eq (hpos : 0 < genesis.initialHeight)
    (hs : before.Recorded genesis c) (hafter : after.Recorded genesis c)
    (hat : ReplayedAt c genesis before after h block prev root)
    (hblocks : after.blocks = before.blocks) (hkeeps : before.KeepsDAHeight genesis h)
    (hprev : after.states (h - 1) = before.states (h - 1)) :
    after.states h = before.states h := by
  have hstored := (hs.stored_iff h).mp (by simp [hat.block_eq])
  obtain ⟨st, hst, -⟩ := hs.states h (by omega) hstored.2
  have hda : (prev.nextState c block.header.header root).daHeight = st.daHeight := by
    unfold Store.KeepsDAHeight at hkeeps
    rw [← hprev, hat.prev_daHeight, hst] at hkeeps
    exact (Option.some.inj hkeeps).symm
  rw [hat.state_eq, hst, (hat.agreesWith hpos hs hafter hblocks hst).eq_of_daHeight hda]

end

/-! ## Whole replays -/

section

variable {c : Codec} {genesis : Genesis} {env : ReplayEnv} {store : Store} {e t : ℕ}

theorem syncToHeight_skipped (c : Codec) (genesis : Genesis) (store : Store)
    (hexec : env.execHeight = some (.ok e)) (h : e = t ∨ e ≤ t ∧ t < genesis.initialHeight) :
    syncToHeight c genesis env store t = (.ok (), store) ∧
      syncToHeightClient c genesis env store t e = e := by
  unfold syncToHeight syncToHeightClient
  rw [hexec]
  by_cases hfirst : t < genesis.initialHeight
  · simp only [if_pos hfirst, and_self]
  · obtain rfl : e = t := by omega
    simp only [if_neg hfirst, lt_irrefl, if_false, and_self]

theorem syncToHeight_loop (hexec : env.execHeight = some (.ok e)) (hlt : e < t)
    (hfirst : genesis.initialHeight ≤ t) (hok : (syncToHeight c genesis env store t).1 = .ok ()) :
    syncToHeight c genesis env store t =
        replayBlocks c genesis env store (List.range' (e + 1) (t - e)) ∧
      syncToHeightClient c genesis env store t e =
        replayBlocksClient c genesis env store (List.range' (e + 1) (t - e)) e := by
  unfold syncToHeight at hok ⊢
  unfold syncToHeightClient
  rw [hexec] at hok ⊢
  dsimp only at hok ⊢
  rw [if_neg (not_lt.mpr hfirst), if_neg (not_lt.mpr hlt.le), if_pos hlt] at hok ⊢
  rw [if_neg (not_lt.mpr hfirst), if_neg (not_lt.mpr hlt.le), if_pos hlt]
  by_cases hnone : (store.blocks t).isNone = true
  · rw [if_pos hnone] at hok
    simp at hok
  · rw [if_neg hnone, if_neg hnone]
    exact ⟨rfl, rfl⟩

end

/-- On any store that producing and syncing can leave, a `SyncToHeight` that succeeds leaves all
states as they were and the client at the target, exactly if there was nothing to do, or the target
is a height of the chain and no block it replays has moved the DA height, the first block not away
from zero. -/
theorem replay_keeps_states_iff (genesis : Genesis) (c : Codec) (store : Store) (env : ReplayEnv)
    (e t : ℕ) (hpos : 0 < genesis.initialHeight) (hstore : store.OfNode genesis c)
    (hexec : env.execHeight = some (.ok e)) (het : e ≤ t) (ht : t ≤ store.height)
    (hok : (syncToHeight c genesis env store t).1 = .ok ()) :
    ((∀ h, (syncToHeight c genesis env store t).2.states h = store.states h) ∧
        (syncToHeight c genesis env store t).2.getState = store.getState ∧
        syncToHeightClient c genesis env store t e = t) ↔
      e = t ∨ genesis.initialHeight ≤ t ∧
        ∀ h, e < h → h ≤ t → store.KeepsDAHeight genesis h := by
  rcases Nat.eq_or_lt_of_le het with rfl | hlt
  · obtain ⟨hsame, hclient⟩ := syncToHeight_skipped c genesis store hexec (.inl rfl)
    rw [hsame, hclient]
    exact ⟨fun _ => .inl rfl, fun _ => ⟨fun _ => rfl, rfl, rfl⟩⟩
  by_cases hfirst : t < genesis.initialHeight
  · obtain ⟨-, hclient⟩ := syncToHeight_skipped c genesis store hexec (.inr ⟨het, hfirst⟩)
    rw [hclient]
    constructor
    · rintro ⟨-, -, rfl⟩
      exact absurd hlt (lt_irrefl _)
    · rintro (rfl | ⟨hge, -⟩)
      · exact absurd hlt (lt_irrefl _)
      · exact absurd hfirst (not_lt.mpr hge)
  have hge := not_lt.mp hfirst
  have hframe := syncToHeight_frame c genesis env store t
  obtain ⟨hloop, hclient⟩ := syncToHeight_loop hexec hlt hge hok
  -- a store with a height of the chain is not blank
  have hs : store.Recorded genesis c := by
    rcases hstore.recorded hpos with hs | hblank
    · exact hs
    · have hzero := hblank.height_eq
      omega
  have hafter := hs.syncToHeight hpos env t
  have hblocks := hframe.blocks_eq
  have hpair : replayBlocks c genesis env store (List.range' (e + 1) (t - e)) =
      (.ok (), (syncToHeight c genesis env store t).2) := by
    rw [← hloop]
    exact Prod.ext hok rfl
  obtain ⟨hrest, hwritten, hlast⟩ := replayBlocks_ok hs.height_eq hpair
  constructor
  · rintro ⟨hsame, -, -⟩
    refine .inr ⟨hge, fun h hlo hhi => ?_⟩
    obtain ⟨block, prev, root, hat⟩ := hwritten h hlo (by omega)
    exact hat.keepsDAHeight hsame
  · rintro (rfl | ⟨-, hkeeps⟩)
    · exact absurd hlt (lt_irrefl _)
    -- by induction on the height: each state is written from the one before
    have hall : ∀ h, (syncToHeight c genesis env store t).2.states h = store.states h := by
      intro h
      induction h with
      | zero => exact hrest 0 (by omega)
      | succ h ih =>
        by_cases hin : e < h + 1 ∧ h + 1 ≤ t
        · obtain ⟨block, prev, root, hat⟩ := hwritten (h + 1) hin.1 (by omega)
          exact hat.states_eq hpos hs hafter hblocks (hkeeps _ hin.1 hin.2) ih
        · exact hrest (h + 1) (by omega)
    refine ⟨hall, ?_, by omega⟩
    unfold Store.getState
    rw [hall, hframe.height_eq]

/-! ## A small chain -/

/-- The store after two blocks, the second one produced when the sequencer had reached the DA
height `daHeight`; the first one was produced at DA height 1. -/
def twoBlocks (daHeight : ℕ) : Store :=
  (ProducerNode.run (smallProducer 1) [toyStart, .produce smallInput,
    .produce { smallInput with daHeight := daHeight }]).executor.store

theorem twoBlocks_ofNode (daHeight : ℕ) :
    (twoBlocks daHeight).OfNode (smallProducer 1).genesis chainCodec :=
  .produced (smallProducer 1) _ rfl rfl .empty

def clientAt (height : ℕ) : ReplayEnv := ⟨some (.ok height), none, fun _ => .ok [0], fun _ => true⟩

/-- The client has lost the second block. Its replay succeeds and takes the recorded DA height
back from 4 to 1. -/
theorem replay_resets_daHeight :
    (twoBlocks 4).OfNode (smallProducer 1).genesis chainCodec ∧ 2 ≤ (twoBlocks 4).height ∧
      (syncToHeight chainCodec (smallProducer 1).genesis (clientAt 1) (twoBlocks 4) 2).1 =
        .ok () ∧
      (twoBlocks 4).getState.map State.daHeight = some 4 ∧
      (syncToHeight chainCodec (smallProducer 1).genesis (clientAt 1)
        (twoBlocks 4) 2).2.getState.map State.daHeight = some 1 := by
  refine ⟨twoBlocks_ofNode 4, ?_⟩
  decide +kernel

theorem replay_keeps_states_of_small :
    (∀ h, (syncToHeight chainCodec (smallProducer 1).genesis (clientAt 1)
        (twoBlocks 1) 2).2.states h = (twoBlocks 1).states h) ∧
      (syncToHeight chainCodec (smallProducer 1).genesis (clientAt 1) (twoBlocks 1) 2).2.getState =
        (twoBlocks 1).getState ∧
      syncToHeightClient chainCodec (smallProducer 1).genesis (clientAt 1) (twoBlocks 1) 2 1 =
        2 := by
  refine (replay_keeps_states_iff (smallProducer 1).genesis chainCodec (twoBlocks 1) (clientAt 1)
    1 2 (by decide) (twoBlocks_ofNode 1) rfl (by decide) (by decide +kernel)
    (by decide +kernel)).mpr (.inr ⟨by decide, fun h hlo hhi => ?_⟩)
  obtain rfl : h = 2 := by omega
  decide +kernel

theorem disk_holds_chain_of_two : (twoBlocks 4).Recorded (smallProducer 1).genesis chainCodec :=
  disk_holds_chain Nat.one_pos (twoBlocks_ofNode 4) (fun hblank => by cases hblank.height_eq)

end ChainSdk

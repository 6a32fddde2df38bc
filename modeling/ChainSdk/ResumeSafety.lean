/-
When a restarted node misses nothing.

Every DA height a node remembers, in its caches, their snapshots, the records of DA inclusion, its
states and its events, was that of a call that read from DA.
-/
import ChainSdk.ResumePoint

namespace ChainSdk

open BlockCache Except List Option Syncer

/-! ## Bounds of what is needed -/

section

variable {needed : Set ℕ} {d d' : ℕ}

theorem neededDAHeights_anti (blocks : Set BlockOnDa) {height height' : ℕ}
    (hle : height ≤ height') : neededDAHeights blocks height' ⊆ neededDAHeights blocks height := by
  rintro daHeight ⟨b, hb, habove, hheld⟩
  exact ⟨b, hb, by omega, hheld⟩

theorem zero_mem_lowerBounds : 0 ∈ lowerBounds needed := fun _ _ => Nat.zero_le _

theorem mem_lowerBounds_of_le (hle : d ≤ d') (hd : d' ∈ lowerBounds needed) :
    d ∈ lowerBounds needed := fun _ hx => hle.trans (hd hx)

theorem max_mem_lowerBounds (hd : d ∈ lowerBounds needed) (hd' : d' ∈ lowerBounds needed) :
    max d d' ∈ lowerBounds needed := fun _ hx => max_le (hd hx) (hd' hx)

end

/-! ## Caches -/

namespace BlockCache

variable {c : BlockCache} {needed : Set ℕ} {key : CacheKey} {d height : ℕ}

def Below (needed : Set ℕ) (c : BlockCache) : Prop :=
  ∀ key d, c.getDAIncluded key = some d → d ∈ lowerBounds needed

theorem Below.new : new.Below needed := by
  intro key d hd
  exact absurd hd (by simp [BlockCache.new, getDAIncluded])

theorem Below.removeDAIncluded (hc : c.Below needed) (key : CacheKey) :
    (c.removeDAIncluded key).Below needed :=
  fun key' d hd => hc key' d (lookup_of_lookup_erase hd)

theorem Below.setDAIncluded (hc : c.Below needed) (hd : d ∈ lowerBounds needed)
    (key : CacheKey) (height : ℕ) : (c.setDAIncluded key d height).Below needed := by
  have hevicted : (c.evictPrevious key height).Below needed := by
    unfold evictPrevious
    split
    · exact hc
    · split_ifs
      · exact hc.removeDAIncluded _
      · exact hc
  exact forall_lookup_insert hevicted hd

theorem Below.deleteAllForHeight (hc : c.Below needed) (height : ℕ) :
    (c.deleteAllForHeight height).Below needed := by
  unfold BlockCache.deleteAllForHeight
  split
  · exact hc
  · exact hc.removeDAIncluded _

theorem Below.getDAIncludedByHeight (hc : c.Below needed)
    (hd : c.getDAIncludedByHeight height = some d) : d ∈ lowerBounds needed := by
  obtain ⟨key, -, hincluded⟩ := bind_eq_some_iff.mp hd
  exact hc key d hincluded

theorem mem_snapshot_iff (c : BlockCache) (entry : ℕ × ℕ) :
    entry ∈ c.snapshot ↔ c.getDAIncludedByHeight entry.1 = some entry.2 := by
  unfold snapshot getDAIncludedByHeight
  rw [mem_filterMap, bind_eq_some_iff]
  constructor
  · rintro ⟨⟨h, key⟩, hmem, hentry⟩
    obtain ⟨daHeight, hlookup, rfl⟩ := map_eq_some_iff.mp hentry
    exact ⟨key, AList.mem_lookup_iff.mpr hmem, hlookup⟩
  · rintro ⟨key, hkey, hlookup⟩
    exact ⟨⟨entry.1, key⟩, AList.mem_lookup_iff.mp hkey,
      map_eq_some_iff.mpr ⟨entry.2, hlookup, rfl⟩⟩

theorem Below.snapshot (hc : c.Below needed) : ∀ entry ∈ c.snapshot, entry.2 ∈ lowerBounds needed :=
  fun entry hentry => hc.getDAIncludedByHeight ((mem_snapshot_iff c entry).mp hentry)

theorem Below.restoreFromStore {snapshot : List (ℕ × ℕ)}
    (hsnapshot : ∀ entry ∈ snapshot, entry.2 ∈ lowerBounds needed) (hc : c.Below needed)
    (hmax : c.daHeight ∈ lowerBounds needed) :
    (c.restoreFromStore snapshot).Below needed ∧
      (c.restoreFromStore snapshot).daHeight ∈ lowerBounds needed := by
  induction snapshot generalizing c with
  | nil => exact ⟨hc, hmax⟩
  | cons entry snapshot ih =>
    have hentry := hsnapshot entry mem_cons_self
    exact ih (fun e he => hsnapshot e (mem_cons_of_mem _ he))
      (forall_lookup_insert hc hentry) (max_mem_lowerBounds hmax hentry)

theorem Below.seedDAHeight (hc : c.Below needed) (d : Option ℕ) :
    (c.seedDAHeight d).Below needed := by
  cases d with
  | none | some d => exact hc

theorem seedDAHeight_daHeight_mem (hmax : c.daHeight ∈ lowerBounds needed) {seed : Option ℕ}
    (hseed : ∀ d, seed = some d → d ∈ lowerBounds needed) :
    (c.seedDAHeight seed).daHeight ∈ lowerBounds needed := by
  cases seed with
  | none => exact hmax
  | some d => exact max_mem_lowerBounds hmax (hseed d rfl)

theorem Below.marks {α : Type} (hc : c.Below needed) (items : List α)
    (hd : items ≠ [] → d ∈ lowerBounds needed) (keyOf : α → CacheKey) (heightOf : α → ℕ) :
    (items.foldl (fun c item => c.setDAIncluded (keyOf item) d (heightOf item)) c).Below
      needed := by
  rcases items with _ | ⟨item, items⟩
  · exact hc
  · have hmem := hd (cons_ne_nil _ _)
    exact Runs.foldl_invariant _ (fun c : BlockCache => c.Below needed) (fun _ _ => True)
      (fun c item hc _ => hc.setDAIncluded hmem _ _) hc (fun _ _ => trivial)

end BlockCache

/-! ## Stores -/

namespace Store

variable {s : Store} {needed : Set ℕ}

def StatesBelow (needed : Set ℕ) (s : Store) : Prop :=
  ∀ h state, s.states h = some state → state.daHeight ∈ lowerBounds needed

theorem StatesBelow.updateState (hs : s.StatesBelow needed) {state : State}
    (hstate : state.daHeight ∈ lowerBounds needed) : (s.updateState state).StatesBelow needed := by
  exact forall_update_some (fun h st _ => hs h st) hstate

theorem StatesBelow.setHeight (hs : s.StatesBelow needed) (height : ℕ) :
    (s.setHeight height).StatesBelow needed := by
  unfold Store.setHeight
  split_ifs
  · exact hs
  · exact hs

theorem StatesBelow.syncToHeight (hs : s.StatesBelow needed) (c : Codec) (genesis : Genesis)
    (env : ReplayEnv) (target : ℕ) :
    (syncToHeight c genesis env s target).2.StatesBelow needed := by
  refine syncToHeight_induct (fun s height block prev root hs _ hprev _ => ?_) hs target
  apply hs.updateState
  show prev.daHeight ∈ lowerBounds needed
  rcases replayPrevState_cases hprev with ⟨-, _, rfl⟩ | ⟨-, hprev⟩
  · exact zero_mem_lowerBounds
  · exact hs _ prev hprev

end Store

/-! ## Events -/

namespace SyncNode

variable {n n' : SyncNode} {env : EventEnv} {ev : HeightEvent} {needed : Set ℕ}

/-- Every DA height the node has in memory or in its store is below what is needed. -/
structure Below (needed : Set ℕ) (n : SyncNode) : Prop where
  headerCache : n.headerCache.Below needed
  dataCache : n.dataCache.Below needed
  states : n.store.StatesBelow needed
  lastState : n.syncer.lastState.daHeight ∈ lowerBounds needed
  pending : ∀ h ev, n.pendingEvents.lookup h = some ev → ev.daHeight ∈ lowerBounds needed

theorem trySyncNextBlock_daHeight {result : Except TrySyncError Unit}
    (h : n.trySyncNextBlock env ev = .ok (result, n')) :
    n'.syncer.lastState.daHeight ≤ max n.syncer.lastState.daHeight ev.daHeight := by
  have hsynced := n.syncer.step_daHeight_le (n.syncEvent env ev)
  unfold trySyncNextBlock at h
  split_ifs at h
  · obtain ⟨-, rfl⟩ := Prod.mk.inj (ok.inj h)
    exact le_max_left _ _
  split at h
  · simp at h
  · obtain ⟨-, rfl⟩ := Prod.mk.inj (ok.inj h)
    exact le_max_left _ _
  · dsimp only at h
    split at h
    all_goals
      obtain ⟨-, rfl⟩ := Prod.mk.inj (ok.inj h)
      exact hsynced

theorem processHeightEvent_frame (h : n.processHeightEvent env ev = .ok n') :
    n'.syncer.lastState.daHeight ≤ max n.syncer.lastState.daHeight ev.daHeight ∧
      (n'.pendingEvents = n.pendingEvents ∨ ∃ height stored, stored.daHeight = ev.daHeight ∧
        n'.pendingEvents = n.pendingEvents.insert height stored) := by
  cases processHeightEvent_outcome h with
  | dropped _ => exact ⟨le_max_left _ _, .inl rfl⟩
  | ahead _ => exact ⟨le_max_left _ _, .inr ⟨_, ev, rfl, rfl⟩⟩
  | unread queue _ _ => exact ⟨le_max_left _ _, .inl rfl⟩
  | synced queue filled _ _ hfill hsync =>
    have hstate := trySyncNextBlock_daHeight hsync
    rw [(fillLastDataHash_carries hfill).daHeight_eq] at hstate
    have hkept := trySyncNextBlock_pending hsync
    exact ⟨hstate, .inl hkept⟩
  | failed queue filled e synced _ hfill hsync =>
    have hda : filled.daHeight = ev.daHeight := (fillLastDataHash_carries hfill).daHeight_eq
    have hstate := trySyncNextBlock_daHeight hsync
    rw [hda] at hstate
    have hkept : synced.pendingEvents = n.pendingEvents :=
      trySyncNextBlock_pending (n := { n with priorityHeights := queue }) hsync
    -- an error that may pass puts the event back
    unfold onSyncError
    rw [← hkept]
    split_ifs
    · exact ⟨hstate, .inl rfl⟩
    · split
      all_goals first
        | exact ⟨hstate, .inl rfl⟩
        | exact ⟨hstate, .inr ⟨_, filled, hda, rfl⟩⟩

theorem Below.processHeightEvent (hn : n.Below needed) (hev : ev.daHeight ∈ lowerBounds needed)
    (h : n.processHeightEvent env ev = .ok n') : n'.Below needed := by
  obtain ⟨hle, hslots⟩ := processHeightEvent_frame h
  have hstate : n'.syncer.lastState.daHeight ∈ lowerBounds needed :=
    mem_lowerBounds_of_le hle (max_mem_lowerBounds hn.lastState hev)
  have hstates : n'.store.StatesBelow needed := by
    rcases processHeightEvent_cases h with hunmoved | ⟨data, hcommits⟩
    · rw [hunmoved.store_eq]
      exact hn.states
    · rw [hcommits.store_eq]
      have hsaved : (n.store.saveBlockData ev.header data ev.header.signature).StatesBelow
          needed := hn.states
      exact (hsaved.setHeight _).updateState hstate
  have hpending : ∀ h ev, n'.pendingEvents.lookup h = some ev →
      ev.daHeight ∈ lowerBounds needed := by
    rcases hslots with hslots | ⟨height, stored, hda, hslots⟩
    · rw [hslots]
      exact hn.pending
    · rw [hslots]
      exact forall_lookup_insert hn.pending (by rwa [hda])
  -- the caches lose marks and are told what was seen
  rcases processHeightEvent_effect h with ⟨-, -, hheader, hdata⟩ |
    ⟨header, data, -, -, hheader, hdata⟩ | ⟨applied, state, -, -, -, -, hheader, hdata⟩
  · exact ⟨hheader ▸ hn.headerCache, hdata ▸ hn.dataCache, hstates, hstate, hpending⟩
  · refine ⟨?_, ?_, hstates, hstate, hpending⟩
    · rw [hheader]
      exact hn.headerCache.removeDAIncluded _
    · rw [hdata]
      exact hn.dataCache.removeDAIncluded _
  · refine ⟨?_, ?_, hstates, hstate, hpending⟩
    · rw [hheader]
      exact hn.headerCache
    · rw [hdata]
      unfold markSeen
      split_ifs
      · exact hn.dataCache
      · exact hn.dataCache

structure StartsBelow (needed : Set ℕ) (cfg : StartConfig) (store : Store) : Prop where
  states : store.StatesBelow needed
  genesis : cfg.genesis.daStartHeight ∈ lowerBounds needed
  headerSnapshot : ∀ entry ∈ cfg.headerSnapshot, entry.2 ∈ lowerBounds needed
  dataSnapshot : ∀ entry ∈ cfg.dataSnapshot, entry.2 ∈ lowerBounds needed

section

variable {cfg : StartConfig} {store : Store} (hcfg : StartsBelow needed cfg store)
include hcfg

theorem StartsBelow.loadState {inp : StartInput} {state : State}
    (hload : loadState cfg.genesis inp store.getState = .ok state) :
    state.daHeight ∈ lowerBounds needed := by
  rw [loadState_daHeight hload]
  rcases hget : store.getState with _ | stored
  · exact hcfg.genesis
  · exact hcfg.states _ stored hget

theorem StartsBelow.startStore :
    (startStore cfg store).StatesBelow needed ∧ store.height ≤ (startStore cfg store).height := by
  unfold SyncNode.startStore
  split
  · exact ⟨hcfg.states, le_rfl⟩
  rename_i syncer hsyncer
  obtain ⟨state, hload, rfl⟩ := initializeState_ok hsyncer
  refine ⟨((hcfg.states.setHeight _).updateState (hcfg.loadState hload)).syncToHeight _ _ _ _, ?_⟩
  rw [(syncToHeight_frame _ _ _ _ _).height_eq]
  show store.height ≤ (store.setHeight state.lastBlockHeight).height
  unfold Store.setHeight
  split_ifs
  · exact le_rfl
  · dsimp only
    omega

theorem StartsBelow.start (hstart : start cfg store = .ok n) :
    n.Below needed ∧ n.store = SyncNode.startStore cfg store := by
  have hstates := hcfg.startStore.1
  unfold SyncNode.startStore at hstates ⊢
  unfold SyncNode.start at hstart
  rcases hsyncer : initializeState cfg.genesis cfg.codec cfg.client
    ⟨cfg.initChain, cfg.stateSaved, true⟩ store.getState with err | syncer
  · simp [hsyncer] at hstart
  rw [hsyncer] at hstart hstates
  obtain ⟨state, hload, rfl⟩ := initializeState_ok hsyncer
  dsimp only at hstart hstates ⊢
  split at hstart
  · simp at hstart
  rename_i store' hreplayed
  rw [hreplayed] at hstates ⊢
  rw [← ok.inj hstart]
  refine ⟨⟨?_, ?_, hstates, hcfg.loadState hload, ?_⟩, rfl⟩
  · exact (BlockCache.Below.restoreFromStore hcfg.headerSnapshot .new
      zero_mem_lowerBounds).1.seedDAHeight _
  · exact (BlockCache.Below.restoreFromStore hcfg.dataSnapshot .new
      zero_mem_lowerBounds).1.seedDAHeight _
  · exact fun h ev hlookup => absurd hlookup (by simp)

end

end SyncNode

/-! ## The inclusion loop -/

def LoopPc.Below (needed : Set ℕ) : LoopPc → Prop
  | .mappingData _ _ daHeightForHeader => daHeightForHeader ∈ lowerBounds needed
  | _ => True

structure InclusionMetadata.Below (needed : Set ℕ) (m : InclusionMetadata) : Prop where
  header : ∀ h d, m.headerDAHeight h = some d → d ∈ lowerBounds needed
  data : ∀ h d, m.dataDAHeight h = some d → d ∈ lowerBounds needed

theorem tipDAHeight_mem {needed : Set ℕ} {daHeights : ℕ → Option ℕ} {tip : Option ℕ}
    (hall : ∀ h d, daHeights h = some d → d ∈ lowerBounds needed) :
    ∀ d, tipDAHeight daHeights tip = some d → d ∈ lowerBounds needed := by
  intro d hd
  unfold tipDAHeight at hd
  split at hd
  · simp at hd
  · split_ifs at hd
    exact hall _ d hd

namespace InclusionNode

/-- What the loop copies from, and to, is below what is needed. -/
structure MarksBelow (needed : Set ℕ) (n : InclusionNode) : Prop where
  headerCache : n.headerCache.Below needed
  dataCache : n.dataCache.Below needed
  metadata : n.metadata.Below needed
  loop : n.loop.Below needed

variable {n : InclusionNode} {needed : Set ℕ}

theorem MarksBelow.loopEffect (hn : n.MarksBelow needed) {n' : InclusionNode}
    (heffect : LoopEffect n n') : n'.MarksBelow needed := by
  have hloop := hn.loop
  cases heffect with
  | mapHeader current data d hpc hd =>
    have hbelow := hn.headerCache.getDAIncludedByHeight hd
    exact ⟨hn.headerCache, hn.dataCache,
      ⟨forall_update_some (fun h d _ => hn.metadata.header h d) hbelow, hn.metadata.data⟩, hbelow⟩
  | mapData current data d d' pc hpc hd hnext =>
    rw [hpc] at hloop
    have hbelow : d' ∈ lowerBounds needed := by
      rcases hd with ⟨-, rfl⟩ | ⟨-, hd⟩
      · exact hloop
      · exact hn.dataCache.getDAIncludedByHeight hd
    refine ⟨hn.headerCache, hn.dataCache,
      ⟨hn.metadata.header, forall_update_some (fun h d _ => hn.metadata.data h d) hbelow⟩, ?_⟩
    rcases hnext with rfl | rfl
    · trivial
    · trivial
  | mapGenesis | persist =>
    exact ⟨hn.headerCache, hn.dataCache, ⟨hn.metadata.header, hn.metadata.data⟩, trivial⟩
  | delete height _ =>
    exact ⟨hn.headerCache.deleteAllForHeight height, hn.dataCache.deleteAllForHeight height,
      hn.metadata, trivial⟩
  | stay _ => exact hn
  | _ => exact ⟨hn.headerCache, hn.dataCache, hn.metadata, trivial⟩

end InclusionNode

end ChainSdk

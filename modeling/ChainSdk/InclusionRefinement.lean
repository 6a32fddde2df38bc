/-
The goroutines DA inclusion shares a full node with are those of a syncing node.

`InclusionNode` keeps of the syncer only what reaches the store and the caches: the batch of a block
with the marks that follow it, and the marks taken back from a block that was refused.
-/
import ChainSdk.DaInclusion
import ChainSdk.SyncedChain

namespace ChainSdk

open Except SyncNode

/-! ## What an event does to the store and the caches -/

/-- The three things an event can do: nothing, take back the marks of a block, or store the next
block and mark it. -/
inductive SyncNode.CacheEffect (n n' : SyncNode) : Prop
  | kept (hcodec : n'.codec = n.codec) (hstore : n'.store = n.store)
      (hheader : n'.headerCache = n.headerCache) (hdata : n'.dataCache = n.dataCache)
  | refused (header : SignedHeader) (data : Data) (hcodec : n'.codec = n.codec)
      (hstore : n'.store = n.store)
      (hheader : n'.headerCache = n.headerCache.removeDAIncluded (n.headerKey header))
      (hdata : n'.dataCache = n.dataCache.removeDAIncluded (n.dataKey data))
  | committed (ev : HeightEvent) (state : State)
      (hnext : ev.header.header.height = n.store.height + 1)
      (hvalid : validate n.codec ev.header ev.data = .ok ()) (hcodec : n'.codec = n.codec)
      (hstore : n'.store = saveBlock n.store ev state)
      (hheader : n'.headerCache = (n.markSeen ev).headerCache)
      (hdata : n'.dataCache = (n.markSeen ev).dataCache)

namespace SyncNode

variable {n n' : SyncNode} {env : EventEnv} {ev : HeightEvent}

theorem trySyncNextBlock_effect {result : Except TrySyncError Unit}
    (hnext : ev.header.header.height = n.store.height + 1)
    (h : n.trySyncNextBlock env ev = .ok (result, n')) : CacheEffect n n' := by
  unfold trySyncNextBlock at h
  by_cases hcancelled : env.cancelled = true
  · rw [if_pos hcancelled] at h
    obtain ⟨-, rfl⟩ := Prod.mk.inj (ok.inj h)
    exact .kept rfl rfl rfl rfl
  rw [if_neg hcancelled] at h
  split at h
  · simp at h
  · obtain ⟨-, rfl⟩ := Prod.mk.inj (ok.inj h)
    exact .refused ev.header ev.data rfl rfl rfl rfl
  · rename_i hvalidated
    have hvalid := (validateBlock_ok_iff.mp hvalidated).2.2
    obtain ⟨checked, hsame, ⟨root, -, hsynced⟩ | ⟨e, hsynced, -⟩⟩ :=
      n.syncer.trySyncNextBlock_cases (n.syncEvent env ev)
    · rw [hsynced] at h
      obtain ⟨-, rfl⟩ := Prod.mk.inj (ok.inj h)
      refine .committed ev _ hnext hvalid hsame.codec_eq rfl ?_ ?_
      · show n.headerCache.setSeen (.hash (checked.codec.headerHash ev.header.header)) _ = _
        rw [hsame.codec_eq]
        rfl
      · show (if ev.header.header.dataHash ≠ dataHashForEmptyTxs then n.dataCache.setSeen
          (.hash (checked.codec.daCommitment ev.data.txs)) _ else _) = _
        rw [hsame.codec_eq]
        rfl
    · rw [hsynced] at h
      dsimp only at h
      split at h
      · rename_i hok
        simp at hok
      · obtain ⟨-, rfl⟩ := Prod.mk.inj (ok.inj h)
        refine .refused ev.header ev.data hsame.codec_eq rfl ?_ ?_
        · show n.headerCache.removeDAIncluded
            (.hash (checked.codec.headerHash ev.header.header)) = _
          rw [hsame.codec_eq]
          rfl
        · show n.dataCache.removeDAIncluded (.hash (checked.codec.daCommitment ev.data.txs)) = _
          rw [hsame.codec_eq]
          rfl
      all_goals
        obtain ⟨-, rfl⟩ := Prod.mk.inj (ok.inj h)
        exact .kept hsame.codec_eq rfl rfl rfl

theorem CacheEffect.of_queue {queue : List ℕ} {pending : AList (fun _ : ℕ => HeightEvent)}
    {critical : Bool} (h : CacheEffect { n with priorityHeights := queue } n') :
    CacheEffect n { n' with pendingEvents := pending, hasCriticalError := critical } := by
  rcases h with ⟨hcodec, hstore, hheader, hdata⟩ |
    ⟨header, data, hcodec, hstore, hheader, hdata⟩ |
    ⟨ev, state, hnext, hvalid, hcodec, hstore, hheader, hdata⟩
  · exact .kept hcodec hstore hheader hdata
  · exact .refused header data hcodec hstore hheader hdata
  · exact .committed ev state hnext hvalid hcodec hstore hheader hdata

theorem onSyncError_eq (n : SyncNode) (ev : HeightEvent) (e : TrySyncError) :
    ∃ pending critical, n.onSyncError ev e =
      { n with pendingEvents := pending, hasCriticalError := critical } := by
  unfold onSyncError
  split_ifs
  · exact ⟨_, _, rfl⟩
  · split <;> exact ⟨_, _, rfl⟩

theorem processHeightEvent_effect (h : n.processHeightEvent env ev = .ok n') :
    CacheEffect n n' := by
  cases processHeightEvent_outcome h with
  | dropped _ | ahead _ | unread queue _ _ => exact .kept rfl rfl rfl rfl
  | synced queue filled _ hnext hfill hsync =>
    rw [← fillLastDataHash_header hfill] at hnext
    exact (trySyncNextBlock_effect (n := { n with priorityHeights := queue }) hnext
      hsync).of_queue
  | failed queue filled e synced hnext hfill hsync =>
    rw [← fillLastDataHash_header hfill] at hnext
    obtain ⟨pending, critical, heq⟩ := synced.onSyncError_eq filled e
    rw [heq]
    exact (trySyncNextBlock_effect (n := { n with priorityHeights := queue }) hnext
      hsync).of_queue

end SyncNode

/-! ## The steps of a syncing node -/

namespace InclusionNode

/-- The node of DA inclusion shows the blocks, the height and the caches of a syncing node between
two of its events. The states are not part of it. -/
structure Shows (v : InclusionNode) (n : SyncNode) : Prop where
  codec_eq : v.codec = n.codec
  height_eq : v.store.height = n.store.height
  blocks_eq : v.store.blocks = n.store.blocks
  headerCache_eq : v.headerCache = n.headerCache
  dataCache_eq : v.dataCache = n.dataCache
  applying_eq : v.applying = none
  panicked_eq : v.panicked = none

def Step.BySyncer : Step → Prop
  | .apply _ _ | .seen | .refuseHeader _ | .refuseData _ => True
  | _ => False

variable {v : InclusionNode} {n n' : SyncNode}

theorem Shows.refused (hv : v.Shows n) {header : SignedHeader} {data : Data}
    (hcodec : n'.codec = n.codec) (hstore : n'.store = n.store)
    (hheader : n'.headerCache = n.headerCache.removeDAIncluded (n.headerKey header))
    (hdata : n'.dataCache = n.dataCache.removeDAIncluded (n.dataKey data)) :
    ([Step.refuseHeader header, .refuseData data].foldl step v).Shows n' := by
  have hsteps : [Step.refuseHeader header, .refuseData data].foldl step v =
      { v with
        headerCache := v.headerCache.removeDAIncluded (.hash (v.codec.headerHash header.header))
        dataCache := v.dataCache.removeDAIncluded (.hash (v.codec.daCommitment data.txs)) } := by
    simp [step, hv.panicked_eq, removeHeaderDAIncluded, removeDataDAIncluded, codec]
  rw [hsteps]
  refine ⟨hv.codec_eq.trans hcodec.symm, ?_, ?_, ?_, ?_, hv.applying_eq, hv.panicked_eq⟩
  · rw [hstore, hv.height_eq]
  · rw [hstore, hv.blocks_eq]
  · rw [hheader, headerKey, ← hv.codec_eq, ← hv.headerCache_eq]
  · rw [hdata, dataKey, ← hv.codec_eq, ← hv.dataCache_eq]

theorem Shows.committed (hv : v.Shows n) {ev : HeightEvent} {state : State}
    (hnext : ev.header.header.height = n.store.height + 1)
    (hvalid : validate n.codec ev.header ev.data = .ok ()) (hcodec : n'.codec = n.codec)
    (hstore : n'.store = saveBlock n.store ev state)
    (hheader : n'.headerCache = (n.markSeen ev).headerCache)
    (hdata : n'.dataCache = (n.markSeen ev).dataCache) :
    ([Step.apply ev.header ev.data, .seen, .seen].foldl step v).Shows n' := by
  have hready : v.applying.isNone ∧ v.IsNext ev.header ev.data := by
    rw [IsNext, hv.applying_eq, hv.height_eq, hv.codec_eq]
    exact ⟨rfl, hnext, hvalid⟩
  have hsteps : [Step.apply ev.header ev.data, .seen, .seen].foldl step v =
      { v with
        store := storeBlock v.store ev.header ev.data
        headerCache := v.headerCache.setSeen (.hash (v.codec.headerHash ev.header.header))
          ev.header.header.height
        dataCache := v.setDataSeen ev.header ev.data
        applying := none } := by
    simp [step, applyBlock, hready, hv.panicked_eq, markSeen, setDataSeen, codec]
  rw [hsteps]
  obtain ⟨hheight, hblocks⟩ := storeBlock_spec ev.data hready.2.1
  obtain ⟨hheight', hblocks'⟩ := storeBlock_spec ev.data hnext
  refine ⟨hv.codec_eq.trans hcodec.symm, ?_, ?_, ?_, ?_, rfl, hv.panicked_eq⟩
  · rw [hstore]
    exact hheight.trans hheight'.symm
  · rw [hstore]
    rw [hv.blocks_eq] at hblocks
    exact hblocks.trans hblocks'.symm
  · rw [hheader, hv.headerCache_eq, hv.codec_eq]
    rfl
  · rw [hdata, setDataSeen, hv.dataCache_eq, hv.codec_eq]
    rfl

theorem Shows.processHeightEvent (hv : v.Shows n) {env : EventEnv} {ev : HeightEvent}
    (h : n.processHeightEvent env ev = .ok n') :
    ∃ steps : List Step, (∀ s ∈ steps, s.BySyncer) ∧ (steps.foldl step v).Shows n' := by
  rcases processHeightEvent_effect h with ⟨hcodec, hstore, hheader, hdata⟩ |
    ⟨header, data, hcodec, hstore, hheader, hdata⟩ |
    ⟨ev, state, hnext, hvalid, hcodec, hstore, hheader, hdata⟩
  · refine ⟨[], by simp, ?_⟩
    show v.Shows n'
    refine ⟨?_, ?_, ?_, ?_, ?_, hv.applying_eq, hv.panicked_eq⟩
    · rw [hcodec, hv.codec_eq]
    · rw [hstore, hv.height_eq]
    · rw [hstore, hv.blocks_eq]
    · rw [hheader, hv.headerCache_eq]
    · rw [hdata, hv.dataCache_eq]
  · exact ⟨_, by simp [Step.BySyncer], hv.refused hcodec hstore hheader hdata⟩
  · exact ⟨_, by simp [Step.BySyncer],
      hv.committed hnext hvalid hcodec hstore hheader hdata⟩

/-- Whatever events a syncing node is given: its stored blocks, its height and its caches end up as
those of DA inclusion after a run of the syncer's steps. -/
theorem sync_run_refines_inclusion (v : InclusionNode) (n n' : SyncNode)
    (events : List (EventEnv × HeightEvent)) (hv : v.Shows n) (h : n.run events = .ok n') :
    ∃ steps : List Step, (∀ s ∈ steps, s.BySyncer) ∧ (steps.foldl step v).Shows n' := by
  refine run_invariant (P := fun m => ∃ steps : List Step,
    (∀ s ∈ steps, s.BySyncer) ∧ (steps.foldl step v).Shows m) ?_ ⟨[], by simp, hv⟩ h
  rintro p - m m' ⟨steps, hsteps, hm⟩ hone
  obtain ⟨more, hmore, hm'⟩ := hm.processHeightEvent hone
  rw [← List.foldl_append] at hm'
  exact ⟨steps ++ more, List.forall_mem_append.mpr ⟨hsteps, hmore⟩, hm'⟩

theorem sync_run_refines_on_sample :
    ∃ (v : InclusionNode) (n : SyncNode) (steps : List Step), n.store.height = 3 ∧
      (∀ s ∈ steps, s.BySyncer) ∧ (steps.foldl step v).Shows n := by
  obtain ⟨n₀, n, -, hshows, hrun, hheight⟩ : ∃ n₀ n,
      start chainConfig Store.empty = .ok n₀ ∧
      (new (.new smallGenesis chainCodec chainConfig.wire) Store.empty
        ⟨fun _ => none, fun _ => none, none, none⟩ none).Shows n₀ ∧
      n₀.run chainEvents = .ok n ∧ n.store.height = 3 :=
    ⟨_, _, rfl, ⟨rfl, rfl, rfl, rfl, rfl, rfl, rfl⟩, rfl, rfl⟩
  obtain ⟨steps, hsteps⟩ := sync_run_refines_inclusion _ n₀ n chainEvents hshows hrun
  exact ⟨_, n, steps, hheight, hsteps⟩

end InclusionNode

end ChainSdk

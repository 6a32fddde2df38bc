/-
Which height events get through.

An event that a sender has handed over is somewhere in the pipeline until a block of its height is
applied, as long as nobody writes over it.
-/
import ChainSdk.EventPipeline

namespace ChainSdk

open BlockCache EventPipeline List Option Runs SyncNode

namespace EventPipeline

/-! ## Where an event can be -/

/-- The event is in the channel, in its slot, or in the hands of a sender, of the loop or of the
worker. -/
inductive Holds (p : EventPipeline) (ev : HeightEvent) : Prop
  | channel (h : ev ∈ p.channel)
  | piping (h : ev ∈ p.piping)
  | processing (h : p.processing = some ev)
  | sending (height : ℕ) (h : p.worker = .sending height ev)
  | restoring (height : ℕ) (h : p.worker = .restoring height ev)
  | pending (height : ℕ) (h : p.node.pendingEvents.lookup height = some ev)

def Keeps (p : EventPipeline) (ev : HeightEvent) : Prop :=
  ev.header.header.height ≤ p.node.store.height ∨ ∃ ev', ev.Carries ev' ∧ p.Holds ev'

/-! ## Conditions on steps -/

/-- Writing `new` into the slot of a height does not write over `ev`. -/
def Frees (p : EventPipeline) (ev : HeightEvent) (height : ℕ) (new : HeightEvent) : Prop :=
  ∀ old, p.node.pendingEvents.lookup height = some old → ev.Carries old → ev.Carries new

/-- The loop's turn with an event is harmless for `ev`: it does not drop `ev` as the next block, and
does not put another event into the slot that holds it. -/
def ProcessSpares (p : EventPipeline) (ev new : HeightEvent) (env : EventEnv) : Prop :=
  (ev.Carries new → env.heightRead = true ∧
      (new.header.header.height = p.node.store.height + 1 → p.node.ReadsNext env new)) ∧
    (new.header.header.height ≤ p.node.store.height + 1 ∧ env.committed = true ∨
      p.Frees ev new.header.header.height new)

def Step.Spares (ev : HeightEvent) (p : EventPipeline) : Step → Prop
  | .keep new => p.Frees ev new.header.header.height new
  | .process env => ∀ new, p.processing = some new → p.ProcessSpares ev new env
  | .work => (∀ height new, p.worker = .sending height new → ev.Carries new →
        ev.daHeightHints = (0, 0)) ∧
      ∀ height new, p.worker = .restoring height new → p.Frees ev height new
  | _ => True

/-- Whenever the loop has `ev` as the next block, it is valid; no context is cancelled. -/
def Step.FindsValid (ev : HeightEvent) (p : EventPipeline) : Step → Prop
  | .process env => env.cancelled = false ∧ ∀ new, p.processing = some new → ev.Carries new →
      new.header.header.height = p.node.store.height + 1 → p.node.ValidNext env new
  | _ => True

/-! ## Headers that count as seen -/

def SeenApplied (n : SyncNode) : Prop :=
  ∀ key ∈ n.headerCache.hashes, ∃ header : Header,
    key = .hash (n.codec.headerHash header) ∧ header.height ≤ n.store.height

theorem SeenApplied.processHeightEvent {n n' : SyncNode} {env : EventEnv} {ev : HeightEvent}
    (hseen : SeenApplied n) (h : n.processHeightEvent env ev = .ok n') :
    SeenApplied n' ∧ n'.codec = n.codec ∧ n.store.height ≤ n'.store.height := by
  have hle := le_height_of_processHeightEvent h
  rcases processHeightEvent_effect h with ⟨hcodec, hstore, hheader, -⟩ |
    ⟨header, data, hcodec, hstore, hheader, -⟩ |
    ⟨applied, state, hnext, -, hcodec, hstore, hheader, -⟩
  · refine ⟨?_, hcodec, hle⟩
    unfold SeenApplied
    rw [hcodec, hstore, hheader]
    exact hseen
  · refine ⟨?_, hcodec, hle⟩
    unfold SeenApplied
    rw [hcodec, hstore, hheader]
    exact hseen
  · refine ⟨?_, hcodec, hle⟩
    intro key hkey
    rw [hheader] at hkey
    rw [hcodec]
    rcases Finset.mem_insert.mp hkey with rfl | hkey
    · refine ⟨applied.header.header, rfl, ?_⟩
      have hafter : n'.store.height = n.store.height + 1 := by
        rw [hstore, ← hnext]
        exact (InclusionNode.storeBlock_spec applied.data hnext).1
      rw [hafter, hnext]
    · obtain ⟨header, rfl, hheight⟩ := hseen key hkey
      exact ⟨header, rfl, hheight.trans hle⟩

theorem SeenApplied.isSeen_eq_false {n : SyncNode} (hseen : SeenApplied n)
    (hhash : ∀ h h' : Header, n.codec.headerHash h = n.codec.headerHash h' → h.height = h'.height)
    {header : SignedHeader} (hlt : n.store.height < header.header.height) :
    n.headerCache.isSeen (n.headerKey header) = false := by
  unfold isSeen
  rw [decide_eq_false_iff_not]
  intro hmem
  obtain ⟨header', hkey, hheight⟩ := hseen _ hmem
  have hsame := hhash _ _ (CacheKey.hash.inj hkey)
  omega

/-! ## One step -/

section

variable {p : EventPipeline} {ev : HeightEvent}

theorem Keeps.mono {p' : EventPipeline} (hkeeps : p.Keeps ev)
    (hstore : p'.node.store = p.node.store) (hholds : ∀ ev', p.Holds ev' → p'.Holds ev') :
    p'.Keeps ev := by
  rw [Keeps, hstore]
  exact hkeeps.imp_right fun ⟨ev', hcarries, h⟩ => ⟨ev', hcarries, hholds ev' h⟩

theorem Keeps.setPendingAt (hkeeps : p.Keeps ev) {height : ℕ} {new : HeightEvent}
    (hfrees : p.Frees ev height new) : (p.setPendingAt height new).Keeps ev := by
  rcases hkeeps with happlied | ⟨ev', hcarries, hholds⟩
  · exact .inl happlied
  right
  rcases hholds with h | h | h | ⟨k, h⟩ | ⟨k, h⟩ | ⟨k, h⟩
  · exact ⟨ev', hcarries, .channel h⟩
  · exact ⟨ev', hcarries, .piping h⟩
  · exact ⟨ev', hcarries, .processing h⟩
  · exact ⟨ev', hcarries, .sending k h⟩
  · exact ⟨ev', hcarries, .restoring k h⟩
  · by_cases hk : k = height
    · subst hk
      exact ⟨new, hfrees ev' h hcarries, .pending k (AList.lookup_insert _)⟩
    · refine ⟨ev', hcarries, .pending k ?_⟩
      show (p.node.pendingEvents.insert height new).lookup k = some ev'
      rw [AList.lookup_insert_ne hk, h]

theorem keeps_of_pipe (hrunning : p.panicked = none) (ev : HeightEvent) :
    (p.step (.pipe ev)).Keeps ev := by
  unfold step
  simp only [hrunning, isSome_none, Bool.false_eq_true, if_false]
  split_ifs
  · exact .inr ⟨ev, .refl ev, .channel (by simp)⟩
  · exact .inr ⟨ev, .refl ev, .piping (by simp)⟩

section

variable (hkeeps : p.Keeps ev)
include hkeeps

theorem Keeps.pipe (new : HeightEvent) : (p.step (.pipe new)).Keeps ev := by
  unfold step
  split_ifs
  · exact hkeeps
  all_goals
    refine hkeeps.mono rfl ?_
    rintro ev' (h | h | h | ⟨k, h⟩ | ⟨k, h⟩ | ⟨k, h⟩)
    · first
      | exact .channel (mem_append_left _ h)
      | exact .channel h
    · first
      | exact .piping (mem_append_left _ h)
      | exact .piping h
    · exact .processing h
    · exact .sending k h
    · exact .restoring k h
    · exact .pending k h

theorem Keeps.keep {new : HeightEvent}
    (hspares : (Step.keep new).Spares ev p) : (p.step (.keep new)).Keeps ev := by
  unfold step
  dsimp only
  split_ifs
  · exact hkeeps
  · refine (hkeeps.setPendingAt hspares).mono rfl ?_
    rintro ev' (h | h | h | ⟨k, h⟩ | ⟨k, h⟩ | ⟨k, h⟩)
    · exact .channel h
    · by_cases hnew : ev' = new
      · subst hnew
        exact .pending _ (AList.lookup_insert _)
      · exact .piping ((mem_erase_of_ne hnew).mpr h)
    · exact .processing h
    · exact .sending k h
    · exact .restoring k h
    · exact .pending k h
  · exact hkeeps

theorem Keeps.receive : (p.step .receive).Keeps ev := by
  unfold step
  dsimp only
  split_ifs
  · exact hkeeps
  split
  · rename_i first rest hidle hchannel
    refine hkeeps.mono rfl ?_
    rintro ev' (h | h | h | ⟨k, h⟩ | ⟨k, h⟩ | ⟨k, h⟩)
    · rw [hchannel] at h
      rcases mem_cons.mp h with rfl | h
      · exact .processing rfl
      · exact .channel h
    · exact .piping h
    · simp [hidle] at h
    · exact .sending k h
    · exact .restoring k h
    · exact .pending k h
  · exact hkeeps

theorem Keeps.look (heightRead : Bool) :
    (p.step (.look heightRead)).Keeps ev := by
  unfold step
  dsimp only
  split_ifs with hpanicked hidle
  · exact hkeeps
  · refine hkeeps.mono rfl ?_
    rintro ev' (h | h | h | ⟨k, h⟩ | ⟨k, h⟩ | ⟨k, h⟩)
    · exact .channel h
    · exact .piping h
    · exact .processing h
    · simp [hidle.1] at h
    · simp [hidle.1] at h
    · exact .pending k h
  · exact hkeeps

theorem Keeps.takePending {height : ℕ}
    (hworker : p.worker = .looking height) : (p.takePending height).Keeps ev := by
  unfold EventPipeline.takePending
  rcases hlookup : p.node.pendingEvents.lookup height with _ | found
  all_goals
    refine hkeeps.mono rfl ?_
    rintro ev' (h | h | h | ⟨k, h⟩ | ⟨k, h⟩ | ⟨k, h⟩)
    · exact .channel h
    · exact .piping h
    · exact .processing h
    · simp [hworker] at h
    · simp [hworker] at h
  · exact .pending k h
  · by_cases hk : k = height
    · rw [hk, hlookup] at h
      rw [← some.inj h]
      exact .sending height rfl
    · refine .pending k ?_
      show (p.node.pendingEvents.erase height).lookup k = some ev'
      rw [AList.lookup_erase_ne hk, h]

theorem Keeps.work (hspares : Step.work.Spares ev p) :
    (p.step .work).Keeps ev := by
  unfold step
  dsimp only
  split_ifs
  · exact hkeeps
  unfold EventPipeline.work
  split
  · exact hkeeps
  · rename_i height hworker
    exact hkeeps.takePending hworker
  · rename_i height new hworker
    split_ifs
    all_goals
      rcases hkeeps with happlied | ⟨ev', hcarries, hholds⟩
      · exact .inl happlied
      rcases hholds with h | h | h | ⟨k, h⟩ | ⟨k, h⟩ | ⟨k, h⟩
      · refine .inr ⟨ev', hcarries, .channel ?_⟩
        first
        | exact mem_append_left _ h
        | exact h
      · exact .inr ⟨ev', hcarries, .piping h⟩
      · exact .inr ⟨ev', hcarries, .processing h⟩
    · -- what the worker sends on is put together again, without the hints
      obtain ⟨-, rfl⟩ := WorkerPc.sending.inj (hworker.symm.trans h)
      have hhints := hspares.1 height new hworker hcarries
      exact .inr ⟨resend new, hcarries.resend hhints,
        .channel (mem_append_right _ (mem_singleton.mpr rfl))⟩
    · simp [hworker] at h
    · exact .inr ⟨ev', hcarries, .pending k h⟩
    · obtain ⟨-, rfl⟩ := WorkerPc.sending.inj (hworker.symm.trans h)
      exact .inr ⟨new, hcarries, .restoring height rfl⟩
    · simp [hworker] at h
    · exact .inr ⟨ev', hcarries, .pending k h⟩
  · rename_i height new hworker
    refine (hkeeps.setPendingAt (hspares.2 height new hworker)).mono rfl ?_
    rintro ev' (h | h | h | ⟨k, h⟩ | ⟨k, h⟩ | ⟨k, h⟩)
    · exact .channel h
    · exact .piping h
    · exact .processing h
    · simp [EventPipeline.setPendingAt, hworker] at h
    · obtain ⟨-, rfl⟩ := WorkerPc.restoring.inj (hworker.symm.trans h)
      exact .pending height (AList.lookup_insert _)
    · exact .pending k h

/-- The loop's turn. The event it has is applied, dropped or put into its slot. -/
theorem Keeps.process
    (hhash : ∀ h h' : Header, p.node.codec.headerHash h = p.node.codec.headerHash h' →
      h.height = h'.height)
    (hseen : SeenApplied p.node) {env : EventEnv} (hspares : (Step.process env).Spares ev p)
    (hvalid : (Step.process env).FindsValid ev p) : (p.step (.process env)).Keeps ev := by
  obtain ⟨hcancelled, hvalid⟩ := hvalid
  unfold step
  dsimp only
  split_ifs
  · exact hkeeps
  rcases hprocessing : p.processing with _ | new
  · exact hkeeps
  dsimp only
  rcases hstep : p.node.processHeightEvent env new with panic | node
  · -- a panic changes nothing else
    refine hkeeps.mono rfl ?_
    rintro ev' (h | h | h | ⟨k, h⟩ | ⟨k, h⟩ | ⟨k, h⟩)
    · exact .channel h
    · exact .piping h
    · exact .processing (hprocessing.symm.trans h)
    · exact .sending k h
    · exact .restoring k h
    · exact .pending k h
  obtain ⟨hown, hother⟩ := hspares new hprocessing
  obtain ⟨-, -, hle⟩ := hseen.processHeightEvent hstep
  rcases hkeeps with happlied | ⟨ev', hcarries, hholds⟩
  · exact .inl (happlied.trans hle)
  rcases hholds with h | h | h | ⟨k, h⟩ | ⟨k, h⟩ | ⟨k, h⟩
  · exact .inr ⟨ev', hcarries, .channel h⟩
  · exact .inr ⟨ev', hcarries, .piping h⟩
  · obtain rfl := some.inj (hprocessing.symm.trans h)
    obtain ⟨hread, hreads⟩ := hown hcarries
    rcases processHeightEvent_of_valid hcancelled hread
      (fun hlt => hseen.isSeen_eq_false hhash hlt)
      (fun hnext => ⟨hvalid new hprocessing hcarries hnext, hreads hnext⟩) hstep with
      happlied | ⟨stored, hstored, hlookup⟩
    · left
      rw [hcarries.header_eq] at happlied
      exact happlied
    · exact .inr ⟨stored, hcarries.trans hstored, .pending _ hlookup⟩
  · exact .inr ⟨ev', hcarries, .sending k h⟩
  · exact .inr ⟨ev', hcarries, .restoring k h⟩
  · rcases processHeightEvent_pending hcancelled hstep with
      hsame | ⟨hwhy, stored, hstored, hwritten⟩
    · refine .inr ⟨ev', hcarries, .pending k ?_⟩
      show node.pendingEvents.lookup k = some ev'
      rw [hsame, h]
    by_cases hk : k = new.header.header.height
    · subst hk
      have hnew : ev.Carries new := by
        rcases hother with ⟨hnext, hcommitted⟩ | hfrees
        · rcases hwhy with hahead | hfailed
          · omega
          · simp [hcommitted] at hfailed
        · exact hfrees ev' h hcarries
      refine .inr ⟨stored, hnew.trans hstored, .pending new.header.header.height ?_⟩
      show node.pendingEvents.lookup _ = some stored
      rw [hwritten, AList.lookup_insert]
    · refine .inr ⟨ev', hcarries, .pending k ?_⟩
      show node.pendingEvents.lookup k = some ev'
      rw [hwritten, AList.lookup_insert_ne hk, h]

end

theorem SeenApplied.step (hseen : SeenApplied p.node) (s : Step) :
    SeenApplied (p.step s).node ∧ (p.step s).node.codec = p.node.codec := by
  cases s with
  | process env =>
    unfold EventPipeline.step
    dsimp only
    split_ifs
    · exact ⟨hseen, rfl⟩
    split
    · exact ⟨hseen, rfl⟩
    split
    · exact ⟨hseen, rfl⟩
    · rename_i node hstep
      obtain ⟨hafter, hcodec, -⟩ := hseen.processHeightEvent hstep
      exact ⟨hafter, hcodec⟩
  | work =>
    unfold EventPipeline.step
    dsimp only
    split_ifs
    · exact ⟨hseen, rfl⟩
    unfold EventPipeline.work takePending
    split
    · exact ⟨hseen, rfl⟩
    · split <;> exact ⟨hseen, rfl⟩
    · split_ifs <;> exact ⟨hseen, rfl⟩
    · exact ⟨hseen, rfl⟩
  | receive =>
    unfold EventPipeline.step
    dsimp only
    split_ifs
    · exact ⟨hseen, rfl⟩
    · split <;> exact ⟨hseen, rfl⟩
  | pipe new | keep new | look heightRead =>
    unfold EventPipeline.step
    dsimp only
    split_ifs <;> exact ⟨hseen, rfl⟩

theorem Keeps.step (hkeeps : p.Keeps ev)
    (hhash : ∀ h h' : Header, p.node.codec.headerHash h = p.node.codec.headerHash h' →
      h.height = h'.height) (hseen : SeenApplied p.node) {s : Step} (hspares : s.Spares ev p)
    (hvalid : s.FindsValid ev p) : (p.step s).Keeps ev := by
  cases s with
  | pipe new => exact hkeeps.pipe new
  | keep new => exact hkeeps.keep hspares
  | receive => exact hkeeps.receive
  | process env => exact hkeeps.process hhash hseen hspares hvalid
  | look heightRead => exact hkeeps.look heightRead
  | work => exact hkeeps.work hspares

end

/-! ## Whole runs -/

theorem seenApplied_of_start {cfg : StartConfig} {store : Store} {n : SyncNode}
    (h : start cfg store = .ok n) : SeenApplied n ∧ n.codec = cfg.codec := by
  have hrestored : ∀ (snapshot : List (ℕ × ℕ)) (cache : BlockCache), cache.hashes = ∅ →
      (cache.restoreFromStore snapshot).hashes = ∅ := by
    intro snapshot
    induction snapshot with
    | nil => exact fun cache hempty => hempty
    | cons entry snapshot ih => exact fun cache hempty => ih (cache.restoreEntry entry) hempty
  unfold start at h
  split at h
  · simp at h
  rename_i syncer hsyncer
  obtain ⟨state, -, rfl⟩ := Syncer.initializeState_ok hsyncer
  dsimp only at h
  split at h
  · simp at h
  · obtain rfl := Except.ok.inj h
    refine ⟨fun key hkey => ?_, rfl⟩
    rw [seedDAHeight_hashes, hrestored _ _ (by rfl)] at hkey
    simp at hkey

/-- In every run of a started node, an event that has been given to `pipeEvent` and is valid
whenever it is the next block is in the channel, in its slot or being handled until a block of its
height is applied, if no action after that writes another event over it, sends it on without its
hints, or drops it because of a failed read or a critical error. -/
theorem piped_event_kept (cfg : StartConfig) (store : Store) (n : SyncNode) (capacity : ℕ)
    (before after : List Step) (ev : HeightEvent)
    (hhash : ∀ h h' : Header, cfg.codec.headerHash h = cfg.codec.headerHash h' →
      h.height = h'.height) (hstart : start cfg store = .ok n)
    (hrunning : (before.foldl step (new n capacity)).panicked = none)
    (hvalid : ∀ q ∈ Runs.steps step ((before.foldl step (new n capacity)).step (.pipe ev)) after,
      q.2.FindsValid ev q.1)
    (hspares : ∀ q ∈ Runs.steps step ((before.foldl step (new n capacity)).step (.pipe ev)) after,
      q.2.Spares ev q.1) :
    ((before ++ .pipe ev :: after).foldl step (new n capacity)).Keeps ev := by
  obtain ⟨hseen₀, hcodec₀⟩ := seenApplied_of_start hstart
  have hbefore : ∀ steps : List Step, SeenApplied (steps.foldl step (new n capacity)).node ∧
      (steps.foldl step (new n capacity)).node.codec = cfg.codec := by
    intro steps
    refine foldl_invariant step (fun p => SeenApplied p.node ∧ p.node.codec = cfg.codec)
      (fun _ _ => True) ?_ ⟨hseen₀, hcodec₀⟩ (fun _ _ => trivial)
    intro p s hp _
    obtain ⟨hseen, hcodec⟩ := hp.1.step s
    exact ⟨hseen, hcodec.trans hp.2⟩
  rw [foldl_append]
  obtain ⟨hseen, hcodec⟩ := (hbefore before).1.step (.pipe ev)
  refine (foldl_invariant step
    (fun p => p.Keeps ev ∧ SeenApplied p.node ∧ p.node.codec = cfg.codec)
    (fun p s => s.Spares ev p ∧ s.FindsValid ev p) ?_
    ⟨keeps_of_pipe hrunning ev, hseen, hcodec.trans (hbefore before).2⟩
    (fun q hq => ⟨hspares q hq, hvalid q hq⟩)).1
  intro p s hp hs
  obtain ⟨hkeeps, hseen, hcodec⟩ := hp
  obtain ⟨hseen', hcodec'⟩ := hseen.step s
  rw [← hcodec] at hhash
  exact ⟨hkeeps.step hhash hseen hs.1 hs.2, hseen', hcodec'.trans hcodec⟩

/-! ## A small chain -/

def unaryCodec : Codec :=
  { chainCodec with
    headerBytes := fun h => List.replicate h.height 1
    headerBytesLegacy := fun h => List.replicate h.height 1 }

theorem unaryCodec_height (h h' : Header)
    (hhash : unaryCodec.headerHash h = unaryCodec.headerHash h') : h.height = h'.height := by
  have hlength : ∀ h : Header, (unaryCodec.headerHash h).length = h.height + 1 := by
    intro h
    have hne : List.replicate h.height (1 : UInt8) ≠ [0] := by
      intro heq
      have hmem : (0 : UInt8) ∈ List.replicate h.height 1 := by
        rw [heq]
        exact mem_singleton.mpr rfl
      exact absurd (eq_of_mem_replicate hmem) (by decide)
    have hsha : unaryCodec.sha256 (List.replicate h.height 1) =
        1 :: List.replicate h.height 1 := if_neg hne
    unfold Codec.headerHash
    split_ifs
    all_goals
      change (unaryCodec.sha256 (List.replicate h.height 1)).length = _
      rw [hsha, length_cons, length_replicate]
  have hsame := congrArg List.length hhash
  rw [hlength, hlength] at hsame
  omega

def unaryConfig : StartConfig := { chainConfig with codec := unaryCodec }

def unaryNode : SyncNode where
  syncer := Syncer.ofState smallGenesis unaryCodec forcedClient
    (Executor.genesisState smallGenesis [0])
  wire := tableWire [] []
  provider := none
  store := (Store.empty.setHeight 0).updateState (Executor.genesisState smallGenesis [0])
  headerCache := BlockCache.new
  dataCache := BlockCache.new
  pendingEvents := ∅
  daRetrieverHeight := 1
  priorityHeights := []
  mismatchSeen := false
  hasCriticalError := false

theorem unaryNode_start : SyncNode.start unaryConfig Store.empty = .ok unaryNode := rfl

def unaryBlock (height : ℕ) : HeightEvent :=
  { chainBlock .sourceP2P height (if height = 1 then [] else [1, 1]) [[5]] with
    header := { (chainBlock .sourceP2P height (if height = 1 then [] else [1, 1]) [[5]]).header with
      signature := 7 :: List.replicate height 1 } }

def forgedBlock : HeightEvent :=
  { unaryBlock 2 with header := { (unaryBlock 2).header with signature := [8] } }

def overwriting : List Step :=
  [.pipe (unaryBlock 2), .receive, .process (chainEnv true), .pipe forgedBlock, .receive,
    .process (chainEnv true), .pipe (unaryBlock 1), .receive, .process (chainEnv true), .look true,
    .work, .work, .receive, .process (chainEnv true), .work]

/-- Nothing fails and nothing is cancelled, and yet block 2 is lost: the forged block took its
slot and has been dropped, and the node, now at height 1, would accept block 2. -/
theorem piped_event_overwritten :
    SyncNode.start unaryConfig Store.empty = .ok unaryNode ∧
      (overwriting.foldl step (new unaryNode 100)).node.store.height = 1 ∧
      (overwriting.foldl step (new unaryNode 100)).node.validateBlock (chainEnv true)
        (unaryBlock 2) = .ok () ∧
      ¬ (overwriting.foldl step (new unaryNode 100)).Keeps (unaryBlock 2) := by
  have hend : (overwriting.foldl step (new unaryNode 100)).node.store.height = 1 ∧
      (overwriting.foldl step (new unaryNode 100)).node.validateBlock (chainEnv true)
        (unaryBlock 2) = .ok () ∧
      (overwriting.foldl step (new unaryNode 100)).channel = [] ∧
      (overwriting.foldl step (new unaryNode 100)).piping = [] ∧
      (overwriting.foldl step (new unaryNode 100)).processing = none ∧
      (overwriting.foldl step (new unaryNode 100)).worker = .idle ∧
      (overwriting.foldl step (new unaryNode 100)).node.pendingEvents.keys = [] := by
    decide +kernel
  generalize overwriting.foldl step (new unaryNode 100) = p at hend ⊢
  obtain ⟨hheight, hvalid, hchannel, hpiping, hprocessing, hworker, hpending⟩ := hend
  refine ⟨unaryNode_start, hheight, hvalid, ?_⟩
  rintro (happlied | ⟨ev', -, hholds⟩)
  · rw [hheight] at happlied
    exact absurd happlied (by decide)
  · rcases hholds with h | h | h | ⟨k, h⟩ | ⟨k, h⟩ | ⟨k, h⟩
    · simp [hchannel] at h
    · simp [hpiping] at h
    · simp [hprocessing] at h
    · simp [hworker] at h
    · simp [hworker] at h
    · have hmem : k ∈ p.node.pendingEvents := AList.lookup_isSome.mp (by simp [h])
      rw [AList.mem_keys, hpending] at hmem
      exact absurd hmem not_mem_nil

theorem piped_event_kept_of_failed_commit :
    ([Step.pipe (unaryBlock 1), .receive, .process (chainEnv false)].foldl step
      (new unaryNode 100)).Keeps (unaryBlock 1) := by
  refine piped_event_kept unaryConfig Store.empty unaryNode 100 [] [.receive,
    .process (chainEnv false)] (unaryBlock 1) unaryCodec_height unaryNode_start rfl ?_ ?_
  · intro q hq
    rw [steps_cons, steps_cons, steps_nil, mem_cons, mem_singleton] at hq
    rcases hq with rfl | rfl
    · exact trivial
    refine ⟨rfl, fun new hnew _ _ filled hfilled => ?_⟩
    obtain rfl := some.inj hnew
    obtain rfl := some.inj (Except.ok.inj hfilled)
    refine ⟨by decide +kernel, ?_⟩
    -- the check is not made on P2P blocks; it is the commit that fails
    rintro ⟨count, hcount⟩
    have hcommit := hcount.symm.trans (b := Except.error SyncError.commit) (by rfl)
    simp at hcommit
  · intro q hq
    rw [steps_cons, steps_cons, steps_nil, mem_cons, mem_singleton] at hq
    rcases hq with rfl | rfl
    · exact trivial
    intro new hnew
    obtain rfl := some.inj hnew
    refine ⟨fun _ => ⟨rfl, fun _ => ⟨fun hda => absurd hda (by decide), rfl, [0], rfl⟩⟩,
      .inr (fun old hold => ?_)⟩
    have hnone := hold.symm.trans (b := none) (by rfl)
    simp at hnone

end EventPipeline

end ChainSdk

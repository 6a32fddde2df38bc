/-
The way of a height event through a syncing node: `pipeEvent`, the channel of the event loop, and
`processPendingEvents`, of `block/internal/syncing/syncer.go`.

An event is in one place at a time.
-/
import ChainSdk.InclusionRefinement

namespace ChainSdk

open Except

/-! ## Model -/

/-- Where the worker is in `processPendingEvents`. -/
inductive WorkerPc
  | idle
  /-- About to look for the event of a height. -/
  | looking (nextHeight : ℕ)
  /-- The event is out of its slot and about to be sent. -/
  | sending (nextHeight : ℕ) (ev : HeightEvent)
  /-- The channel was full; the event is about to go back to its slot. -/
  | restoring (nextHeight : ℕ) (ev : HeightEvent)
  deriving DecidableEq

structure EventPipeline where
  node : SyncNode
  /-- The size of `heightInCh`. -/
  capacity : ℕ
  channel : List HeightEvent
  /-- The events of `pipeEvent` calls that found the channel full. -/
  piping : List HeightEvent
  /-- The event the loop has received. -/
  processing : Option HeightEvent
  worker : WorkerPc
  panicked : Option Panic

namespace EventPipeline

def new (node : SyncNode) (capacity : ℕ) : EventPipeline :=
  ⟨node, capacity, [], [], none, .idle, none⟩

/-- The event as `processPendingEvents` puts it together again, field by field. -/
def resend (ev : HeightEvent) : HeightEvent := { ev with daHeightHints := (0, 0) }

variable (p : EventPipeline)

def setPendingAt (height : ℕ) (ev : HeightEvent) : EventPipeline :=
  { p with
    node := { p.node with pendingEvents := p.node.pendingEvents.insert height ev } }

def takePending (height : ℕ) : EventPipeline :=
  match p.node.pendingEvents.lookup height with
  | none => { p with worker := .idle }
  | some ev =>
    { p with
      node := { p.node with pendingEvents := p.node.pendingEvents.erase height }
      worker := .sending height ev }

/-- One action of `processPendingEvents`. -/
def work : EventPipeline :=
  match p.worker with
  | .idle => p
  | .looking height => p.takePending height
  | .sending height ev =>
    if p.channel.length < p.capacity then
      { p with channel := p.channel ++ [resend ev], worker := .looking (height + 1) }
    else { p with worker := .restoring height ev }
  | .restoring height ev => { p.setPendingAt height ev with worker := .idle }

inductive Step
  /-- `pipeEvent`, up to its `select`. -/
  | pipe (ev : HeightEvent)
  /-- A call that found the channel full stores its event. -/
  | keep (ev : HeightEvent)
  /-- The loop receives an event. -/
  | receive
  /-- `processHeightEvent` on it. -/
  | process (env : EventEnv)
  /-- `processPendingEvents` is called and reads the height of the store. -/
  | look (heightRead : Bool)
  | work

def step (s : Step) : EventPipeline :=
  if p.panicked.isSome then p
  else
    match s with
    | .pipe ev =>
      if p.channel.length < p.capacity then { p with channel := p.channel ++ [ev] }
      else { p with piping := p.piping ++ [ev] }
    | .keep ev =>
      if ev ∈ p.piping then
        { p.setPendingAt ev.header.header.height ev with piping := p.piping.erase ev }
      else p
    | .receive =>
      match p.processing, p.channel with
      | none, ev :: rest => { p with channel := rest, processing := some ev }
      | _, _ => p
    | .process env =>
      match p.processing with
      | none => p
      | some ev =>
        match p.node.processHeightEvent env ev with
        | .error panic => { p with panicked := some panic }
        | .ok node => { p with node := node, processing := none }
    | .look heightRead =>
      if p.worker = .idle ∧ heightRead then
        { p with worker := .looking (p.node.store.height + 1) }
      else p
    | .work => p.work

end EventPipeline

/-! ## Equal events -/

def Data.withoutLast (d : Data) : Data :=
  { d with metadata := d.metadata.map (fun m => { m with lastDataHash := [] }) }

/-- The event `ev'` is `ev`, up to the hash of the last data that `processHeightEvent` fills in
where empty data came from DA. -/
structure HeightEvent.Carries (ev ev' : HeightEvent) : Prop where
  header_eq : ev'.header = ev.header
  daHeight_eq : ev'.daHeight = ev.daHeight
  source_eq : ev'.source = ev.source
  hints_eq : ev'.daHeightHints = ev.daHeightHints
  data_eq : ev'.data = ev.data ∨ ev.source = .sourceDA ∧
    ev.header.header.dataHash = dataHashForEmptyTxs ∧ ev'.data.withoutLast = ev.data.withoutLast

namespace HeightEvent.Carries

variable {ev ev' ev'' : HeightEvent}

theorem refl (ev : HeightEvent) : ev.Carries ev := ⟨rfl, rfl, rfl, rfl, .inl rfl⟩

theorem trans (h : ev.Carries ev') (h' : ev'.Carries ev'') : ev.Carries ev'' := by
  refine ⟨h'.header_eq.trans h.header_eq, h'.daHeight_eq.trans h.daHeight_eq,
    h'.source_eq.trans h.source_eq, h'.hints_eq.trans h.hints_eq, ?_⟩
  rcases h'.data_eq with hdata' | ⟨hsource, hempty, hdata'⟩
  · rw [hdata']
    exact h.data_eq
  rw [h.source_eq] at hsource
  rw [h.header_eq] at hempty
  refine .inr ⟨hsource, hempty, hdata'.trans ?_⟩
  rcases h.data_eq with hdata | ⟨-, -, hdata⟩
  · rw [hdata]
  · exact hdata

theorem txs_eq (h : ev.Carries ev') : ev'.data.txs = ev.data.txs := by
  rcases h.data_eq with hdata | ⟨-, -, hdata⟩
  · rw [hdata]
  · have htxs : ev'.data.withoutLast.txs = ev.data.withoutLast.txs := by rw [hdata]
    exact htxs

theorem resend (h : ev.Carries ev') (hhints : ev.daHeightHints = (0, 0)) :
    ev.Carries (EventPipeline.resend ev') :=
  ⟨h.header_eq, h.daHeight_eq, h.source_eq, hhints.symm, h.data_eq⟩

end HeightEvent.Carries

/-! ## What processing does to the slots -/

namespace SyncNode

variable {n n' : SyncNode} {env : EventEnv} {ev filled : HeightEvent}

theorem fillLastDataHash_carries (h : n.fillLastDataHash env ev = .ok (some filled)) :
    ev.Carries filled := by
  rcases fillLastDataHash_cases h with rfl | ⟨hsource, hempty, last, rfl⟩
  · exact .refl _
  · refine ⟨rfl, rfl, rfl, rfl, .inr ⟨hsource, hempty, ?_⟩⟩
    simp [Data.withoutLast, DAHeightEvent.filledData, hempty, Function.comp_def]

theorem fillLastDataHash_of_read
    (hread : ev.source = .sourceDA → ev.header.header.dataHash = dataHashForEmptyTxs →
      0 < n.store.height → env.blockRead = true ∧ (n.store.blocks n.store.height).isSome) :
    (∃ panic, n.fillLastDataHash env ev = .error panic) ∨
      ∃ filled, n.fillLastDataHash env ev = .ok (some filled) := by
  unfold fillLastDataHash
  by_cases hempty : ev.source = .sourceDA ∧ ev.header.header.dataHash = dataHashForEmptyTxs ∧
      0 < n.store.height
  · obtain ⟨hblock, hsome⟩ := hread hempty.1 hempty.2.1 hempty.2.2
    obtain ⟨last, hlast⟩ := Option.isSome_iff_exists.mp hsome
    simp only [if_pos hempty, hlast, hblock, Bool.not_true, Bool.false_eq_true, if_false]
    split
    · exact .inl ⟨_, rfl⟩
    · exact .inr ⟨_, rfl⟩
  · rw [if_neg hempty]
    exact .inr ⟨ev, rfl⟩

theorem trySyncNextBlock_pending {result : Except TrySyncError Unit}
    (h : n.trySyncNextBlock env ev = .ok (result, n')) : n'.pendingEvents = n.pendingEvents := by
  unfold trySyncNextBlock at h
  split_ifs at h
  · obtain ⟨-, rfl⟩ := Prod.mk.inj (ok.inj h)
    rfl
  split at h
  · simp at h
  · obtain ⟨-, rfl⟩ := Prod.mk.inj (ok.inj h)
    rfl
  · dsimp only at h
    split at h
    all_goals
      obtain ⟨-, rfl⟩ := Prod.mk.inj (ok.inj h)
      rfl

/-- An error of it is followed by a critical error, or the block is invalid, or its commit has
failed. -/
theorem trySyncNextBlock_error {e : TrySyncError} (hcancelled : env.cancelled = false)
    (h : n.trySyncNextBlock env ev = .ok (.error e, n')) :
    (∃ err, e = .invalid err ∧ n.validateBlock env ev ≠ .ok ()) ∨
      (∃ count, e = .maliciousProposer count ∧
        n.syncer.Accuses (n.syncEvent env ev)) ∨
      (∃ msg, e = .applyBlock msg ∧ n'.hasCriticalError = true ∧
        env.executeTxs ev.data.txs ev.header.header.height
          (timeOfUint64 ev.header.header.time) n.syncer.lastState.appHash = .error msg) ∨
      e = .commit ∧ env.committed = false ∧ n'.hasCriticalError = n.hasCriticalError := by
  unfold trySyncNextBlock at h
  simp only [hcancelled, Bool.false_eq_true, if_false] at h
  split at h
  · simp at h
  · rename_i err _ hinvalid
    obtain ⟨he, rfl⟩ := Prod.mk.inj (ok.inj h)
    refine .inl ⟨err, (error.inj he).symm, ?_⟩
    rw [hinvalid]
    exact fun hok => absurd hok (by simp)
  · rcases hsynced : (n.syncer.trySyncNextBlock (n.syncEvent env ev)).1 with err | _
    · rw [hsynced] at h
      right
      rcases Syncer.notApplied_of_error hsynced with
        hvalid | count | ⟨msg, happ⟩ | hcommitted
      · cases hvalid
      · obtain ⟨he, rfl⟩ := Prod.mk.inj (ok.inj h)
        exact .inl ⟨count, (error.inj he).symm, count, hsynced⟩
      · obtain ⟨he, rfl⟩ := Prod.mk.inj (ok.inj h)
        exact .inr (.inl ⟨msg, (error.inj he).symm, rfl, happ⟩)
      · obtain ⟨he, rfl⟩ := Prod.mk.inj (ok.inj h)
        exact .inr (.inr ⟨(error.inj he).symm, hcommitted, rfl⟩)
    · rw [hsynced] at h
      exact absurd (Prod.mk.inj (ok.inj h)).1 (by simp)

/-- Processing an event leaves the slots alone or writes the event, patched or not, into its
own: because its turn has not come, or because its commit has failed. -/
theorem processHeightEvent_pending (hcancelled : env.cancelled = false)
    (h : n.processHeightEvent env ev = .ok n') :
    n'.pendingEvents = n.pendingEvents ∨
      (n.store.height + 1 < ev.header.header.height ∨ env.committed = false) ∧
        ∃ stored, ev.Carries stored ∧
          n'.pendingEvents = n.pendingEvents.insert ev.header.header.height stored := by
  cases processHeightEvent_outcome h with
  | dropped _ => exact .inl rfl
  | ahead hahead => exact .inr ⟨.inl hahead, ev, .refl ev, rfl⟩
  | unread queue _ _ => exact .inl rfl
  | synced queue filled _ _ _ hsync =>
    have hkept := trySyncNextBlock_pending hsync
    exact .inl hkept
  | failed queue filled e synced _ hfill hsync =>
    have hcarries := fillLastDataHash_carries hfill
    have hpending : synced.pendingEvents = n.pendingEvents :=
      trySyncNextBlock_pending (n := { n with priorityHeights := queue }) hsync
    unfold onSyncError
    by_cases hcritical : synced.hasCriticalError = true
    · rw [if_pos hcritical]
      exact .inl hpending
    rw [if_neg hcritical]
    rcases trySyncNextBlock_error hcancelled hsync with ⟨err, rfl, -⟩ | ⟨count, rfl, -⟩ |
      ⟨msg, rfl, hraised, -⟩ | ⟨rfl, hcommitted, -⟩
    · left
      cases err <;> exact hpending
    · exact .inl hpending
    · exact absurd hraised hcritical
    · refine .inr ⟨.inr hcommitted, filled, hcarries, ?_⟩
      show synced.pendingEvents.insert filled.header.header.height filled = _
      rw [hpending, hcarries.header_eq]

/-! ## Events that are not dropped -/

/-- The event's block is valid as the next block: `ValidateBlock` passes, and the check of
forced inclusion does not accuse the proposer. -/
def ValidNext (n : SyncNode) (env : EventEnv) (ev : HeightEvent) : Prop :=
  ∀ filled, n.fillLastDataHash env ev = .ok (some filled) →
    n.validateBlock env filled = .ok () ∧ ¬ n.syncer.Accuses (n.syncEvent env filled)

/-- Nothing makes the loop drop the next block: the last block can be read, no critical error is up,
and the execution client answers. -/
structure ReadsNext (n : SyncNode) (env : EventEnv) (ev : HeightEvent) : Prop where
  lastData : ev.source = .sourceDA → ev.header.header.dataHash = dataHashForEmptyTxs →
    0 < n.store.height → env.blockRead = true ∧ (n.store.blocks n.store.height).isSome
  noCriticalError : n.hasCriticalError = false
  executed : ∃ root, env.executeTxs ev.data.txs ev.header.header.height
    (timeOfUint64 ev.header.header.time) n.syncer.lastState.appHash = .ok root

theorem processHeightEvent_of_valid (hcancelled : env.cancelled = false)
    (hread : env.heightRead = true) (hunseen : n.store.height < ev.header.header.height →
      n.headerCache.isSeen (n.headerKey ev.header) = false)
    (hvalid : ev.header.header.height = n.store.height + 1 →
      n.ValidNext env ev ∧ n.ReadsNext env ev) (h : n.processHeightEvent env ev = .ok n') :
    ev.header.header.height ≤ n'.store.height ∨
      ∃ stored, ev.Carries stored ∧
        n'.pendingEvents.lookup ev.header.header.height = some stored := by
  cases processHeightEvent_outcome h with
  | dropped hwhy =>
    left
    by_contra hlt
    rw [not_le] at hlt
    rw [hread, hunseen hlt] at hwhy
    simp only [Bool.true_eq_false, Bool.false_eq_true, false_or, or_false] at hwhy
    omega
  | ahead _ => exact .inr ⟨ev, .refl ev, AList.lookup_insert _⟩
  | unread queue hnext hfill =>
    rcases fillLastDataHash_of_read (hvalid hnext).2.lastData with
      ⟨panic, hpanic⟩ | ⟨filled, hfilled⟩
    · exact absurd (hfill.symm.trans hpanic) (by simp)
    · exact absurd (hfill.symm.trans hfilled) (by simp)
  | synced queue filled _ hnext hfill hsync =>
    left
    have hheight := hnext
    rw [← fillLastDataHash_header hfill] at hheight
    rcases trySyncNextBlock_commits (n := { n with priorityHeights := queue }) hheight hsync with
      ⟨⟨e, he⟩, -⟩ | ⟨-, hcommits⟩
    · simp at he
    · have hafter : n'.store.height = n.store.height + 1 := hcommits.height_after
      rw [hafter, hnext]
  | failed queue filled e synced hnext hfill hsync =>
    obtain ⟨hvalid, hreads⟩ := hvalid hnext
    obtain ⟨hvalidated, haccuses⟩ := hvalid filled hfill
    have hcarries := fillLastDataHash_carries hfill
    rcases trySyncNextBlock_error hcancelled hsync with ⟨err, -, hinvalid⟩ |
      ⟨count, -, haccused⟩ | ⟨msg, -, -, hfailed⟩ | ⟨rfl, -, hcritical⟩
    · exact absurd hvalidated hinvalid
    · exact absurd haccused haccuses
    · obtain ⟨root, hroot⟩ := hreads.executed
      rw [← hcarries.txs_eq, ← hcarries.header_eq] at hroot
      exact absurd (hroot.symm.trans hfailed) (by simp)
    · refine .inr ⟨filled, hcarries, ?_⟩
      have hnone : synced.hasCriticalError = false := hcritical.trans hreads.noCriticalError
      unfold onSyncError setPendingEvent
      simp only [hnone, Bool.false_eq_true, if_false, hcarries.header_eq, AList.lookup_insert]

end SyncNode

end ChainSdk

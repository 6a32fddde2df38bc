/-
Runs of a node that is stopped and started again, and when none of them leaves a blob behind.

`ResumeSafety` bounds the DA heights a process remembers through every step but one: the call that
reads a DA height brings in a new one.
-/
import ChainSdk.ResumeSafety

namespace ChainSdk

open BlockCache DaRetriever List Option SyncNode SyncProcess

/-! ## Reading a DA height -/

namespace DaRetriever

theorem processBlobs_emits {r r' : DaRetriever} {call : Call} {events : List DAHeightEvent}
    {decoded : Decoded} (hsettled : r.Settled)
    (hdecoded : decodeBlobs call.now call.daHeight ⟨r, [], []⟩ call.blobs = .ok decoded)
    (h : r.processBlobs call = .ok (r', events)) :
    (∀ ev ∈ events, ev.daHeight = call.daHeight) ∧
      (decoded.headers = [] → decoded.data = [] → events = []) := by
  obtain ⟨decoded', hdecoded', -, hprocessed⟩ := processBlobsIn_ok (processBlobs_eq r call ▸ h)
  obtain rfl := Except.ok.inj (hdecoded'.symm.trans hdecoded)
  refine ⟨fun ev hev => ?_, fun hheaders hdata =>
    eq_nil_iff_forall_not_mem.mpr fun ev hev => ?_⟩
  · obtain ⟨h, header, -, hemit⟩ := hprocessed.mem_events.mp hev
    exact (emit_eq_some hemit).2.1
  · obtain ⟨h, header, hat, hemit⟩ := hprocessed.mem_events.mp hev
    rw [headerAt, hheaders, List.find?_nil, or_none] at hat
    obtain ⟨hnone, hexpected⟩ := hsettled h header hat
    simp [dataAt, hdata, hnone, emit, hexpected] at hemit

end DaRetriever

namespace SyncProcess

variable {p p' : SyncProcess} {call : DaRetriever.Call} {needed : Set ℕ}

def Decodes (p : SyncProcess) (call : DaRetriever.Call) : Prop :=
  ∃ decoded, p.decode call = .ok decoded ∧ (decoded.headers ≠ [] ∨ decoded.data ≠ [])

/-- Every DA height of the process is below what is needed. -/
structure Below (needed : Set ℕ) (p : SyncProcess) : Prop where
  node : p.node.Below needed
  emitted : ∀ ev ∈ p.emitted, ev.daHeight ∈ lowerBounds needed
  loop : p.loop.Below needed
  settled : p.retriever.Settled

theorem read_eq_some (h : p.read call = some p') :
    ∃ decoded r events, p.decode call = .ok decoded ∧
      p.retriever.processBlobs call = .ok (r, events) ∧
      p' = { p with
        node := markIncluded p.node decoded call.daHeight
        retriever := r
        emitted := p.emitted ++ events } := by
  unfold read at h
  split at h
  · rename_i decoded r events hdecoded hprocessed
    exact ⟨decoded, r, events, hdecoded, hprocessed, (some.inj h).symm⟩
  · simp at h

section

variable {env : EventEnv} (hp : p.Below needed)
include hp

theorem Below.read
    (hcall : p.Decodes call → call.daHeight ∈ lowerBounds needed) (h : p.read call = some p') :
    p'.Below needed := by
  obtain ⟨decoded, r, events, hdecoded, hprocessed, rfl⟩ := read_eq_some h
  obtain ⟨hemits, hquiet⟩ := processBlobs_emits hp.settled hdecoded hprocessed
  have hheaders : decoded.headers ≠ [] → call.daHeight ∈ lowerBounds needed :=
    fun hne => hcall ⟨decoded, hdecoded, .inl hne⟩
  have hdata : decoded.data ≠ [] → call.daHeight ∈ lowerBounds needed :=
    fun hne => hcall ⟨decoded, hdecoded, .inr hne⟩
  refine ⟨⟨hp.node.headerCache.marks _ hheaders _ _, hp.node.dataCache.marks _ hdata _ _,
    hp.node.states, hp.node.lastState, hp.node.pending⟩, fun ev hev => ?_, hp.loop,
    processBlobs_settled hprocessed⟩
  rcases mem_append.mp hev with hev | hev
  · exact hp.emitted ev hev
  rw [hemits ev hev]
  by_cases hnone : decoded.headers = []
  · apply hdata
    intro hnone'
    rw [hquiet hnone hnone'] at hev
    exact absurd hev not_mem_nil
  · exact hheaders hnone

theorem Below.receive {ev : HeightEvent}
    (hev : ev.daHeight ∈ lowerBounds needed) (h : p.receive env ev = some p') :
    p'.Below needed ∧ p.node.store.height ≤ p'.node.store.height := by
  unfold SyncProcess.receive at h
  split at h
  · simp at h
  · rename_i node hprocessed
    rw [← some.inj h]
    exact ⟨⟨hp.node.processHeightEvent hev hprocessed, hp.emitted, hp.loop, hp.settled⟩,
      le_height_of_processHeightEvent hprocessed⟩

theorem Below.takePending {height : ℕ} (h : p.takePending env height = some p') :
    p'.Below needed ∧ p.node.store.height ≤ p'.node.store.height := by
  unfold SyncProcess.takePending at h
  split at h
  · rw [← some.inj h]
    exact ⟨hp, le_rfl⟩
  rename_i ev hlookup
  have hfreed : ({ p with node := { p.node with
      pendingEvents := p.node.pendingEvents.erase height } } : SyncProcess).Below needed :=
    ⟨⟨hp.node.headerCache, hp.node.dataCache, hp.node.states, hp.node.lastState,
      fun h' ev' hlookup' => hp.node.pending h' ev' (lookup_of_lookup_erase hlookup')⟩,
      hp.emitted, hp.loop, hp.settled⟩
  have hev : (EventPipeline.resend ev).daHeight ∈ lowerBounds needed :=
    hp.node.pending height ev hlookup
  exact hfreed.receive hev h

theorem Below.loopStep {metadata : InclusionMetadata}
    (hmetadata : metadata.Below needed) (inp : LoopInput) :
    (p.loopStep metadata inp).1.Below needed ∧ (p.loopStep metadata inp).2.Below needed := by
  have hn : (p.inclusion metadata).MarksBelow needed :=
    ⟨hp.node.headerCache, hp.node.dataCache, hmetadata, hp.loop⟩
  have hnext := hn.loopEffect ((p.inclusion metadata).loopEffect inp)
  exact ⟨⟨⟨hnext.headerCache, hnext.dataCache, hp.node.states, hp.node.lastState,
    hp.node.pending⟩, hp.emitted, hnext.loop, hp.settled⟩, hnext.metadata⟩

theorem Below.mono {needed' : Set ℕ} (hsub : needed' ⊆ needed) :
    p.Below needed' := by
  have hmono := lowerBounds_mono_set hsub
  refine ⟨⟨fun key d hd => hmono (hp.node.headerCache key d hd),
    fun key d hd => hmono (hp.node.dataCache key d hd),
    fun h state hstate => hmono (hp.node.states h state hstate), hmono hp.node.lastState,
    fun h ev hev => hmono (hp.node.pending h ev hev)⟩, fun ev hev => hmono (hp.emitted ev hev),
    ?_, hp.settled⟩
  have hloop := hp.loop
  cases hpc : p.loop with
  | mappingData current data daHeight =>
    rw [hpc] at hloop
    exact hmono hloop
  | _ => trivial

end

end SyncProcess

namespace SyncDisk

variable {disk : SyncDisk} {needed : Set ℕ}

/-- Every DA height in the datastore is below what is needed. -/
structure Below (needed : Set ℕ) (disk : SyncDisk) : Prop where
  states : disk.store.StatesBelow needed
  metadata : disk.metadata.Below needed
  headerSnapshot : ∀ entry ∈ disk.headerSnapshot, entry.2 ∈ lowerBounds needed
  dataSnapshot : ∀ entry ∈ disk.dataSnapshot, entry.2 ∈ lowerBounds needed

section

variable (hdisk : disk.Below needed)
include hdisk

theorem Below.mono {needed' : Set ℕ} (hsub : needed' ⊆ needed) :
    disk.Below needed' := by
  have hmono := lowerBounds_mono_set hsub
  exact ⟨fun h state hstate => hmono (hdisk.states h state hstate),
    ⟨fun h d hd => hmono (hdisk.metadata.header h d hd),
      fun h d hd => hmono (hdisk.metadata.data h d hd)⟩,
    fun entry hentry => hmono (hdisk.headerSnapshot entry hentry),
    fun entry hentry => hmono (hdisk.dataSnapshot entry hentry)⟩

theorem Below.withStore {store : Store}
    (hstates : store.StatesBelow needed) : ({ disk with store := store } : SyncDisk).Below needed :=
  ⟨hstates, hdisk.metadata, hdisk.headerSnapshot, hdisk.dataSnapshot⟩

theorem Below.cleared (clearCache : Bool) :
    (disk.cleared clearCache).Below needed := by
  unfold SyncDisk.cleared
  split_ifs
  · exact ⟨hdisk.states, hdisk.metadata, fun _ h => absurd h not_mem_nil,
      fun _ h => absurd h not_mem_nil⟩
  · exact hdisk

theorem Below.saveToStore {p : SyncProcess} (hp : p.Below needed) :
    (disk.saveToStore p).Below needed :=
  ⟨hdisk.states, hdisk.metadata, hp.node.headerCache.snapshot, hp.node.dataCache.snapshot⟩

theorem Below.resumeHeight {genesis : Genesis} (hpos : 0 < genesis.daStartHeight)
    (hgenesis : genesis.daStartHeight ∈ lowerBounds needed) (latest : Except String ℕ) :
    disk.resumeHeight genesis latest ∈ lowerBounds needed := by
  have hheader : disk.headerCache.daHeight ∈ lowerBounds needed :=
    seedDAHeight_daHeight_mem (BlockCache.Below.restoreFromStore
      hdisk.headerSnapshot .new zero_mem_lowerBounds).2 (tipDAHeight_mem hdisk.metadata.header)
  have hdata : disk.dataCache.daHeight ∈ lowerBounds needed :=
    seedDAHeight_daHeight_mem (BlockCache.Below.restoreFromStore
      hdisk.dataSnapshot .new zero_mem_lowerBounds).2 (tipDAHeight_mem hdisk.metadata.data)
  have hstate : (disk.store.getState.map State.daHeight).getD genesis.daStartHeight ∈
      lowerBounds needed := by
    rcases hget : disk.store.getState with _ | state
    · exact hgenesis
    · exact hdisk.states _ state hget
  unfold SyncDisk.resumeHeight
  rw [retrieverStart, if_neg (hpos.trans_le (le_max_left _ _)).ne']
  exact max_mem_lowerBounds hgenesis
    (max_mem_lowerBounds (max_mem_lowerBounds hheader hdata) hstate)

end

end SyncDisk

/-! ## Runs -/

namespace ResumingNode

variable {n : ResumingNode} {blocks : Set BlockOnDa}

def needed (blocks : Set BlockOnDa) (n : ResumingNode) : Set ℕ :=
  neededDAHeights blocks n.disk.store.height

/-- A process that starts on the datastore as it is, or after the caches have been saved, resumes no
higher than the first DA height with a blob of a block still to be applied. -/
def Resumes (blocks : Set BlockOnDa) (n : ResumingNode) : Prop :=
  ∀ clearCache latest,
    (n.disk.cleared clearCache).resumeHeight n.base.genesis latest ∈
        lowerBounds (n.needed blocks) ∧
      ∀ p, n.process = some p → ((n.disk.saveToStore p).cleared clearCache).resumeHeight
        n.base.genesis latest ∈ lowerBounds (n.needed blocks)

/-- A DA height in which something is found is read when no block with a blob below it is still
to be applied. -/
def Event.InTurn (blocks : Set BlockOnDa) (n : ResumingNode) : Event → Prop
  | .read call => ∀ p, n.process = some p → p.Decodes call →
      call.daHeight ∈ lowerBounds (neededDAHeights blocks p.node.store.height)
  | _ => True

structure Below (blocks : Set BlockOnDa) (n : ResumingNode) : Prop where
  disk : n.disk.Below (n.needed blocks)
  process : ∀ p, n.process = some p → p.Below (n.needed blocks) ∧ p.node.store = n.disk.store

theorem fresh_below (base : StartConfig) (blocks : Set BlockOnDa) :
    (fresh base).Below blocks := by
  refine ⟨⟨?_, ⟨?_, ?_⟩, ?_, ?_⟩, ?_⟩
  · exact fun h state hstate => absurd hstate (by simp [fresh, Store.empty])
  · exact fun h d hd => absurd hd (by simp [fresh])
  · exact fun h d hd => absurd hd (by simp [fresh])
  · exact fun entry hentry => absurd hentry not_mem_nil
  · exact fun entry hentry => absurd hentry not_mem_nil
  · exact fun p hp => absurd hp (by simp [fresh])

theorem Below.proceed (hn : n.Below blocks) {process : Option SyncProcess}
    (hprocess : ∀ p, process = some p → p.Below (n.needed blocks) ∧
      n.disk.store.height ≤ p.node.store.height) : (n.proceed process).Below blocks := by
  unfold ResumingNode.proceed
  rcases process with _ | p
  · exact ⟨hn.disk, fun p hp => absurd hp (by simp)⟩
  obtain ⟨hp, hle⟩ := hprocess p rfl
  have hsub := neededDAHeights_anti blocks hle
  refine ⟨?_, fun p' hp' => ?_⟩
  · exact (hn.disk.withStore hp.node.states).mono hsub
  · rw [← some.inj hp']
    exact ⟨hp.mono hsub, rfl⟩

theorem Below.start (hn : n.Below blocks) (hnone : n.process = none)
    (hgenesis : n.base.genesis.daStartHeight ∈ lowerBounds (n.needed blocks)) (clearCache : Bool)
    (initChain : Except String Hash) (stateSaved : Bool) (latest : Except String ℕ)
    (replay : ReplayEnv) :
    (n.start clearCache initChain stateSaved latest replay).Below blocks := by
  have hdisk := hn.disk.cleared clearCache
  have hcfg : StartsBelow (n.needed blocks) ((n.disk.cleared clearCache).startConfig
      n.base initChain stateSaved latest replay) (n.disk.cleared clearCache).store :=
    ⟨hdisk.states, hgenesis, hdisk.headerSnapshot, hdisk.dataSnapshot⟩
  obtain ⟨hstates, hle⟩ := hcfg.startStore
  have hheight : n.disk.store.height = (n.disk.cleared clearCache).store.height := by
    unfold SyncDisk.cleared
    split_ifs <;> rfl
  have hsub := neededDAHeights_anti blocks (hheight.le.trans hle)
  unfold ResumingNode.start
  dsimp only
  split
  · exact ⟨(hdisk.withStore hstates).mono hsub, fun p hp => absurd hp (by simp [hnone])⟩
  rename_i node hstart
  obtain ⟨hnode, hstore⟩ := hcfg.start hstart
  rw [← hstore] at hsub
  refine ⟨(hdisk.withStore hnode.states).mono hsub, fun p hp => ?_⟩
  rw [← some.inj hp]
  have hp' : (SyncProcess.new node (n.disk.cleared clearCache).metadata).Below
      (n.needed blocks) := by
    refine ⟨hnode, fun ev hev => absurd hev not_mem_nil, trivial, ?_⟩
    exact fun h header hlookup => absurd hlookup (by simp [SyncProcess.new, DaRetriever.new])
  exact ⟨hp'.mono hsub, rfl⟩

section

variable (hn : n.Below blocks)
  (hgenesis : n.base.genesis.daStartHeight ∈ lowerBounds (n.needed blocks))
include hn hgenesis

theorem Below.step {e : Event} (hturn : e.InTurn blocks n) : (n.step e).Below blocks := by
  unfold ResumingNode.step
  cases hp : n.process with
  | none =>
    cases e with
    | start => exact hn.start hp hgenesis _ _ _ _ _
    | _ => exact hn
  | some p =>
    obtain ⟨hbelow, hstore⟩ := hn.process p hp
    cases e with
    | read call =>
      refine hn.proceed (fun p' hp' => ⟨hbelow.read (fun hdecodes => ?_) hp', ?_⟩)
      · have hcall := hturn p hp hdecodes
        rwa [hstore] at hcall
      · obtain ⟨decoded, r, events, -, -, rfl⟩ := read_eq_some hp'
        exact (congrArg Store.height hstore).ge
    | fromDA env ev =>
      dsimp only
      split_ifs with hemitted
      · refine hn.proceed (fun p' hp' => ?_)
        rw [← hstore]
        exact hbelow.receive (hbelow.emitted ev hemitted) hp'
      · exact hn
    | fromP2P env header data hints =>
      refine hn.proceed (fun p' hp' => ?_)
      rw [← hstore]
      exact hbelow.receive zero_mem_lowerBounds hp'
    | pending env height =>
      refine hn.proceed (fun p' hp' => ?_)
      rw [← hstore]
      exact hbelow.takePending hp'
    | loop inp =>
      obtain ⟨hnext, hmetadata⟩ := hbelow.loopStep hn.disk.metadata inp
      refine ⟨⟨hn.disk.states, hmetadata, hn.disk.headerSnapshot, hn.disk.dataSnapshot⟩,
        fun p' hp' => ?_⟩
      rw [← some.inj hp']
      exact ⟨hnext, hstore⟩
    | saveHeaders =>
      exact ⟨⟨hn.disk.states, hn.disk.metadata, hbelow.node.headerCache.snapshot,
        hn.disk.dataSnapshot⟩, fun p' hp' => hn.process p' (hp.trans hp')⟩
    | saveData =>
      exact ⟨⟨hn.disk.states, hn.disk.metadata, hn.disk.headerSnapshot,
        hbelow.node.dataCache.snapshot⟩, fun p' hp' => hn.process p' (hp.trans hp')⟩
    | stop => exact ⟨hn.disk, fun p' hp' => absurd hp' (by simp)⟩
    | start => exact hn

theorem Below.resumes (hpos : 0 < n.base.genesis.daStartHeight) : n.Resumes blocks := by
  intro clearCache latest
  refine ⟨(hn.disk.cleared clearCache).resumeHeight hpos hgenesis latest, fun p hp => ?_⟩
  exact ((hn.disk.saveToStore (hn.process p hp).1).cleared clearCache).resumeHeight hpos hgenesis
    latest

end

theorem base_step (n : ResumingNode) (e : Event) : (n.step e).base = n.base := by
  unfold ResumingNode.step
  split
  · unfold ResumingNode.start
    dsimp only
    split <;> rfl
  all_goals first
    | rfl
    | (unfold ResumingNode.proceed; split <;> rfl)
    | (split_ifs <;> first | rfl | (unfold ResumingNode.proceed; split <;> rfl))

/-- In every run of a node, from its first start and through any number of stops, crashes and
restarts: whenever the process ends, the next one misses no blob of a block that is not in the
store, if every DA height in which something was found has been read in its turn. The next process
reads on from the resume height that this is about. -/
theorem resume_point_safe (base : StartConfig) (blocks : Set BlockOnDa)
    (hpos : 0 < base.genesis.daStartHeight)
    (hposted : ∀ b ∈ blocks, ∀ daHeight, b.HeldAt daHeight →
      base.genesis.daStartHeight ≤ daHeight) (events : List Event)
    (hturns : ∀ p ∈ Runs.steps step (fresh base) events, p.2.InTurn blocks p.1) :
    (∀ before after, events = before ++ after →
      (before.foldl step (fresh base)).Resumes blocks) ∧
    ∀ (n : ResumingNode) clearCache initChain stateSaved latest replay p, n.process = none →
      (n.start clearCache initChain stateSaved latest replay).process = some p →
        p.node.daRetrieverHeight =
          (n.disk.cleared clearCache).resumeHeight n.base.genesis latest := by
  refine ⟨?_, fun n clearCache initChain stateSaved latest replay p hnone hp =>
    start_daRetrieverHeight hnone hp⟩
  have hgenesis : ∀ n : ResumingNode, n.base = base →
      n.base.genesis.daStartHeight ∈ lowerBounds (n.needed blocks) := by
    rintro n hbase daHeight ⟨b, hb, -, hheld⟩
    rw [hbase]
    exact hposted b hb daHeight hheld
  rintro before after rfl
  rw [Runs.steps_append] at hturns
  obtain ⟨hbelow, hsame⟩ := Runs.foldl_invariant step
    (fun n => n.Below blocks ∧ n.base = base) (fun n e => e.InTurn blocks n)
    (fun n e hn he => ⟨hn.1.step (hgenesis n hn.2) he, (n.base_step e).trans hn.2⟩)
    ⟨fresh_below base blocks, rfl⟩ (fun p hp => hturns p (mem_append_left _ hp))
  exact hbelow.resumes (hgenesis _ hsame) (by rwa [hsame])

/-! ## Headers ahead of their data

Headers and data are submitted apart, so that the headers of several blocks may be on DA before
the data of the first of them.
-/

def postedHeader (height : ℕ) (lastHeaderHash : Hash) : DAHeaderEnvelopePb where
  header := some ⟨none, height, 5, lastHeaderHash, chainCodec.daCommitment [[9]], [0], [7], [],
    "chain", []⟩
  signature := [7, UInt8.ofNat height]
  signer := some ⟨[7], [7]⟩
  envelopeSignature := []

def firstHeader : SignedHeader := (chainBlock .sourceDA 1 [] [[9]]).header

def firstBlockData : Data := ⟨some ⟨"chain", 1, 5, []⟩, [[9]]⟩

def aheadConfig : StartConfig :=
  { chainConfig with
    wire := tableWire
      [([1], postedHeader 1 []), ([2], postedHeader 2 [1, 1])]
      [([3], ⟨some firstBlockData, 7 :: chainCodec.dataBytes firstBlockData, some ⟨[7], [7]⟩⟩)] }

def startAhead : Event :=
  .start false (.ok [0]) true (.ok 0) ⟨none, none, fun _ => .ok [], fun _ => true⟩

def aheadRun : List Event :=
  [startAhead, .read ⟨[[1], [2]], 5, 10⟩, .read ⟨[[3]], 6, 10⟩,
    .fromDA (chainEnv true) ⟨firstHeader, firstBlockData, 6⟩]

def aheadBlocks : Set BlockOnDa := {⟨1, 5, some 6⟩, ⟨2, 5, some 7⟩}

/-- After a crash, and after a graceful stop too, the node reads on from DA height 6, and the
header of the second block is at 5. -/
theorem header_left_behind :
    let run := fun events : List Event => events.foldl step (fresh aheadConfig)
    (∀ b ∈ aheadBlocks, ∀ daHeight, b.HeldAt daHeight →
        aheadConfig.genesis.daStartHeight ≤ daHeight) ∧
      (∀ ending ∈ [[Event.stop], [.saveHeaders, .saveData, .stop]],
        5 ∈ (run (aheadRun ++ ending)).needed aheadBlocks ∧
          (run (aheadRun ++ ending ++ [startAhead])).process.map
            (fun p => p.node.daRetrieverHeight) = some 6) ∧
      ¬ (run aheadRun).Resumes aheadBlocks := by
  intro run
  have hneeded : ∀ height ≤ 1, 5 ∈ neededDAHeights aheadBlocks height :=
    fun height hle => ⟨⟨2, 5, some 7⟩, .inr rfl, Nat.lt_succ_of_le hle, .inl rfl⟩
  refine ⟨?_, ?_, fun hresumes => ?_⟩
  · rintro b (rfl | rfl) daHeight (rfl | hdata)
    · decide
    · rw [← some.inj hdata]
      decide
    · decide
    · rw [← some.inj hdata]
      decide
  · intro ending hending
    rcases mem_cons.mp hending with rfl | hending
    · exact ⟨hneeded _ (by decide +kernel), by decide +kernel⟩
    · rw [mem_singleton.mp hending]
      exact ⟨hneeded _ (by decide +kernel), by decide +kernel⟩
  · have hresume : (run aheadRun).disk.resumeHeight aheadConfig.genesis (.ok 0) = 6 := by
      decide +kernel
    have hbase : (run aheadRun).base.genesis = aheadConfig.genesis := rfl
    have hbound := (hresumes false (.ok 0)).1 (hneeded _ (by decide +kernel))
    exact absurd (hresume.symm.le.trans hbound) (by decide)

/-- Header and data of the first block are on DA together, and it is applied before the header of
the second one is read. -/
def turnsRun : List Event :=
  [startAhead, .read ⟨[[1], [3]], 5, 10⟩, .fromDA (chainEnv true) ⟨firstHeader, firstBlockData, 5⟩,
    .read ⟨[[2]], 6, 10⟩, .saveHeaders, .saveData, .stop, startAhead]

def turnsBlocks : Set BlockOnDa := {⟨1, 5, some 5⟩, ⟨2, 6, some 7⟩}

theorem resume_point_safe_of_turns :
    (∀ before after, turnsRun = before ++ after →
        (before.foldl step (fresh aheadConfig)).Resumes turnsBlocks) ∧
      (turnsRun.foldl step (fresh aheadConfig)).process.map
        (fun p => p.node.daRetrieverHeight) = some 6 := by
  refine ⟨(resume_point_safe aheadConfig turnsBlocks (by decide) ?_ turnsRun ?_).1,
    by decide +kernel⟩
  · rintro b (rfl | rfl) daHeight (rfl | hdata)
    · decide
    · rw [← some.inj hdata]
      decide
    · decide
    · rw [← some.inj hdata]
      decide
  · unfold turnsRun
    simp only [Runs.steps_cons, forall_mem_cons]
    -- The two reads, with no block and with the first block applied.
    refine ⟨trivial, fun p hp _ => ?_, trivial, fun p hp _ => ?_, trivial, trivial, trivial,
      trivial, by simp⟩
    · rintro daHeight ⟨b, rfl | rfl, -, rfl | hdata⟩
      · decide
      · rw [← some.inj hdata]
      · decide
      · rw [← some.inj hdata]
        decide
    · have hheight : p.node.store.height = 1 := by
        have hrun : ((turnsRun.take 3).foldl step (fresh aheadConfig)).process.map
            (fun p => p.node.store.height) = some 1 := by decide +kernel
        have hmap := congrArg (Option.map fun p : SyncProcess => p.node.store.height) hp
        exact some.inj (hmap.symm.trans hrun)
      rintro daHeight ⟨b, rfl | rfl, habove, rfl | hdata⟩
      · exact absurd habove (by rw [hheight]; decide)
      · exact absurd habove (by rw [hheight]; decide)
      · exact le_rfl
      · rw [← some.inj hdata]
        decide

end ResumingNode

end ChainSdk

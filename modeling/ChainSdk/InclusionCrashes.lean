/-
DA inclusion across crashes: what `processDAInclusionLoop` leaves in the datastore, whenever the
process dies and however its writes and `SetFinal` turn out.

Four effects make a height DA-included: the DA height of its header, that of its data, the call of
`SetFinal`, and the DA-included height itself.
-/
import ChainSdk.InclusionSafety

namespace ChainSdk

open Function List

/-- A node and the snapshots of its caches in the datastore. -/
structure RestartingNode where
  node : InclusionNode
  headerSnapshot : List (ℕ × ℕ)
  dataSnapshot : List (ℕ × ℕ)

namespace RestartingNode

/-- A step of a goroutine, one of the two writes of `SaveToStore`, or the end of the process and a
new one on the same datastore. -/
inductive Event
  | step (s : InclusionNode.Step)
  | saveHeaders
  | saveData
  | restart (clearCache : Bool) (sequencer : Option ℕ)

/-- A new process: fresh caches, filled from the snapshots unless the configuration says to
clear them, and the DA-included height of the datastore. -/
def restart (n : RestartingNode) (clearCache : Bool) (sequencer : Option ℕ) : RestartingNode :=
  let headerSnapshot := if clearCache then [] else n.headerSnapshot
  let dataSnapshot := if clearCache then [] else n.dataSnapshot
  let metadata := n.node.metadata
  let fresh := InclusionNode.new (DaRetriever.new n.node.retriever.genesis n.node.codec
    n.node.retriever.wire) n.node.store metadata sequencer
  { node := { fresh with
      headerCache := (BlockCache.new.restoreFromStore headerSnapshot).seedDAHeight
        metadata.headerTip
      dataCache := (BlockCache.new.restoreFromStore dataSnapshot).seedDAHeight metadata.dataTip
      -- what the execution client was told, and what was seen on DA, is not of the process
      finalized := n.node.finalized
      seenBlobs := n.node.seenBlobs
      ackedHeaders := n.node.ackedHeaders
      ackedData := n.node.ackedData }
    headerSnapshot := headerSnapshot
    dataSnapshot := dataSnapshot }

def step (n : RestartingNode) : Event → RestartingNode
  | .step s => { n with node := n.node.step s }
  | .saveHeaders => { n with headerSnapshot := n.node.headerCache.snapshot }
  | .saveData => { n with dataSnapshot := n.node.dataCache.snapshot }
  | .restart clearCache sequencer => n.restart clearCache sequencer

/-- The first start on a datastore without metadata. -/
def fresh (retriever : DaRetriever) (store : Store) (sequencer : Option ℕ) : RestartingNode where
  node := InclusionNode.new retriever store ⟨fun _ => none, fun _ => none, none, none⟩ sequencer
  headerSnapshot := []
  dataSnapshot := []

end RestartingNode

variable {current top : ℕ} {heights : List ℕ} (retriever : DaRetriever) (store : Store)
  (sequencer : Option ℕ)

namespace InclusionNode

def persisted (n : InclusionNode) : ℕ := n.metadata.daIncludedHeight.getD 0

/-! ## What the records are compared with -/

def HeaderFound (visited : InclusionNode → Prop) (h d : ℕ) : Prop :=
  ∃ m, visited m ∧ m.headerCache.getDAIncludedByHeight h = some d

/-- The same for the data; or the data in one of the stores was empty, and goes by the DA height
of its header. -/
def DataFound (visited : InclusionNode → Prop) (h headerDAHeight d : ℕ) : Prop :=
  (∃ m, visited m ∧ m.dataCache.getDAIncludedByHeight h = some d) ∨
    d = headerDAHeight ∧ ∃ m block, visited m ∧ m.store.blocks h = some block ∧
      m.codec.daCommitment block.data.txs = dataHashForEmptyTxs

def DAHeightsRecorded (visited : InclusionNode → Prop) (n : InclusionNode) (h : ℕ) : Prop :=
  ∃ d d', n.metadata.headerDAHeight h = some d ∧ HeaderFound visited h d ∧
    n.metadata.dataDAHeight h = some d' ∧ DataFound visited h d d'

theorem DAHeightsRecorded.mono {visited visited' : InclusionNode → Prop} {n : InclusionNode}
    {h : ℕ} (hn : DAHeightsRecorded visited n h) (himp : ∀ m, visited m → visited' m) :
    DAHeightsRecorded visited' n h := by
  obtain ⟨d, d', hd, ⟨m, hm, hheader⟩, hd', hdata⟩ := hn
  refine ⟨d, d', hd, ⟨m, himp m hm, hheader⟩, hd', ?_⟩
  rcases hdata with ⟨m', hm', hfound⟩ | ⟨heq, m', block, hm', hempty⟩
  · exact .inl ⟨m', himp m' hm', hfound⟩
  · exact .inr ⟨heq, m', block, himp m' hm', hempty⟩

/-- The heights of the successful calls of `SetFinal`: every height from 1 to `top`, one after
the other, each as often as it was in progress. -/
inductive FinalizedUpTo : ℕ → List ℕ → Prop
  | none : FinalizedUpTo 0 []
  | next {top : ℕ} {heights : List ℕ} :
      FinalizedUpTo top heights → FinalizedUpTo (top + 1) (heights ++ [top + 1])
  | again {top : ℕ} {heights : List ℕ} :
      FinalizedUpTo (top + 1) heights → FinalizedUpTo (top + 1) (heights ++ [top + 1])

theorem FinalizedUpTo.mem (hfinal : FinalizedUpTo top heights) :
    ∀ h, 1 ≤ h → h ≤ top → h ∈ heights := by
  induction hfinal with
  | none => intro h hpos hle; omega
  | @next top heights _ ih =>
    intro h hpos hle
    rcases Nat.le_succ_iff.mp hle with hold | rfl
    · exact mem_append_left _ (ih h hpos hold)
    · simp
  | again _ ih => exact fun h hpos hle => mem_append_left _ (ih h hpos hle)

theorem FinalizedUpTo.setFinal
    (hfinal : FinalizedUpTo top heights ∨ FinalizedUpTo (top + 1) heights) :
    FinalizedUpTo (top + 1) (heights ++ [top + 1]) :=
  hfinal.elim .next .again

/-! ## The invariant -/

def DataRead (visited : InclusionNode → Prop) (h : ℕ) (data : Data) : Prop :=
  ∃ m block, visited m ∧ m.store.blocks h = some block ∧ block.data = data

/-- The loop is at the height above the DA-included one until it has written that, with the records
in the datastore by then. -/
def LoopConsistent (visited : InclusionNode → Prop) (n : InclusionNode) : Prop :=
  match n.loop with
  | .waiting | .stopped => n.daIncludedHeight = n.persisted
  | .reading current => n.daIncludedHeight = n.persisted ∧ current = n.persisted
  | .checking current data | .mappingHeader current data =>
    n.daIncludedHeight = n.persisted ∧ current = n.persisted ∧
      DataRead visited (current + 1) data
  | .mappingData current data d =>
    n.daIncludedHeight = n.persisted ∧ current = n.persisted ∧
      DataRead visited (current + 1) data ∧
      n.metadata.headerDAHeight (current + 1) = some d ∧ HeaderFound visited (current + 1) d
  | .mappingGenesis current _ | .finalizing current _ =>
    n.daIncludedHeight = n.persisted ∧ current = n.persisted ∧
      DAHeightsRecorded visited n (current + 1)
  | .persisting current =>
    n.daIncludedHeight = n.persisted ∧ current = n.persisted ∧
      DAHeightsRecorded visited n (current + 1) ∧ FinalizedUpTo (current + 1) n.finalized
  | .advancing current => n.persisted = current + 1
  | .deleting height => n.daIncludedHeight = n.persisted ∧ height = n.persisted

/-- What is in the datastore, and what the execution client has been told, at any moment. -/
structure Consistent (visited : InclusionNode → Prop) (c : Codec) (n : InclusionNode) : Prop where
  codec_eq : n.codec = c
  recorded : ∀ h, 1 ≤ h → h ≤ n.persisted → DAHeightsRecorded visited n h
  finalized : FinalizedUpTo n.persisted n.finalized ∨ FinalizedUpTo (n.persisted + 1) n.finalized
  loop : LoopConsistent visited n

/-! ## The other goroutines -/

/-- What the records are made of has stayed as it was. -/
structure SameRecords (n n' : InclusionNode) : Prop where
  metadata_eq : n'.metadata = n.metadata
  loop_eq : n'.loop = n.loop
  finalized_eq : n'.finalized = n.finalized
  daIncludedHeight_eq : n'.daIncludedHeight = n.daIncludedHeight
  codec_eq : n'.codec = n.codec

section

variable {n n' : InclusionNode} {visited : InclusionNode → Prop} {c : Codec}

theorem SameRecords.refl (n : InclusionNode) : SameRecords n n := ⟨rfl, rfl, rfl, rfl, rfl⟩

theorem Consistent.frame (hn : Consistent visited c n) (hsame : SameRecords n n') :
    Consistent visited c n' := by
  have hpersisted : n'.persisted = n.persisted := by
    unfold persisted
    rw [hsame.metadata_eq]
  refine ⟨hsame.codec_eq.trans hn.codec_eq, ?_, ?_, ?_⟩
  · unfold DAHeightsRecorded
    rw [hpersisted, hsame.metadata_eq]
    exact hn.recorded
  · rw [hpersisted, hsame.finalized_eq]
    exact hn.finalized
  · have hloop := hn.loop
    unfold LoopConsistent DAHeightsRecorded at hloop ⊢
    rw [hsame.loop_eq, hpersisted, hsame.metadata_eq, hsame.finalized_eq, hsame.daIncludedHeight_eq]
    exact hloop

theorem decodeBlob_sameRecords (n : InclusionNode) (now : Time) (bz : Blob) (daHeight : ℕ) :
    SameRecords n (n.decodeBlob now bz daHeight) := by
  unfold decodeBlob
  dsimp only
  rcases hdecode : DaRetriever.decodeBlob now daHeight ⟨n.retriever, [], []⟩ bz with
    panic | decoded
  · exact ⟨rfl, rfl, rfl, rfl, rfl⟩
  obtain ⟨⟨strict, headerMarks, dataMarks, hretriever⟩, -, -⟩ :=
    DaRetriever.decodeBlob_spec hdecode
  dsimp only
  rw [hretriever]
  have hmark : ∀ m (header : SignedHeader), SameRecords n m → True →
      SameRecords n (m.setHeaderDAIncluded daHeight header) :=
    fun m header hm _ => ⟨hm.1, hm.2, hm.3, hm.4, hm.5⟩
  have hmark' : ∀ m (data : Data), SameRecords n m → True →
      SameRecords n (m.setDataDAIncluded daHeight data) :=
    fun m data hm _ => ⟨hm.1, hm.2, hm.3, hm.4, hm.5⟩
  refine Runs.foldl_invariant (setDataDAIncluded · daHeight ·) (SameRecords n)
    (fun _ _ => True) hmark' ?_ (fun _ _ => trivial)
  refine Runs.foldl_invariant (setHeaderDAIncluded · daHeight ·) (SameRecords n)
    (fun _ _ => True) hmark ?_ (fun _ _ => trivial)
  exact ⟨rfl, rfl, rfl, rfl, rfl⟩

theorem step_sameRecords (n : InclusionNode) {s : Step} (hs : ∀ inp, s ≠ .loop inp) :
    SameRecords n (n.step s) := by
  unfold step
  by_cases hpanicked : n.panicked.isSome = true
  · rw [if_pos hpanicked]
    exact .refl n
  rw [if_neg hpanicked]
  cases s with
  | blob now bz daHeight => exact n.decodeBlob_sameRecords now bz daHeight
  | ackHeader height daHeight =>
    dsimp only
    unfold ackHeader
    split <;> exact ⟨rfl, rfl, rfl, rfl, rfl⟩
  | ackData height daHeight =>
    dsimp only
    unfold ackData
    split
    · exact .refl n
    · split_ifs <;> exact ⟨rfl, rfl, rfl, rfl, rfl⟩
  | apply header data =>
    dsimp only
    unfold applyBlock
    split_ifs <;> exact ⟨rfl, rfl, rfl, rfl, rfl⟩
  | seen =>
    dsimp only
    unfold markSeen
    split <;> exact ⟨rfl, rfl, rfl, rfl, rfl⟩
  | refuseHeader header | refuseData data => exact ⟨rfl, rfl, rfl, rfl, rfl⟩
  | produce header data =>
    dsimp only
    unfold produceBlock
    split_ifs <;> exact ⟨rfl, rfl, rfl, rfl, rfl⟩
  | loop inp => exact absurd rfl (hs inp)

/-! ## The loop -/

section

variable {pc : LoopPc} (hn : Consistent visited c n)
include hn

theorem Consistent.loopTo {metadata : InclusionMetadata} {sequencer : Option ℕ}
    (hheight : metadata.daIncludedHeight = n.metadata.daIncludedHeight)
    (hkept : ∀ h ≤ n.persisted, metadata.headerDAHeight h = n.metadata.headerDAHeight h ∧
      metadata.dataDAHeight h = n.metadata.dataDAHeight h) (hpc : LoopConsistent visited { n with
      metadata := metadata
      sequencer := sequencer
      loop := pc }) :
    Consistent visited c { n with
      metadata := metadata
      sequencer := sequencer
      loop := pc } := by
  have hpersisted : persisted { n with
      metadata := metadata
      sequencer := sequencer
      loop := pc } = n.persisted := by
    unfold persisted
    rw [hheight]
  refine ⟨hn.codec_eq, fun h hpos hle => ?_, ?_, hpc⟩
  · rw [hpersisted] at hle
    obtain ⟨d, d', hd, hheader, hd', hdata⟩ := hn.recorded h hpos hle
    exact ⟨d, d', (hkept h hle).1.trans hd, hheader, (hkept h hle).2.trans hd', hdata⟩
  · rw [hpersisted]
    exact hn.finalized

theorem Consistent.goto (hpc : LoopConsistent visited { n with loop := pc }) :
    Consistent visited c { n with loop := pc } :=
  hn.loopTo rfl (fun _ _ => ⟨rfl, rfl⟩) hpc

theorem Consistent.mapData {d d' : ℕ}
    (hheight : n.daIncludedHeight = n.persisted) (hcurrent : current = n.persisted)
    (hd : n.metadata.headerDAHeight (current + 1) = some d)
    (hheader : HeaderFound visited (current + 1) d) (hdata : DataFound visited (current + 1) d d')
    (hpc : pc = .mappingGenesis current (min d' d) ∨ pc = .finalizing current 1) :
    Consistent visited c { n with
      metadata := { n.metadata with
        dataDAHeight := update n.metadata.dataDAHeight (current + 1) (some d') }
      loop := pc } := by
  refine hn.loopTo rfl (fun h hle => ⟨rfl, update_of_ne (by omega) _ _⟩) ?_
  have hrecorded : DAHeightsRecorded visited { n with
      metadata := { n.metadata with
        dataDAHeight := update n.metadata.dataDAHeight (current + 1) (some d') } }
      (current + 1) :=
    ⟨d, d', hd, hheader, update_self _ _ _, hdata⟩
  rcases hpc with rfl | rfl
  · exact ⟨hheight, hcurrent, hrecorded⟩
  · exact ⟨hheight, hcurrent, hrecorded⟩

end

theorem LoopConsistent.daIncludedHeight_eq (hloop : LoopConsistent visited n)
    (hcurrent : n.loop.current = some current) : n.daIncludedHeight = n.persisted := by
  unfold LoopConsistent at hloop
  cases hpc : n.loop with
  | waiting | advancing _ | deleting _ | stopped =>
    rw [hpc] at hcurrent
    exact absurd hcurrent (by simp [LoopPc.current])
  | _ =>
    rw [hpc] at hloop
    exact hloop.1

section

variable (hn : Consistent visited c n)
include hn

theorem Consistent.loopEffect (hvisited : visited n)
    (hcodec : ∀ m, visited m → m.codec = c) (heffect : LoopEffect n n') :
    Consistent visited c n' := by
  have hloop := hn.loop
  unfold LoopConsistent at hloop
  cases heffect with
  | tick hpc =>
    rw [hpc] at hloop
    exact hn.goto ⟨hloop, hloop⟩
  | breakOff current hcurrent => exact hn.goto (hn.loop.daIncludedHeight_eq hcurrent)
  | halt hpc =>
    rcases hpc with hpc | ⟨current, hcurrent⟩
    · rw [hpc] at hloop
      exact hn.goto hloop
    · exact hn.goto (hn.loop.daIncludedHeight_eq hcurrent)
  | readBlock current block hpc hblock =>
    rw [hpc] at hloop
    exact hn.goto ⟨hloop.1, hloop.2, n, block, hvisited, hblock, rfl⟩
  | check current data heightRead hpc _ =>
    rw [hpc] at hloop
    exact hn.goto hloop
  | mapHeader current data d hpc hd =>
    rw [hpc] at hloop
    obtain ⟨hheight, hcurrent, hread⟩ := hloop
    refine hn.loopTo rfl (fun h hle => ⟨update_of_ne (by omega) _ _, rfl⟩) ?_
    exact ⟨hheight, hcurrent, hread, update_self _ _ _, n, hvisited, hd⟩
  | mapData current data d d' pc hpc hd hnext =>
    rw [hpc] at hloop
    obtain ⟨hheight, hcurrent, ⟨m, block, hm, hblock, rfl⟩, hwritten, hheader⟩ := hloop
    refine hn.mapData hheight hcurrent hwritten hheader ?_ hnext
    rcases hd with ⟨hconst, rfl⟩ | ⟨-, hd⟩
    · rw [hn.codec_eq, ← hcodec m hm] at hconst
      exact .inr ⟨rfl, m, block, hm, hblock, hconst⟩
    · exact .inl ⟨n, hvisited, hd⟩
  | mapGenesis current d hpc =>
    rw [hpc] at hloop
    exact hn.loopTo rfl (fun _ _ => ⟨rfl, rfl⟩) hloop
  | setFinal current attempt hpc =>
    rw [hpc] at hloop
    obtain ⟨hheight, rfl, hrecorded⟩ := hloop
    have hfinal := FinalizedUpTo.setFinal hn.finalized
    exact ⟨hn.codec_eq, hn.recorded, .inr hfinal, hheight, rfl, hrecorded, hfinal⟩
  | retry current attempt hpc =>
    rw [hpc] at hloop
    exact hn.goto hloop
  | persist current hpc =>
    -- the height in progress joins those that are recorded
    rw [hpc] at hloop
    obtain ⟨hheight, rfl, hrecorded, hfinal⟩ := hloop
    refine ⟨hn.codec_eq, fun h hpos hle => ?_, .inl hfinal, rfl⟩
    rcases Nat.le_succ_iff.mp hle with hold | rfl
    · exact hn.recorded h hpos hold
    · exact hrecorded
  | advance current hpc =>
    rw [hpc] at hloop
    exact ⟨hn.codec_eq, hn.recorded, hn.finalized, hloop.symm, hloop.symm⟩
  | delete height hpc =>
    rw [hpc] at hloop
    exact ⟨hn.codec_eq, hn.recorded, hn.finalized, hloop⟩
  | stay _ => exact hn

theorem Consistent.step (hvisited : visited n)
    (hcodec : ∀ m, visited m → m.codec = c) (s : Step) : Consistent visited c (n.step s) := by
  by_cases hs : ∃ inp, s = .loop inp
  · obtain ⟨inp, rfl⟩ := hs
    unfold InclusionNode.step
    split_ifs
    · exact hn
    · exact hn.loopEffect hvisited hcodec (n.loopEffect inp)
  · exact hn.frame (n.step_sameRecords (fun inp hloop => hs ⟨inp, hloop⟩))

theorem Consistent.persisted_le_loopEffect
    (heffect : LoopEffect n n') : n.persisted ≤ n'.persisted := by
  cases heffect with
  | persist current hpc =>
    have hloop := hn.loop
    unfold LoopConsistent at hloop
    rw [hpc] at hloop
    show n.persisted ≤ current + 1
    rw [← hloop.2.1]
    exact Nat.le_succ current
  | _ => exact le_rfl

theorem Consistent.persisted_le_step (s : Step) :
    n.persisted ≤ (n.step s).persisted := by
  by_cases hs : ∃ inp, s = .loop inp
  · obtain ⟨inp, rfl⟩ := hs
    unfold InclusionNode.step
    split_ifs
    · exact le_rfl
    · exact hn.persisted_le_loopEffect (n.loopEffect inp)
  · have hsame := n.step_sameRecords (fun inp hloop => hs ⟨inp, hloop⟩)
    unfold persisted
    rw [hsame.metadata_eq]

end

end

end InclusionNode

/-! ## Whole runs -/

namespace RestartingNode

open InclusionNode

variable {visited : InclusionNode → Prop} {c : Codec} {n : RestartingNode}

theorem consistent_restart (hn : Consistent visited c n.node) (clearCache : Bool)
    (sequencer : Option ℕ) : Consistent visited c (n.restart clearCache sequencer).node :=
  ⟨hn.codec_eq, hn.recorded, hn.finalized, rfl⟩

theorem consistent_step (hn : Consistent visited c n.node) (hvisited : visited n.node)
    (hcodec : ∀ m, visited m → m.codec = c) (e : Event) :
    Consistent visited c (n.step e).node := by
  cases e with
  | step s => exact hn.step hvisited hcodec s
  | saveHeaders | saveData => exact hn
  | restart clearCache sequencer => exact consistent_restart hn clearCache sequencer

theorem persisted_le_step (hn : Consistent visited c n.node) (e : Event) :
    n.node.persisted ≤ (n.step e).node.persisted := by
  cases e with
  | step s => exact hn.persisted_le_step s
  | saveHeaders | saveData | restart clearCache sequencer => exact le_rfl

/-- The nodes a run goes through, the last one included. -/
def Visited (start : RestartingNode) (events : List Event) (m : InclusionNode) : Prop :=
  ∃ before after, events = before ++ after ∧ m = (before.foldl step start).node

theorem fresh_consistent :
    Consistent visited retriever.codec (fresh retriever store sequencer).node := by
  refine ⟨rfl, fun h hpos hle => ?_, .inl .none, rfl⟩
  have hzero : (fresh retriever store sequencer).node.persisted = 0 := rfl
  omega

theorem run_consistent (events : List Event) :
    Consistent (fun m => Visited (fresh retriever store sequencer) events m ∧
        m.codec = retriever.codec) retriever.codec
      (events.foldl step (fresh retriever store sequencer)).node := by
  let start := fresh retriever store sequencer
  let visited : InclusionNode → Prop := fun m => Visited start events m ∧
    m.codec = retriever.codec
  refine Runs.foldl_invariant step (fun n => Consistent visited retriever.codec n.node)
    (fun n _ => Visited start events n.node) ?_ (fresh_consistent retriever store sequencer) ?_
  · exact fun n e hn hvisited =>
      consistent_step hn ⟨hvisited, hn.codec_eq⟩ (fun m hm => hm.2) e
  · rintro ⟨m, e⟩ hstep
    obtain ⟨before, after, hevents, rfl⟩ := (Runs.mem_steps_iff step start m e events).mp hstep
    exact ⟨before, e :: after, hevents, rfl⟩

/-- What holds of the records of a run, at its end. -/
structure RecordsKept (start : RestartingNode) (events : List Event) (n : InclusionNode) :
    Prop where
  /-- Both DA heights of every height are in the datastore, as some node of the run had found
  them. -/
  recorded : ∀ h, 1 ≤ h → h ≤ n.persisted → DAHeightsRecorded (Visited start events) n h
  /-- `SetFinal` has succeeded for every height. -/
  final : ∀ h, 1 ≤ h → h ≤ n.persisted → h ∈ n.finalized
  /-- The calls that have succeeded were in order, at most one height ahead. -/
  order : FinalizedUpTo n.persisted n.finalized ∨ FinalizedUpTo (n.persisted + 1) n.finalized

/-- In every run from an empty datastore, through any number of crashes at any point and any
failures of the writes and of `SetFinal`: the records of all heights up to the DA-included height
in the datastore are complete, and that height never decreases, whatever comes next. -/
theorem inclusion_records_crash_consistent (retriever : DaRetriever) (store : Store)
    (sequencer : Option ℕ) (events more : List Event) :
    let start := fresh retriever store sequencer
    let n := events.foldl step start
    RecordsKept start events n.node ∧
      n.node.persisted ≤ (more.foldl step n).node.persisted := by
  intro start n
  have hn := run_consistent retriever store sequencer events
  have hfinal : ∀ h, 1 ≤ h → h ≤ n.node.persisted → h ∈ n.node.finalized := by
    intro h hpos hle
    rcases hn.finalized with hfinal | hfinal
    · exact hfinal.mem h hpos hle
    · exact hfinal.mem h hpos (Nat.le_succ_of_le hle)
  refine ⟨⟨fun h hpos hle => (hn.recorded h hpos hle).mono (fun m hm => hm.1), hfinal,
    hn.finalized⟩, ?_⟩
  -- every node from here on is the end of a run of its own
  induction more using List.reverseRecOn with
  | nil => exact le_rfl
  | append_singleton more e ih =>
    rw [foldl_append]
    refine ih.trans ?_
    have hnext := run_consistent retriever store sequencer (events ++ more)
    rw [foldl_append] at hnext
    exact persisted_le_step hnext e

end RestartingNode

end ChainSdk

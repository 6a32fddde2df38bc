/-
Submission and DA inclusion of a chain that does not start at height 1.

The pending lists and the DA-inclusion loop all start from a height of zero that nobody has set, and
go on with the next height.
-/
import ChainSdk.InclusionSafety
import ChainSdk.LedgerOrder

namespace ChainSdk

open InclusionNode PendingBase

open Watermark

/-! ## Genesis -/

inductive GenesisError
  | chainID
  | initialHeight (got : ℕ)
  | startTime
  | proposerAddress
  | daEpochForcedInclusion (got : ℕ)
  deriving DecidableEq

def Genesis.validate (g : Genesis) (nilProposer : Bool) : Except GenesisError Unit :=
  if g.chainID = "" then .error .chainID
  else if g.initialHeight < 1 then .error (.initialHeight g.initialHeight)
  else if g.startTime = zeroTime then .error .startTime
  else if nilProposer then .error .proposerAddress
  else if g.daEpochForcedInclusion < 1 then
    .error (.daEpochForcedInclusion g.daEpochForcedInclusion)
  else .ok ()

theorem Genesis.validate_initialHeight {g : Genesis} {nilProposer : Bool}
    (hvalid : g.validate nilProposer = .ok ()) : 1 ≤ g.initialHeight := by
  unfold Genesis.validate at hvalid
  split_ifs at hvalid
  omega

/-! ## Deleting heights from a cache -/

namespace BlockCache

variable {c : BlockCache} {h h' k d : ℕ}

def deletedUpTo (c : BlockCache) : ℕ → BlockCache
  | 0 => c
  | k + 1 => (c.deletedUpTo k).deleteAllForHeight (k + 1)

theorem lookup_deleteAllForHeight_of_ne (hne : h' ≠ h) :
    (c.deleteAllForHeight h).hashByHeight.lookup h' = c.hashByHeight.lookup h' := by
  unfold deleteAllForHeight
  split
  · rfl
  · exact AList.lookup_erase_ne hne

theorem getDAIncludedByHeight_deleteAllForHeight (hne : h' ≠ h) :
    (c.deleteAllForHeight h).getDAIncludedByHeight h' =
      if c.hashByHeight.lookup h' = c.hashByHeight.lookup h then none
      else c.getDAIncludedByHeight h' := by
  unfold getDAIncludedByHeight
  rw [lookup_deleteAllForHeight_of_ne hne]
  rcases hkey' : c.hashByHeight.lookup h' with _ | key'
  · simp
  unfold deleteAllForHeight
  rcases hkey : c.hashByHeight.lookup h with _ | key
  · simp
  by_cases heq : key' = key
  · simp [getDAIncluded, heq]
  · simp [getDAIncluded, heq]

theorem lookup_deletedUpTo (hlt : k < h) :
    (c.deletedUpTo k).hashByHeight.lookup h = c.hashByHeight.lookup h := by
  induction k with
  | zero => rfl
  | succ k ih =>
    rw [deletedUpTo, lookup_deleteAllForHeight_of_ne (by omega), ih (by omega)]

theorem getDAIncludedByHeight_deletedUpTo (hlt : k < h)
    (hapart : ∀ h₀, 1 ≤ h₀ → h₀ ≤ k → c.hashByHeight.lookup h₀ ≠ c.hashByHeight.lookup h) :
    (c.deletedUpTo k).getDAIncludedByHeight h = c.getDAIncludedByHeight h := by
  induction k with
  | zero => rfl
  | succ k ih =>
    have hne : c.hashByHeight.lookup h ≠ c.hashByHeight.lookup (k + 1) :=
      (hapart (k + 1) (by omega) le_rfl).symm
    rw [deletedUpTo, getDAIncludedByHeight_deleteAllForHeight (by omega),
      lookup_deletedUpTo (by omega), lookup_deletedUpTo (by omega), if_neg hne]
    exact ih (by omega) (fun h₀ hpos hle => hapart h₀ hpos (by omega))

theorem getDAIncludedByHeight_deletedUpTo_shared (hlt : k < h) {h₀ : ℕ} (hpos : 1 ≤ h₀)
    (hle : h₀ ≤ k) (hshared : c.hashByHeight.lookup h₀ = c.hashByHeight.lookup h) :
    (c.deletedUpTo k).getDAIncludedByHeight h = none := by
  induction k with
  | zero => omega
  | succ k ih =>
    rw [deletedUpTo, getDAIncludedByHeight_deleteAllForHeight (by omega),
      lookup_deletedUpTo (by omega), lookup_deletedUpTo (by omega)]
    rcases Nat.le_succ_iff.mp hle with hold | rfl
    · rw [ih (by omega) hold]
      exact ite_self _
    · rw [if_pos hshared.symm]

end BlockCache

/-! ## The loop -/

namespace InclusionNode

def Marked (codec : Codec) (headerCache dataCache : BlockCache) (h : ℕ) (data : Data) : Prop :=
  (headerCache.getDAIncludedByHeight h).isSome = true ∧
    (codec.daCommitment data.txs = dataHashForEmptyTxs ∨
      (dataCache.getDAIncludedByHeight h).isSome = true)

/-- A submitter that starts on a store for the first time, with what its caches hold. -/
def startOn (retriever : DaRetriever) (store : Store) (sequencer : Option ℕ)
    (headerCache dataCache : BlockCache) : InclusionNode :=
  { new retriever store ⟨fun _ => none, fun _ => none, none, none⟩ sequencer with
    headerCache := headerCache
    dataCache := dataCache }

def allWell : LoopInput := ⟨true, true, true, true, false⟩

def runLoop (n : InclusionNode) (j : ℕ) : InclusionNode :=
  (List.replicate j allWell).foldl loopStep n

/-- The caches are those of the start, without the heights the loop has gone through. -/
def DeletedUpTo (start : InclusionNode) (k : ℕ) (n : InclusionNode) : Prop :=
  n.store = start.store ∧ n.codec = start.codec ∧
    n.headerCache = start.headerCache.deletedUpTo k ∧
    n.dataCache = start.dataCache.deletedUpTo k

/-- The loop does not get past the height `b`: it is not there, or not marked by the time the
loop comes to it. -/
def Barrier (start : InclusionNode) (b : ℕ) : Prop :=
  ∀ block, start.store.blocks b = some block → ¬ Marked start.codec
    (start.headerCache.deletedUpTo (b - 1)) (start.dataCache.deletedUpTo (b - 1)) b block.data

def Below (start : InclusionNode) (b : ℕ) (n : InclusionNode) : Prop :=
  match n.loop with
  | .waiting => n.daIncludedHeight < b ∧ start.DeletedUpTo n.daIncludedHeight n
  | .reading current => n.daIncludedHeight = current ∧ current < b ∧ start.DeletedUpTo current n
  | .checking current data => n.daIncludedHeight = current ∧ current < b ∧
      start.DeletedUpTo current n ∧
      ∃ block, start.store.blocks (current + 1) = some block ∧ block.data = data
  | .mappingHeader current _ | .mappingData current _ _ | .mappingGenesis current _
  | .finalizing current _ | .persisting current | .advancing current =>
    n.daIncludedHeight = current ∧ current + 1 < b ∧ start.DeletedUpTo current n
  | .deleting height => n.daIncludedHeight = height ∧ height < b ∧
      ∃ k, height = k + 1 ∧ start.DeletedUpTo k n
  | .stopped => n.daIncludedHeight < b

variable {start n : InclusionNode} {b : ℕ}

theorem DeletedUpTo.deleteAllForHeight {k : ℕ} (hn : start.DeletedUpTo k n) :
    start.DeletedUpTo (k + 1) { n with
      headerCache := n.headerCache.deleteAllForHeight (k + 1)
      dataCache := n.dataCache.deleteAllForHeight (k + 1) } := by
  obtain ⟨hstore, hcodec, hheaderCache, hdataCache⟩ := hn
  exact ⟨hstore, hcodec, by rw [hheaderCache]; rfl, by rw [hdataCache]; rfl⟩

theorem Below.daIncludedHeight_lt (hn : start.Below b n) : n.daIncludedHeight < b := by
  unfold Below at hn
  rcases hpc : n.loop with _ | current | ⟨current, data⟩ | ⟨current, data⟩ |
    ⟨current, data, d⟩ | ⟨current, g⟩ | ⟨current, attempt⟩ | current | current | height | _ <;>
    rw [hpc] at hn <;> dsimp only at hn <;> omega

theorem Below.deletedUpTo (hn : start.Below b n) {current : ℕ}
    (hcurrent : n.loop.current = some current) : start.DeletedUpTo n.daIncludedHeight n := by
  unfold Below at hn
  cases hpc : n.loop with
  | waiting | advancing _ | deleting _ | stopped =>
    rw [hpc] at hcurrent
    exact absurd hcurrent (by simp [LoopPc.current])
  | checking _ _ =>
    rw [hpc] at hn
    exact hn.1 ▸ hn.2.2.1
  | _ =>
    rw [hpc] at hn
    exact hn.1 ▸ hn.2.2

theorem Below.loopEffect (hn : start.Below b n) (hbarrier : start.Barrier b) {n' : InclusionNode}
    (heffect : LoopEffect n n') : start.Below b n' := by
  have hlt := hn.daIncludedHeight_lt
  have hloop := hn
  unfold Below at hloop
  cases heffect with
  | tick hpc =>
    rw [hpc] at hloop
    exact ⟨rfl, hlt, hloop.2⟩
  | breakOff current hcurrent => exact ⟨hlt, hn.deletedUpTo hcurrent⟩
  | halt _ => exact hlt
  | readBlock current block hpc hblock =>
    rw [hpc] at hloop
    obtain ⟨hcurrent, hbelow, hdeleted⟩ := hloop
    exact ⟨hcurrent, hbelow, hdeleted, block, hdeleted.1 ▸ hblock, rfl⟩
  | check current data heightRead hpc hincluded =>
    rw [hpc] at hloop
    obtain ⟨rfl, -, hdeleted, block, hblock, rfl⟩ := hloop
    refine ⟨rfl, ?_, hdeleted⟩
    -- the check would have failed at the height itself
    refine lt_of_le_of_ne hlt (fun hb => ?_)
    have hprev : b - 1 = n.daIncludedHeight := by omega
    refine hbarrier block (hb ▸ hblock) ?_
    obtain ⟨-, hcodec, hheaderCache, hdataCache⟩ := hdeleted
    rw [hprev, ← hb, ← hheaderCache, ← hdataCache, ← hcodec]
    unfold isHeightDAIncluded at hincluded
    rw [if_neg (by omega)] at hincluded
    split_ifs at hincluded
    · simp at hincluded
    · simpa [Marked] using hincluded
  | mapData current data d d' pc hpc _ hnext =>
    rw [hpc] at hloop
    rcases hnext with rfl | rfl
    · exact hloop
    · exact hloop
  | mapHeader _ _ _ hpc | mapGenesis _ _ hpc | setFinal _ _ hpc | retry _ _ hpc
  | persist _ hpc =>
    rw [hpc] at hloop
    exact hloop
  | advance current hpc =>
    rw [hpc] at hloop
    exact ⟨rfl, hloop.2.1, current, rfl, hloop.2.2⟩
  | delete height hpc =>
    rw [hpc] at hloop
    obtain ⟨hheight, hbelow, k, rfl, hdeleted⟩ := hloop
    exact ⟨hheight, hbelow, hdeleted.deleteAllForHeight⟩
  | stay _ => exact hn

theorem Barrier.daIncludedHeight_lt {retriever : DaRetriever} {store : Store}
    {sequencer : Option ℕ} {headerCache dataCache : BlockCache} (hb : 1 ≤ b)
    (hbarrier : (startOn retriever store sequencer headerCache dataCache).Barrier b)
    (inputs : List LoopInput) :
    (inputs.foldl loopStep
      (startOn retriever store sequencer headerCache dataCache)).daIncludedHeight < b := by
  refine Below.daIncludedHeight_lt (Runs.foldl_invariant loopStep
    (Below (startOn retriever store sequencer headerCache dataCache) b) (fun _ _ => True)
    (fun m inp hm _ => hm.loopEffect hbarrier (m.loopEffect inp)) ?_ (fun _ _ => trivial))
  exact ⟨hb, rfl, rfl, rfl, rfl⟩

/-! ## That it advances -/

/-- The loop is about to read the next height. -/
structure ReadingAt (start : InclusionNode) (k : ℕ) (n : InclusionNode) : Prop where
  loop_eq : n.loop = .reading k
  daIncludedHeight_eq : n.daIncludedHeight = k
  deleted : start.DeletedUpTo k n

theorem later {P : InclusionNode → Prop}
    (h : ∃ j, P ((n.loopStep allWell).runLoop j)) : ∃ j, P (n.runLoop j) := by
  obtain ⟨j, hj⟩ := h
  exact ⟨j + 1, hj⟩

theorem ReadingAt.of_finalizing {k : ℕ} (hloop : n.loop = .finalizing k 1)
    (hdeleted : start.DeletedUpTo k n) :
    ∃ j, start.ReadingAt (k + 1) (n.runLoop j) := by
  refine ⟨4, ?_⟩
  have hsteps : n.runLoop 4 = { n with
      metadata := { n.metadata with daIncludedHeight := some (k + 1) }
      finalized := n.finalized ++ [k + 1]
      daIncludedHeight := k + 1
      headerCache := n.headerCache.deleteAllForHeight (k + 1)
      dataCache := n.dataCache.deleteAllForHeight (k + 1)
      loop := .reading (k + 1) } := by
    simp [runLoop, loopStep, hloop, allWell]
  rw [hsteps]
  exact ⟨rfl, rfl, hdeleted.deleteAllForHeight⟩

theorem ReadingAt.of_writeDataDAHeight {k : ℕ} (hdeleted : start.DeletedUpTo k n) (d g : ℕ) :
    ∃ j, start.ReadingAt (k + 1) ((n.writeDataDAHeight allWell k d g).runLoop j) := by
  unfold writeDataDAHeight
  by_cases hfirst : k = 0
  · rw [if_pos hfirst]
    refine later (ReadingAt.of_finalizing ?_ ?_)
    · simp [loopStep, allWell]
    · exact hdeleted
  · rw [if_neg hfirst]
    exact ReadingAt.of_finalizing rfl hdeleted

theorem ReadingAt.advance {k : ℕ} (hn : start.ReadingAt k n) {block : StoredBlock}
    (hblock : start.store.blocks (k + 1) = some block) (hheight : k + 1 ≤ start.store.height)
    (hmarked : Marked start.codec (start.headerCache.deletedUpTo k)
      (start.dataCache.deletedUpTo k) (k + 1) block.data) :
    ∃ j, start.ReadingAt (k + 1) (n.runLoop j) := by
  obtain ⟨hloop, hincluded, hdeleted⟩ := hn
  obtain ⟨hstore, hcodec, hheaderCache, hdataCache⟩ := hdeleted
  rw [← hstore] at hblock hheight
  rw [← hcodec, ← hheaderCache, ← hdataCache] at hmarked
  obtain ⟨hheader, hdata⟩ := hmarked
  obtain ⟨d, hd⟩ := Option.isSome_iff_exists.mp hheader
  -- read
  apply later
  rw [show n.loopStep allWell = { n with loop := .checking k block.data } by
    simp [loopStep, hloop, hblock, allWell]]
  -- checked
  apply later
  have hcheck : n.isHeightDAIncluded allWell.heightRead (k + 1) block.data = some true := by
    unfold isHeightDAIncluded
    rw [if_neg (show ¬ k + 1 ≤ n.daIncludedHeight by omega), if_neg (by simp [allWell]),
      if_neg (by omega)]
    simpa [hheader] using hdata
  rw [show loopStep { n with loop := .checking k block.data } allWell =
    { n with loop := .mappingHeader k block.data } from if_pos hcheck]
  -- the DA height of the header
  apply later
  let mapped : InclusionNode := { n with
    metadata := { n.metadata with
      headerDAHeight := Function.update n.metadata.headerDAHeight (k + 1) (some d) }
    loop := .mappingData k block.data d }
  rw [show loopStep { n with loop := .mappingHeader k block.data } allWell = mapped by
    simp [mapped, loopStep, hd, allWell]]
  have hmapped : start.DeletedUpTo k mapped := ⟨hstore, hcodec, hheaderCache, hdataCache⟩
  -- that of the data, which is the same for empty data
  apply later
  by_cases hempty : n.codec.daCommitment block.data.txs = dataHashForEmptyTxs
  · rw [show mapped.loopStep allWell = mapped.writeDataDAHeight allWell k d d from
      if_pos hempty]
    exact ReadingAt.of_writeDataDAHeight hmapped _ _
  · obtain ⟨d', hd'⟩ := Option.isSome_iff_exists.mp (hdata.resolve_left hempty)
    rw [show mapped.loopStep allWell = mapped.writeDataDAHeight allWell k d' (min d' d) from
      (if_neg hempty).trans (by dsimp only [mapped]; rw [hd'])]
    exact ReadingAt.of_writeDataDAHeight hmapped _ _

/-- No two of the heights are marked under one key, neither their headers nor the data that is
not empty. -/
def KeysApart (codec : Codec) (store : Store) (headerCache dataCache : BlockCache)
    (first last : ℕ) : Prop :=
  ∀ h h', first ≤ h → h < h' → h' ≤ last →
    headerCache.hashByHeight.lookup h ≠ headerCache.hashByHeight.lookup h' ∧
      ∀ block, store.blocks h' = some block →
        codec.daCommitment block.data.txs ≠ dataHashForEmptyTxs →
          dataCache.hashByHeight.lookup h ≠ dataCache.hashByHeight.lookup h'

theorem KeysApart.marked_deletedUpTo {codec : Codec} {store : Store}
    {headerCache dataCache : BlockCache} {k last : ℕ} {block : StoredBlock}
    (hapart : KeysApart codec store headerCache dataCache 1 last) (hle : k + 1 ≤ last)
    (hblock : store.blocks (k + 1) = some block)
    (hmarked : Marked codec headerCache dataCache (k + 1) block.data) :
    Marked codec (headerCache.deletedUpTo k) (dataCache.deletedUpTo k) (k + 1) block.data := by
  obtain ⟨hheader, hdata⟩ := hmarked
  constructor
  · rw [BlockCache.getDAIncludedByHeight_deletedUpTo (by omega)
      (fun h₀ hpos hle₀ => (hapart h₀ (k + 1) hpos (by omega) hle).1)]
    exact hheader
  · by_cases hempty : codec.daCommitment block.data.txs = dataHashForEmptyTxs
    · exact .inl hempty
    · rw [BlockCache.getDAIncludedByHeight_deletedUpTo (by omega)
        (fun h₀ hpos hle₀ => (hapart h₀ (k + 1) hpos (by omega) hle).2 block hblock hempty)]
      exact hdata

theorem keysApart_of_no_barrier {first last : ℕ} (hfirst : 1 ≤ first)
    (hnone : ∀ b, 1 ≤ b → b ≤ last → ¬ start.Barrier b) :
    KeysApart start.codec start.store start.headerCache start.dataCache first last := by
  intro h h' hpos hlt hle
  refine ⟨fun hshared => hnone h' (by omega) hle ?_, fun block hblock hne hshared =>
    hnone h' (by omega) hle ?_⟩
  all_goals
    intro block' hblock' hmarked
    have hlost := BlockCache.getDAIncludedByHeight_deletedUpTo_shared
      (show h' - 1 < h' by omega) (hfirst.trans hpos) (by omega) hshared
    rw [Marked, hlost] at hmarked
  · exact absurd hmarked.1 (by simp)
  · obtain rfl : block = block' := Option.some.inj (hblock.symm.trans hblock')
    exact absurd hmarked.2 (by simpa using hne)

/-- From height 1, the loop goes through all heights that are stored and marked exactly when
their keys are apart. -/
theorem reaches_iff_keysApart (retriever : DaRetriever) {store : Store} (sequencer : Option ℕ)
    {headerCache dataCache : BlockCache} {last : ℕ} (hheight : last ≤ store.height)
    (hstored : ∀ h, 1 ≤ h → h ≤ last → ∃ block, store.blocks h = some block ∧
      Marked retriever.codec headerCache dataCache h block.data) :
    (∃ j, last ≤
        ((startOn retriever store sequencer headerCache dataCache).runLoop j).daIncludedHeight) ↔
      KeysApart retriever.codec store headerCache dataCache 1 last := by
  let start := startOn retriever store sequencer headerCache dataCache
  constructor
  · rintro ⟨j, hreached⟩
    refine @keysApart_of_no_barrier start 1 last le_rfl (fun b hb hle hbarrier => ?_)
    have hbelow : last < b := lt_of_le_of_lt hreached
      (hbarrier.daIncludedHeight_lt hb (List.replicate j allWell))
    omega
  · intro hapart
    -- one height after the other
    have hreading : ∀ k ≤ last, ∃ j, start.ReadingAt k (start.runLoop j) := by
      intro k
      induction k with
      | zero => exact fun _ => ⟨1, rfl, rfl, rfl, rfl, rfl, rfl⟩
      | succ k ih =>
        intro hle
        obtain ⟨j, hj⟩ := ih (by omega)
        obtain ⟨block, hblock, hmarked⟩ := hstored (k + 1) (by omega) hle
        obtain ⟨j', hj'⟩ := hj.advance hblock (hle.trans hheight)
          (hapart.marked_deletedUpTo hle hblock hmarked)
        refine ⟨j + j', ?_⟩
        rw [runLoop, List.replicate_add, List.foldl_append]
        exact hj'
    obtain ⟨j, hj⟩ := hreading last le_rfl
    exact ⟨j, hj.daIncludedHeight_eq.ge⟩

end InclusionNode

/-! ## The pending lists -/

namespace LedgerNode

variable {initialHeight : ℕ} {n : LedgerNode}

/-- The heights to be listed as pending: those above the last submitted one, from the first block
of the chain on, as many as the cache holds. -/
def pendingHeights (initialHeight lastSubmitted storeHeight : ℕ) : List ℕ :=
  let first := max (lastSubmitted + 1) initialHeight
  List.range' first (min storeHeight (first + defaultPendingCacheSize - 1) + 1 - first)

/-- The list is complete, in order, and there without an error. -/
def ListsPending {α : Type} (initialHeight storeHeight : ℕ) (item : ℕ → Option α)
    (fetch : ℕ → Except PendingListError α) (pb : PendingBase α) : Prop :=
  ∃ items, (pb.getPending (some storeHeight) fetch).1 = .ok items ∧
    items.map some = (pendingHeights initialHeight pb.lastHeight storeHeight).map item

theorem pendingHeights_one (lastSubmitted storeHeight : ℕ) :
    pendingHeights 1 lastSubmitted storeHeight =
      List.range' (lastSubmitted + 1) (pendingCount lastSubmitted storeHeight) := by
  unfold pendingHeights pendingCount
  dsimp only
  rw [max_eq_left (by omega)]
  congr 1
  omega

theorem listsPending_of_stored {α : Type} {S : Stream α} {item : ℕ → Option α}
    {itemHeight : α → ℕ} {pb : PendingBase α} (hpb : BaseSound S item pb)
    (hall : ∀ h, 1 ≤ h → h ≤ S.bound → ∃ x, item h = some x ∧ itemHeight x = h) :
    ListsPending 1 S.bound item (fetchItem itemHeight item) pb := by
  have hfetch : ∀ h, pb.lastHeight < h → h ≤ S.bound →
      ∃ x, fetchItem itemHeight item h = .ok x := by
    intro h hlt hle
    obtain ⟨x, hx, hheight⟩ := hall h (by omega) hle
    refine ⟨x, ?_⟩
    unfold fetchItem
    rw [hx]
    exact if_neg (by omega)
  obtain ⟨items, hitems⟩ := getPending_ok hpb.lastHeight.2 hfetch
  obtain ⟨h, hheight, -, hlist⟩ := (getPending_spec (fun _ _ => fetchItem_ok)
    hpb.cache (show ∀ h, some S.bound = some h → h ≤ S.bound from
      fun h hh => (Option.some.inj hh).ge)).2 items hitems
  refine ⟨items, hitems, ?_⟩
  rw [pendingHeights_one, hlist, Option.some.inj hheight]

structure NothingSubmitted (n : LedgerNode) : Prop where
  lastHeight : n.headers.lastHeight = 0
  metadata : n.headers.metadata.getD 0 = 0
  idle : n.submittingHeaders = .idle

theorem getPending_above (hn : LedgerSound initialHeight n) (hnone : n.NothingSubmitted)
    (hinitial : 1 < initialHeight) {fetch : ℕ → Except PendingListError SignedHeader}
    {e : PendingListError} (hfetch : fetch 1 = .error e) :
    n.headers.getPending (some n.store.height) fetch = (.error e, n.headers) := by
  have hstart := hn.stored.start
  have hlast := hnone.lastHeight
  refine getPending_error (by omega) ?_ (by rw [hlast]; exact hfetch)
  rcases hlookup : n.headers.pendingCache.lookup (n.headers.lastHeight + 1) with _ | x
  · rfl
  · obtain ⟨block, hblock, -⟩ := headerAt_eq_some.mp (hn.headers.cache _ x hlookup).2
    have := (hn.stored.blocks _).mp ⟨block, hblock⟩
    omega

theorem fetchSignedHeader_above (hn : StoredFrom initialHeight n.store)
    (hinitial : 1 < initialHeight) : fetchSignedHeader n.store 1 = .error (.notFound 1) := by
  have hnone : n.store.blocks 1 = none := by
    rcases hblock : n.store.blocks 1 with _ | block
    · rfl
    · have := (hn.blocks 1).mp ⟨block, hblock⟩
      omega
  rw [fetchSignedHeader, fetchItem, Store.headerAt, hnone]
  rfl

theorem NothingSubmitted.step (hn : LedgerSound initialHeight n) (hnone : n.NothingSubmitted)
    (hinitial : 1 < initialHeight) (e : Event) : (n.step e).NothingSubmitted := by
  cases e with
  | produce header data =>
    show (n.produce header data).NothingSubmitted
    unfold LedgerNode.produce
    split_ifs
    · exact ⟨hnone.1, hnone.2, hnone.3⟩
    · exact hnone
  | submitHeaders inp =>
    -- the submission ends before its first attempt
    have hstart : SubmitPc.start n.headers n.store.height (fetchSignedHeader n.store)
        (fun _ => true) inp = (n.headers, .idle) := by
      unfold SubmitPc.start
      dsimp only
      by_cases hread : inp.heightRead = true
      · rw [if_pos hread]
        by_cases hreadable : inp.readable 1 = true
        · rw [getPending_above hn hnone hinitial
            (show (if inp.readable 1 then fetchSignedHeader n.store 1 else _) = _ from
              (if_pos hreadable).trans (fetchSignedHeader_above hn.stored hinitial))]
        · rw [getPending_above hn hnone hinitial
            (show (if inp.readable 1 then fetchSignedHeader n.store 1 else _) = _ from
              if_neg hreadable)]
      · rw [if_neg hread]
        rfl
    have hstep : n.step (.submitHeaders inp) =
        { n with ackedHeaders := n.ackedHeaders ++ [] } := by
      show n.submitHeaders inp = _
      unfold LedgerNode.submitHeaders
      rw [hnone.idle]
      unfold submitStep
      dsimp only
      rw [hstart]
    rw [hstep]
    exact ⟨hnone.1, hnone.2, hnone.3⟩
  | submitData inp | numPendingData call inp => exact ⟨hnone.1, hnone.2, hnone.3⟩
  | restart => exact ⟨hnone.metadata, hnone.metadata, rfl⟩

theorem run_nothingSubmitted (hinitial : 1 < initialHeight) (maxAttempts : ℕ)
    (events : List Event) :
    (events.foldl step (fresh initialHeight maxAttempts)).NothingSubmitted :=
  (Runs.foldl_invariant step (fun n => LedgerSound initialHeight n ∧ n.NothingSubmitted)
    (fun _ _ => True) (fun _ e hn _ => ⟨hn.1.step e, hn.2.step hn.1 hinitial e⟩)
    ⟨fresh_sound hinitial.le maxAttempts, rfl, rfl, rfl⟩ (fun _ _ => trivial)).2

theorem LedgerSound.listsPending (hn : LedgerSound 1 n) :
    ListsPending 1 n.store.height n.store.headerAt (fetchSignedHeader n.store) n.headers ∧
      ListsPending 1 n.store.height n.store.dataAt (fetchData n.store) n.data := by
  constructor
  · refine listsPending_of_stored hn.headers (fun h hpos hle => ?_)
    obtain ⟨block, hblock⟩ := (hn.stored.blocks h).mpr ⟨hpos, hle⟩
    exact ⟨block.header, headerAt_eq_some.mpr ⟨block, hblock, rfl⟩,
      (hn.stored.heights h block hblock).1⟩
  · refine listsPending_of_stored hn.data (fun h hpos hle => ?_)
    obtain ⟨block, hblock⟩ := (hn.stored.blocks h).mpr ⟨hpos, hle⟩
    exact ⟨block.data, dataAt_eq_some.mpr ⟨block, hblock, rfl⟩,
      (hn.stored.heights h block hblock).2⟩

/-- Any chain of a valid genesis, at any point of any run of its submissions; and DA inclusion
started on its store, with the heights up to `last` marked. The pending lists are complete and
the loop goes through all these heights exactly when the chain starts at height 1 and no two of
the heights are marked under one key. -/
theorem submission_works_iff (genesis : Genesis) (nilProposer : Bool)
    (hvalid : genesis.validate nilProposer = .ok ()) (maxAttempts : ℕ) (events : List Event)
    (hn : n = events.foldl step (fresh genesis.initialHeight maxAttempts))
    (retriever : DaRetriever) (sequencer : Option ℕ) (headerCache dataCache : BlockCache)
    (last : ℕ) (hlast : last ≤ n.store.height)
    (hmarked : ∀ h block, genesis.initialHeight ≤ h → h ≤ last → n.store.blocks h = some block →
        InclusionNode.Marked retriever.codec headerCache dataCache h block.data) :
    (ListsPending genesis.initialHeight n.store.height n.store.headerAt
          (fetchSignedHeader n.store) n.headers ∧
        ListsPending genesis.initialHeight n.store.height n.store.dataAt
          (fetchData n.store) n.data ∧
        ∃ j, last ≤ ((startOn retriever n.store sequencer headerCache
          dataCache).runLoop j).daIncludedHeight) ↔
      genesis.initialHeight = 1 ∧ KeysApart retriever.codec n.store headerCache
        dataCache genesis.initialHeight last := by
  have hinitial := Genesis.validate_initialHeight hvalid
  have hsound : LedgerSound genesis.initialHeight n := hn ▸ run_sound hinitial maxAttempts events
  by_cases hone : genesis.initialHeight = 1
  · rw [hone] at hsound hmarked ⊢
    have hstored : ∀ h, 1 ≤ h → h ≤ last → ∃ block, n.store.blocks h = some block ∧
        InclusionNode.Marked retriever.codec headerCache dataCache h block.data := by
      intro h hpos hle
      obtain ⟨block, hblock⟩ := (hsound.stored.blocks h).mpr ⟨hpos, hle.trans hlast⟩
      exact ⟨block, hblock, hmarked h block hpos hle hblock⟩
    obtain ⟨hheaders, hdata⟩ := hsound.listsPending
    have hreaches := reaches_iff_keysApart retriever sequencer hlast hstored
    exact ⟨fun h => ⟨rfl, hreaches.mp h.2.2⟩, fun h => ⟨hheaders, hdata, hreaches.mpr h.2⟩⟩
  · refine ⟨fun h => ?_, fun h => absurd h.1 hone⟩
    obtain ⟨⟨items, hitems, -⟩, -⟩ := h
    have habove : 1 < genesis.initialHeight := by omega
    rw [getPending_above hsound (hn ▸ run_nothingSubmitted habove maxAttempts events) habove
      (fetchSignedHeader_above hsound.stored habove)] at hitems
    simp at hitems

/-! ## A chain that starts at height 5 -/

def headerMarks (heights : List ℕ) : BlockCache :=
  heights.foldl (fun c h => c.setDAIncluded (.hash [UInt8.ofNat h]) 3 h) .new

def dataMarks (heights : List ℕ) : BlockCache :=
  heights.foldl
    (fun c h => c.setDAIncluded (.hash (rootCodec.daCommitment [[5]])) 3 h) .new

def chainOf (initialHeight : ℕ) (heights : List ℕ) : LedgerNode :=
  (heights.map (fun h => Event.produce (ledgerHeader h) (ledgerData h [[5]]))).foldl step
    (fresh initialHeight 3)

def inclusionOf (initialHeight : ℕ) (heights : List ℕ) : InclusionNode :=
  startOn (.new proposerGenesis rootCodec inclusionWire)
    (chainOf initialHeight heights).store none (headerMarks heights) (dataMarks heights)

/-- One block at height 5, the first of its chain. Neither list of pending items is there, and
the DA-included height never moves, although the block is marked. -/
theorem chain_from_five_stuck :
    let n := chainOf 5 [5]
    { proposerGenesis with initialHeight := 5 }.validate false = .ok () ∧
      n.store.height = 5 ∧ n.store.headerAt 5 = some (ledgerHeader 5) ∧
      (n.headers.getPending (some 5) (fetchSignedHeader n.store)).1 = .error (.notFound 1) ∧
      (n.data.getPending (some 5) (fetchData n.store)).1 = .error (.notFound 1) ∧
      (headerMarks [5]).getDAIncludedByHeight 5 = some 3 ∧
      (dataMarks [5]).getDAIncludedByHeight 5 = some 3 ∧
      ∀ inputs : List LoopInput,
        (inputs.foldl loopStep (inclusionOf 5 [5])).daIncludedHeight = 0 := by
  refine ⟨rfl, rfl, by decide +kernel, rfl, rfl, by decide +kernel, by decide +kernel,
    fun inputs => ?_⟩
  have hbarrier : (inclusionOf 5 [5]).Barrier 1 :=
    fun block hblock => absurd hblock (by simp [inclusionOf, startOn,
      new, chainOf, step, produce, fresh, Store.empty, IsNext, ledgerHeader,
      ledgerData, Store.saveBlockData, Store.setHeight])
  exact Nat.lt_one_iff.mp (hbarrier.daIncludedHeight_lt le_rfl inputs)

theorem submission_works_of_one :
    let n := chainOf 1 [1]
    ListsPending 1 1 n.store.headerAt (fetchSignedHeader n.store) n.headers ∧
      ListsPending 1 1 n.store.dataAt (fetchData n.store) n.data ∧
      ∃ j, 1 ≤ ((inclusionOf 1 [1]).runLoop j).daIncludedHeight := by
  refine (submission_works_iff proposerGenesis false rfl 3
    [.produce (ledgerHeader 1) (ledgerData 1 [[5]])] rfl
    (.new proposerGenesis rootCodec inclusionWire) none
    (headerMarks [1]) (dataMarks [1]) 1 le_rfl ?_).mpr ⟨rfl, ?_⟩
  · intro h block hpos hle hblock
    obtain rfl : h = 1 := Nat.le_antisymm hle hpos
    exact ⟨by decide +kernel, .inr (by decide +kernel)⟩
  · intro h h' hpos hlt hle
    exact absurd (Nat.lt_of_lt_of_le hlt hle) (Nat.not_lt.mpr hpos)

end LedgerNode

end ChainSdk

/-
How far prefetching shows in what a retrieval answers.

A cached block has gone through a filter and an `int64` of nanoseconds, a block that is read during
the call has not. The joining loop takes the same from both. But a block is cached with the time the
DA client reported, and `client.Retrieve` (`block/internal/da/client.go`) reports the wall clock
when it cannot read the block's header.
-/
import ChainSdk.DaBlockTimes
import ChainSdk.Runs

namespace ChainSdk

open ForcedInclusionRetriever List

/-! ## The DA client -/

/-- What `Retrieve` makes of an error of `GetAll`, by its text. -/
inductive GetAllError
  | blobNotFound
  | heightFromFuture
  | other (text : String)

/-- What one `Retrieve` call meets: the answers of `GetAll` and of `getBlockTimestamp`, and the wall
clock. -/
structure DaRead where
  getAll : Except GetAllError (List Blob)
  blockTimestamp : Except String Time
  now : Time

namespace DaRead

variable (read : DaRead)

def blockTime : Time :=
  match read.blockTimestamp with
  | .ok blockTime => blockTime
  | .error _ => read.now

/-- `client.Retrieve`, in a namespace that is valid. -/
def retrieve : ResultRetrieve :=
  match read.getAll with
  | .error .blobNotFound => ⟨.notFound, "blob: not found", read.blockTime, []⟩
  | .error .heightFromFuture =>
    ⟨.heightFromFuture, "given height is from the future", read.now, []⟩
  | .error (.other text) => ⟨.error, "failed to get blobs: " ++ text, read.now, []⟩
  | .ok [] => ⟨.notFound, "blob: not found", read.blockTime, []⟩
  | .ok (blob :: blobs) => ⟨.success, "", read.blockTime, blob :: blobs⟩

/-- What the reads bring is the content and the time of height `h`. They may fail. -/
structure Of (da : ℕ → List Blob) (blockTime : ℕ → Time) (h : ℕ) (read : DaRead) : Prop where
  blobs : ∀ blobs, read.getAll = .ok blobs → blobs = da h
  noBlobs : read.getAll = .error .blobNotFound → da h = []
  time : ∀ t, read.blockTimestamp = .ok t → t = blockTime h

/-- The reply brings a block, with the wall clock for its time. -/
def FallsBack : Prop := read.retrieve.block?.isSome ∧ ∃ err, read.blockTimestamp = .error err

/-- Neither read fails, and the height is there. -/
def Complete : Prop := read.retrieve.block?.isSome ∧ ∃ t, read.blockTimestamp = .ok t

end DaRead

section

variable {da : ℕ → List Blob} {blockTime : ℕ → Time} {read : DaRead} {h : ℕ}

theorem DaRead.Of.faithful (hread : read.Of da blockTime h) (hnow : ¬ read.FallsBack) :
    read.retrieve.Faithful da blockTime h := by
  intro block hblock
  have htime : read.blockTime = blockTime h := by
    rcases hheader : read.blockTimestamp with err | t
    · exact absurd ⟨by rw [hblock]; rfl, err, hheader⟩ hnow
    · rw [DaRead.blockTime, hheader]
      exact hread.time t hheader
  unfold retrieve ResultRetrieve.block? at hblock
  rcases hget : read.getAll with err | _ | ⟨blob, blobs⟩
  · cases err with
    | blobNotFound =>
      rw [hget] at hblock
      rw [← Option.some.inj hblock, BlockData.Genuine, htime, nonEmptyBlobs, hread.noBlobs hget]
      exact ⟨rfl, rfl⟩
    | heightFromFuture | other =>
      rw [hget] at hblock
      cases hblock
  all_goals
    rw [hget] at hblock
    rw [← Option.some.inj hblock, BlockData.Genuine, htime, nonEmptyBlobs, ← hread.blobs _ hget]
    exact ⟨rfl, rfl⟩

end

/-! ## Prefetching and calls -/

inductive RetrieverStep
  | background (b : AsyncBlockRetriever.BackgroundStep)
  | retrieve (env : RetrieveEnv) (daHeight : ℕ)

/-- The background step, if it prefetches, reads what is on DA and its time. -/
def AsyncBlockRetriever.BackgroundStep.KeepsTime (da : ℕ → List Blob) (blockTime : ℕ → Time)
    (b : AsyncBlockRetriever.BackgroundStep) : Prop :=
  ∀ target result, b = .prefetch target result →
    ∃ read : DaRead, read.Of da blockTime target ∧ ¬ read.FallsBack ∧ result = read.retrieve

/-- So do the background steps of a step. What a call reads itself is not cached. -/
def RetrieverStep.KeepsTime (da : ℕ → List Blob) (blockTime : ℕ → Time) : RetrieverStep → Prop
  | .background b => b.KeepsTime da blockTime
  | .retrieve env _ => ∀ h, ∀ b ∈ env.background h, b.KeepsTime da blockTime

namespace ForcedInclusionRetriever

def step (r : ForcedInclusionRetriever) : RetrieverStep → ForcedInclusionRetriever
  | .background b => { r with asyncFetcher := r.asyncFetcher.runBackground b }
  | .retrieve env daHeight => (r.retrieveForcedIncludedTxs env daHeight).2

def plainEvent (da : ℕ → List Blob) (blockTime : ℕ → Time) (r : ForcedInclusionRetriever)
    (daHeight : ℕ) : ForcedInclusionEvent :=
  if daHeight = r.lastHeight daHeight then
    joinBlocks (fun h => some ⟨h, blockTime h, nonEmptyBlobs da h⟩)
      ⟨zeroTime, r.firstHeight daHeight, r.lastHeight daHeight, []⟩ (r.heights daHeight)
  else ⟨zeroTime, daHeight, daHeight, []⟩

section

variable {da : ℕ → List Blob} {blockTime : ℕ → Time} {r r' : ForcedInclusionRetriever}
  {env : RetrieveEnv} {daHeight : ℕ}

theorem addBlock_genuine {h : ℕ} {block : BlockData} (hblock : block.Genuine da blockTime h)
    (event : ForcedInclusionEvent) : addBlock event (some block) =
      addBlock event (some ⟨h, blockTime h, nonEmptyBlobs da h⟩) := by
  obtain ⟨hblobs, htime⟩ := hblock
  have hfilter : (nonEmptyBlobs da h).filter (fun blob => 0 < blob.length) =
      nonEmptyBlobs da h := by
    simp [nonEmptyBlobs, filter_filter]
  unfold addBlock
  dsimp only
  rw [hblobs, htime, hfilter]

theorem retrieve_eq_plain (henv : env.Prefetches (BlockData.Genuine da blockTime))
    (hr : r.asyncFetcher.Caches (BlockData.Genuine da blockTime))
    (hns : r.client.hasForcedNamespace = true) (hd : r.daStartHeight ≤ daHeight)
    (hall : daHeight = r.lastHeight daHeight → ∀ h ∈ r.heights daHeight,
      (r.blockAt env daHeight h).isSome ∧
        (r.cachedAt env daHeight h = none → (env.retrieve h).Faithful da blockTime h)) :
    (r.retrieveForcedIncludedTxs env daHeight).1 = .ok (r.plainEvent da blockTime daHeight) := by
  unfold plainEvent
  by_cases hend : daHeight = r.lastHeight daHeight
  · rw [if_pos hend, retrieve_of_blocks hns hd hend fun h hh => (hall hend h hh).1]
    refine congrArg Except.ok (foldl_ext _ _ _ fun event h hh => ?_)
    obtain ⟨hsome, hread⟩ := hall hend h hh
    obtain ⟨block, hblock⟩ := Option.isSome_iff_exists.mp hsome
    rw [hblock]
    exact addBlock_genuine (blockAt_genuine henv hr hread hblock) event
  · rw [if_neg hend, retrieve_of_ne_end hns hd hend]

theorem plainEvent_congr (hstart : r.daStartHeight = r'.daStartHeight)
    (hsize : r.daEpochSize = r'.daEpochSize) :
    r.plainEvent da blockTime daHeight = r'.plainEvent da blockTime daHeight := by
  unfold plainEvent heights lastHeight firstHeight
  rw [hstart, hsize]

/-- What a retriever keeps: its configuration, and a cache that is true to DA. -/
def Serving (da : ℕ → List Blob) (blockTime : ℕ → Time) (r₀ r : ForcedInclusionRetriever) : Prop :=
  (r.client = r₀.client ∧ r.daStartHeight = r₀.daStartHeight ∧ r.daEpochSize = r₀.daEpochSize) ∧
    r.asyncFetcher.Caches (BlockData.Genuine da blockTime)

theorem cached_genuine (hfits : ∀ h, FitsUnixNano (blockTime h))
    {b : AsyncBlockRetriever.BackgroundStep} (hb : b.KeepsTime da blockTime) {target : ℕ}
    {result : ResultRetrieve} (heq : b = .prefetch target result) {block : BlockData}
    (hblock : result.toCache target = some block) : block.Genuine da blockTime target := by
  obtain ⟨read, hread, hnow, rfl⟩ := hb target result heq
  exact (hread.faithful hnow).toCache hfits hblock

theorem Serving.step (hfits : ∀ h, FitsUnixNano (blockTime h)) (hr : Serving da blockTime r' r)
    {s : RetrieverStep} (hs : s.KeepsTime da blockTime) : Serving da blockTime r' (r.step s) := by
  obtain ⟨hconfig, hcache⟩ := hr
  cases s with
  | background b =>
    exact ⟨hconfig, runBackground_caches hcache fun target result heq _ hblock =>
      cached_genuine hfits hs heq hblock⟩
  | retrieve env daHeight =>
    refine ⟨?_, retrieve_caches (fun h _ _ hmem _ hblock =>
      cached_genuine hfits (hs h _ hmem) rfl hblock) hcache⟩
    unfold ForcedInclusionRetriever.step
    dsimp only
    rw [retrieve_snd_eq]
    exact hconfig

end

end ForcedInclusionRetriever

/-- After every interleaving of prefetching, cleaning up and calls, with reads that fail or come
too early among them, as long as no prefetched block has the wall clock for its time: a call that
answers with an event, and none of whose own reads failed, answers as a new retriever does that
reads all heights during the call. -/
theorem prefetching_invisible (da : ℕ → List Blob) (blockTime : ℕ → Time)
    (hfits : ∀ h, FitsUnixNano (blockTime h)) (client : Client) (daStartHeight daEpochSize : ℕ)
    (steps : List RetrieverStep) (hsteps : ∀ s ∈ steps, s.KeepsTime da blockTime)
    (r : ForcedInclusionRetriever)
    (hr : r = steps.foldl .step (.new client daStartHeight daEpochSize)) (reads : ℕ → DaRead)
    (background : ℕ → List AsyncBlockRetriever.BackgroundStep) (env : RetrieveEnv)
    (henv : env = ⟨fun h => (reads h).retrieve, background⟩) (daHeight : ℕ)
    (hcall : (RetrieverStep.retrieve env daHeight).KeepsTime da blockTime)
    (event : ForcedInclusionEvent) (hok : (r.retrieveForcedIncludedTxs env daHeight).1 = .ok event)
    (hread : ∀ h ∈ r.heights daHeight, r.cachedAt env daHeight h = none →
      (reads h).Of da blockTime h ∧ (reads h).Complete) (fresh : ℕ → DaRead)
    (hfresh : ∀ h, (fresh h).Of da blockTime h ∧ (fresh h).Complete) :
    ((new client daStartHeight daEpochSize).retrieveForcedIncludedTxs
      ⟨fun h => (fresh h).retrieve, fun _ => []⟩ daHeight).1 = .ok event := by
  have hcomplete : ∀ read : DaRead, read.Complete → ¬ read.FallsBack := by
    rintro read ⟨-, t, ht⟩ ⟨-, err, herr⟩
    rw [ht] at herr
    cases herr
  have hnew : AsyncBlockRetriever.Caches (BlockData.Genuine da blockTime)
      (new client daStartHeight daEpochSize).asyncFetcher :=
    AsyncBlockRetriever.new_caches _ _ _
  obtain ⟨⟨hclient, hstart, hsize⟩, hcache⟩ :
      Serving da blockTime (.new client daStartHeight daEpochSize) r := by
    rw [hr]
    exact Runs.foldl_invariant step (Serving da blockTime _)
      (fun _ s => RetrieverStep.KeepsTime da blockTime s) (fun _ _ hr hs => hr.step hfits hs)
      ⟨⟨rfl, rfl, rfl⟩, hnew⟩ (Runs.steps_of_forall hsteps)
  obtain ⟨hns, hd⟩ := retrieve_ok_guard hok
  have hplain : (r.retrieveForcedIncludedTxs env daHeight).1 =
      .ok (r.plainEvent da blockTime daHeight) := retrieve_eq_plain (fun h _ _ hmem _ hblock =>
    cached_genuine hfits (hcall h _ hmem) rfl hblock) hcache hns hd fun _ h hh => ?_
  · rw [hplain] at hok
    rw [← hok, plainEvent_congr hstart hsize]
    refine retrieve_eq_plain (fun _ _ _ hmem => absurd hmem not_mem_nil) hnew (hclient ▸ hns)
      (hstart ▸ hd) fun _ h _ => ⟨?_, fun _ => (hfresh h).1.faithful (hcomplete _ (hfresh h).2)⟩
    unfold blockAt
    rw [Option.isSome_or, (hfresh h).2.1, Bool.or_true]
  · rcases hc : r.cachedAt env daHeight h with _ | block
    · obtain ⟨hof, hdone⟩ := hread h hh hc
      unfold blockAt
      rw [hc, henv]
      exact ⟨by simpa using hdone.1, fun _ => hof.faithful (hcomplete _ hdone)⟩
    · unfold blockAt
      rw [hc]
      exact ⟨rfl, fun h => by cases h⟩

/-- The reads of a chain with one blob at each height, and an empty one. -/
def numberedRead (h : ℕ) : DaRead := ⟨.ok [[h.toUInt8], []], .ok 7, 99⟩

theorem numberedRead_of (h : ℕ) :
    (numberedRead h).Of (fun h => [[h.toUInt8], []]) (fun _ => 7) h ∧ (numberedRead h).Complete :=
  ⟨⟨fun _ heq => (Except.ok.inj heq).symm, (fun heq => by cases heq),
    fun _ heq => (Except.ok.inj heq).symm⟩, rfl, 7, rfl⟩

/-- The first of two heights comes from the cache, with its empty blob taken out. -/
theorem prefetching_invisible_of_one :
    ((new ⟨[1], true⟩ 1 2).retrieveForcedIncludedTxs
      ⟨fun h => (numberedRead h).retrieve, fun _ => []⟩ 2).1 = .ok ⟨7, 1, 2, [[1], [2]]⟩ := by
  refine prefetching_invisible (fun h => [[h.toUInt8], []]) (fun _ => 7)
    (fun _ => ⟨by decide, by decide⟩) ⟨[1], true⟩ 1 2
    [.background (.prefetch 1 (numberedRead 1).retrieve)] ?_ _ rfl numberedRead (fun _ => []) _ rfl
    2 (fun _ _ hmem => absurd hmem not_mem_nil) _ rfl (fun h _ _ => numberedRead_of h) numberedRead
    numberedRead_of
  intro s hs
  rw [mem_singleton.mp hs]
  rintro target result ⟨⟩
  exact ⟨numberedRead 1, (numberedRead_of 1).1, (fun ⟨_, _, herr⟩ => by cases herr), rfl⟩

/-- Height 1 is prefetched while its header cannot be read, at 99 by the wall clock. A later call
that reads nothing, so that nothing fails, answers with that time; a new retriever answers with the
time of the block. -/
theorem fallback_time_answered :
    let prefetched := (new ⟨[1], true⟩ 1 1).step
      (.background (.prefetch 1 { numberedRead 1 with blockTimestamp := .error "" }.retrieve))
    let env : RetrieveEnv := ⟨fun h => (numberedRead h).retrieve, fun _ => []⟩
    (prefetched.retrieveForcedIncludedTxs env 1).1 = .ok ⟨99, 1, 1, [[1]]⟩ ∧
      ((new ⟨[1], true⟩ 1 1).retrieveForcedIncludedTxs env 1).1 =
        .ok ⟨7, 1, 1, [[1]]⟩ :=
  ⟨rfl, rfl⟩

end ChainSdk

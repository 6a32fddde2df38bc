/-
What a retrieval says about time.

Every DA block has a time, and an epoch that is read gets the time of its last block: the joining
loop of the retriever keeps the latest time it has seen, and block times do not go back.
-/
import ChainSdk.EpochReader
import Mathlib.Data.Int.ConditionallyCompleteOrder

namespace ChainSdk

open List Option

/-! ## A DA layer with block times -/

section

variable (da : ℕ → List Blob)

def nonEmptyBlobs (h : ℕ) : List Blob :=
  (da h).filter (fun blob => 0 < blob.length)

/-- The reply for height `h` has the content and the time of that height, or says that the
height is still to come. -/
def ResultRetrieve.Genuine (blockTime : ℕ → Time) (h : ℕ) (result : ResultRetrieve) : Prop :=
  (result.code = .success ∧ result.data = da h ∨ result.code = .notFound ∧ da h = []) ∧
      result.timestamp = blockTime h ∨
    result.code = .heightFromFuture

/-- Every reply of a call is genuine, those the background goroutine gets included. -/
structure RetrieveEnv.Genuine (da : ℕ → List Blob) (blockTime : ℕ → Time) (env : RetrieveEnv) :
    Prop where
  retrieve : ∀ h, (env.retrieve h).Genuine da blockTime h
  background : ∀ h target result,
    .prefetch target result ∈ env.background h → result.Genuine da blockTime target

def BlockData.Genuine (blockTime : ℕ → Time) (h : ℕ) (block : BlockData) : Prop :=
  block.blobs.filter (fun blob => 0 < blob.length) = nonEmptyBlobs da h ∧
    block.timestamp = blockTime h

/-- What a reply says of the block at height `h` is true. -/
def ResultRetrieve.Faithful (blockTime : ℕ → Time) (h : ℕ) (result : ResultRetrieve) : Prop :=
  ∀ block, result.block? = some block → block.Genuine da blockTime h

end

/-- The times that survive the cache: those of an `int64` number of nanoseconds. -/
def FitsUnixNano (t : Time) : Prop := -2 ^ 63 ≤ t ∧ t < 2 ^ 63

theorem unixNano_eq_self {t : ℤ} (ht : FitsUnixNano t) : unixNano t = t := by
  have hlo : (-2 ^ 63 : ℤ) ≤ t := ht.1
  have hhi : t < 2 ^ 63 := ht.2
  show (t + 2 ^ 63) % 2 ^ 64 - 2 ^ 63 = t
  omega

theorem zeroTime_le {t : ℤ} (ht : FitsUnixNano t) : zeroTime ≤ t := by
  have hlo : (-2 ^ 63 : ℤ) ≤ t := ht.1
  show (-62135596800000000000 : ℤ) ≤ t
  omega

section

variable {da : ℕ → List Blob} {blockTime : ℕ → Time} {env : RetrieveEnv}

theorem ResultRetrieve.Genuine.faithful {h : ℕ} {result : ResultRetrieve}
    (hres : result.Genuine da blockTime h) : result.Faithful da blockTime h := by
  intro block hblock
  unfold ResultRetrieve.block? at hblock
  rcases hres with ⟨⟨hcode, hdata⟩ | ⟨hcode, hempty⟩, htime⟩ | hcode
  · rw [hcode] at hblock
    rw [← some.inj hblock, hdata, htime]
    exact ⟨rfl, rfl⟩
  · rw [hcode] at hblock
    rw [← some.inj hblock, BlockData.Genuine, htime, nonEmptyBlobs, hempty]
    exact ⟨rfl, rfl⟩
  · simp [hcode] at hblock

theorem ResultRetrieve.Faithful.toCache (hfits : ∀ h, FitsUnixNano (blockTime h)) {h : ℕ}
    {result : ResultRetrieve} (hres : result.Faithful da blockTime h) {block : BlockData}
    (hblock : result.toCache h = some block) : block.Genuine da blockTime h := by
  unfold ResultRetrieve.toCache at hblock
  unfold ResultRetrieve.Faithful ResultRetrieve.block? at hres
  rcases hcode : result.code <;> simp only [hcode, reduceCtorEq] at hblock hres
  all_goals
    obtain ⟨hblobs, htime⟩ := hres _ rfl
    dsimp only at hblobs htime
    rw [← some.inj hblock, BlockData.Genuine, htime, unixNano_eq_self (hfits h)]
    exact ⟨by simpa [List.filter_filter] using hblobs, rfl⟩

theorem RetrieveEnv.Genuine.prefetches (henv : env.Genuine da blockTime)
    (hfits : ∀ h, FitsUnixNano (blockTime h)) :
    env.Prefetches (BlockData.Genuine da blockTime) :=
  fun h target result hmem _ hblock =>
    (henv.background h target result hmem).faithful.toCache hfits hblock

namespace ForcedInclusionRetriever

variable {r : ForcedInclusionRetriever} {daHeight : ℕ}

theorem blockAt_genuine (henv : env.Prefetches (BlockData.Genuine da blockTime))
    (hr : r.asyncFetcher.Caches (BlockData.Genuine da blockTime)) {h : ℕ}
    (hread : r.cachedAt env daHeight h = none → (env.retrieve h).Faithful da blockTime h)
    {block : BlockData} (hblock : r.blockAt env daHeight h = some block) :
    block.Genuine da blockTime h := by
  unfold blockAt at hblock
  rcases hc : r.cachedAt env daHeight h with _ | cached
  · rw [hc, none_or] at hblock
    exact hread hc block hblock
  · rw [hc] at hblock
    rw [← some.inj hblock]
    exact cachedAt_caches henv hr hc

theorem firstHeight_le (hd : r.daStartHeight ≤ daHeight) : r.firstHeight daHeight ≤ daHeight := by
  unfold firstHeight
  by_cases hsize : r.daEpochSize = 0
  · have hstart : epochStart r.daStartHeight r.daEpochSize daHeight = r.daStartHeight := by
      unfold epochStart calculateEpochBoundaries
      rw [if_pos hsize]
    rw [hstart]
    exact hd
  · exact epochStart_le (Nat.pos_of_ne_zero hsize) hd

/-- What a genuine retrieval answers: nothing below an epoch end, and at an epoch end the
content of the epoch with the time of its last block. -/
theorem retrieve_genuine (hmono : Monotone blockTime) (hfits : ∀ h, FitsUnixNano (blockTime h))
    (henv : env.Genuine da blockTime) (hr : r.asyncFetcher.Caches (BlockData.Genuine da blockTime))
    {event : ForcedInclusionEvent}
    (hres : (r.retrieveForcedIncludedTxs env daHeight).1 = .ok event) :
    (daHeight ≠ r.lastHeight daHeight ∧ event.txs = [] ∧ event.timestamp = zeroTime) ∨
      (daHeight = r.lastHeight daHeight ∧ (r.blockAt env daHeight daHeight).isSome ∧
        event.txs =
          Ranges.between (nonEmptyBlobs da) (r.firstHeight daHeight) (daHeight + 1) ∧
        event.timestamp = blockTime daHeight) := by
  obtain ⟨hns, hd⟩ := retrieve_ok_guard hres
  by_cases hend : daHeight = r.lastHeight daHeight
  · refine .inr ⟨hend, ?_⟩
    have hnow := retrieve_ok_no_future hend hres
    -- a genuine reply is no error status, so no height failed
    have hall : ∀ h ∈ r.heights daHeight, (r.blockAt env daHeight h).isSome := by
      intro h hh
      refine blockAt_isSome.mpr ⟨hnow h hh, ?_⟩
      rintro ⟨-, hfut, hsuc, hnot⟩
      rcases henv.retrieve h with ⟨⟨hcode, -⟩ | ⟨hcode, -⟩, -⟩ | hcode
      · exact hsuc hcode
      · exact hnot hcode
      · exact hfut hcode
    have hgenuine : ∀ h ∈ r.heights daHeight, ∃ b, r.blockAt env daHeight h = some b ∧
        b.Genuine da blockTime h := by
      intro h hh
      obtain ⟨b, hb⟩ := isSome_iff_exists.mp (hall h hh)
      exact ⟨b, hb, blockAt_genuine (henv.prefetches hfits) hr
        (fun _ => (henv.retrieve h).faithful) hb⟩
    rw [retrieve_of_blocks hns hd hend hall] at hres
    rw [← Except.ok.inj hres]
    have hfirst := firstHeight_le hd
    have hheights := heights_eq_of_end hend
    refine ⟨?_, ?_, ?_⟩
    · apply hall
      rw [hheights, mem_range'_1]
      omega
    · rw [(r.epochEvent_spec env daHeight).1, Ranges.between, ← hheights]
      refine flatMap_congr (fun h hh => ?_)
      obtain ⟨b, hb, hgen, -⟩ := hgenuine h hh
      rw [hb]
      exact hgen
    · unfold epochEvent
      rw [hheights, show daHeight + 1 - r.firstHeight daHeight =
        daHeight - r.firstHeight daHeight + 1 by omega]
      rw [joinBlocks_timestamp hmono (zeroTime_le (hfits _)), Nat.add_sub_cancel' hfirst]
      intro h hlo hhi
      obtain ⟨b, hb, -, htime⟩ := hgenuine h (by
        rw [hheights, mem_range'_1]
        omega)
      exact ⟨b, hb, htime⟩
  · rw [retrieve_of_ne_end hns hd hend] at hres
    rw [← Except.ok.inj hres]
    exact .inl ⟨hend, rfl, rfl⟩

end ForcedInclusionRetriever

end

end ChainSdk

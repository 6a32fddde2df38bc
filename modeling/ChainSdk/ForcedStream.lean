/-
The forced transactions of a chain as one numbered stream, and where a sequencer stands in it.

A checkpoint is a pair of a DA height and an index, and most DA heights hold no forced transactions
of their own: an epoch is handed out at its last height.
-/
import ChainSdk.SequencerFailure

namespace ChainSdk

open AsyncBlockRetriever Except ForcedInclusionRetriever List

/-! ## The stream -/

/-- A DA layer as one chain reads it: epochs of `size` heights counted from `start`, in which
blobs above the size limit do not count. -/
structure ForcedStream where
  da : ℕ → List Blob
  maxBytes : ℕ
  start : ℕ
  size : ℕ
  start_pos : 0 < start
  size_pos : 0 < size
  nonempty : ∀ h, ∀ b ∈ da h, b ≠ []

namespace ForcedStream

variable (F : ForcedStream)

/-- What is handed out at DA height `d`: an epoch at its last height, nothing before. -/
def epochAt (d : ℕ) : List Tx :=
  if d = epochEnd F.start F.size d then
    Ranges.between (validBlobs F.da F.maxBytes) (epochStart F.start F.size d) (d + 1)
  else []

def upTo (d : ℕ) : List Tx :=
  Ranges.between (validBlobs F.da F.maxBytes) F.start (epochStart F.start F.size d)

/-- The number of the next transaction of a checkpoint. -/
def position (c : Checkpoint) : ℕ := (F.upTo c.daHeight).length + c.txIndex

def due (c : Checkpoint) : List Tx := (F.epochAt c.daHeight).drop c.txIndex

variable {F}

theorem upTo_succ {d : ℕ} (hd : F.start ≤ d) : F.upTo (d + 1) = F.upTo d ++ F.epochAt d := by
  unfold upTo epochAt
  by_cases hend : d = epochEnd F.start F.size d
  · rw [if_pos hend, epochStart_succ_of_end F.size_pos hd hend,
      Ranges.between_append _ (start_le_epochStart F.size_pos hd)
        ((epochStart_le F.size_pos hd).trans (Nat.le_succ d))]
  · rw [if_neg hend, epochStart_succ_of_ne_end F.size_pos hd hend, append_nil]

theorem upTo_isPrefix {d e : ℕ} (hd : F.start ≤ d) (hle : d ≤ e) : F.upTo d <+: F.upTo e := by
  induction e, hle using Nat.le_induction with
  | base => exact prefix_refl _
  | succ e hle ih =>
    rw [upTo_succ (hd.trans hle)]
    exact ih.trans (prefix_append _ _)

theorem position_add_due {c : Checkpoint} (hd : F.start ≤ c.daHeight)
    (hindex : c.txIndex ≤ (F.epochAt c.daHeight).length) :
    F.position c + (F.due c).length = (F.upTo (c.daHeight + 1)).length := by
  rw [upTo_succ hd, length_append, position, due, length_drop]
  omega

theorem position_next (d : ℕ) : F.position ⟨d + 1, 0⟩ = (F.upTo (d + 1)).length := rfl

theorem getElem?_upTo {d e i : ℕ} {tx : Tx} (hd : F.start ≤ d) (he : F.start ≤ e)
    (htx : (F.upTo d)[i]? = some tx) (hi : i < (F.upTo e).length) :
    (F.upTo e)[i]? = some tx := by
  have hlt : i < (F.upTo d).length := (List.getElem?_eq_some_iff.mp htx).1
  rcases Nat.le_total d e with hle | hle
  · obtain ⟨more, hmore⟩ := upTo_isPrefix hd hle
    rw [← hmore, List.getElem?_append_left hlt]
    exact htx
  · obtain ⟨more, hmore⟩ := upTo_isPrefix he hle
    rw [← hmore, List.getElem?_append_left hi] at htx
    exact htx

theorem getElem?_due {c : Checkpoint} (hd : F.start ≤ c.daHeight) (i : ℕ) :
    (F.due c)[i]? = (F.upTo (c.daHeight + 1))[F.position c + i]? := by
  rw [upTo_succ hd, position, due, List.getElem?_drop, Nat.add_assoc,
    List.getElem?_append_right (Nat.le_add_right _ _), Nat.add_sub_cancel_left]

theorem exists_end (F : ForcedStream) (bound : ℕ) :
    ∃ last, bound ≤ last ∧ F.start ≤ last ∧ last = epochEnd F.start F.size last := by
  have hle : F.start ≤ max bound F.start := le_max_right _ _
  have hend := le_epochEnd F.size_pos hle
  refine ⟨epochEnd F.start F.size (max bound F.start), (le_max_left _ _).trans hend,
    hle.trans hend, ?_⟩
  rw [epochEnd_eq F.size_pos hle, epochEnd_of_multiple F.size_pos]

end ForcedStream

/-! ## Standing somewhere in the stream -/

namespace EpochReader

/-- The prefetch cache holds finitely many heights. -/
def CachesBelow (p : EpochReader) : Prop :=
  ∃ bound, p.fiRetriever.asyncFetcher.Caches (fun h _ => h < bound)

/-- The checkpoint is a position in the stream, and the retriever reads this stream. -/
structure At (F : ForcedStream) (p : EpochReader) : Prop where
  configured : p.fiRetriever.client.hasForcedNamespace = true
  retriever_start : p.fiRetriever.daStartHeight = F.start
  retriever_size : p.fiRetriever.daEpochSize = F.size
  cache_holds : p.fiRetriever.asyncFetcher.Holds F.da
  cache_below : p.CachesBelow
  start_le : F.start ≤ p.checkpoint.daHeight
  index_le : p.checkpoint.txIndex ≤ (F.epochAt p.checkpoint.daHeight).length
  told : 0 < p.daHeight

/-- Between calls: nothing is cached, or the epoch of the checkpoint is, unfinished. -/
structure Placed (F : ForcedStream) (p : EpochReader) : Prop extends At F p where
  place : p.epochTxs = [] ∨
    p.daHeight = p.checkpoint.daHeight ∧ p.epochTxs = F.epochAt p.checkpoint.daHeight ∧
      p.checkpoint.txIndex < p.epochTxs.length

section

variable {F : ForcedStream} {p : EpochReader} {env : RetrieveEnv}

theorem At.lastHeight_eq (h : p.At F) (d : ℕ) :
    p.fiRetriever.lastHeight d = epochEnd F.start F.size d := by
  rw [lastHeight, h.retriever_start, h.retriever_size]

theorem At.retrieve (h : p.At F) (henv : env.Truthful F.da) (d : ℕ) (txs : List Tx) :
    At F { p with
      epochTxs := txs
      fiRetriever := (p.fiRetriever.retrieveForcedIncludedTxs env d).2 } where
  configured := by
    rw [retrieve_snd_eq]
    exact h.configured
  retriever_start := by
    rw [retrieve_snd_eq]
    exact h.retriever_start
  retriever_size := by
    rw [retrieve_snd_eq]
    exact h.retriever_size
  cache_holds := retrieve_holds F.nonempty henv h.cache_holds
  cache_below := by
    -- one background step caches one more height at most
    refine retrieve_fetcher_induct
      (P := fun f => ∃ bound, f.Caches (fun h _ => h < bound)) ?_ ?_ h.cache_below
    · rintro f ⟨bound, hf⟩
      exact ⟨bound, updateCurrentHeight_caches hf d⟩
    · rintro f - b - ⟨bound, hf⟩
      cases b with
      | cleanup currentHeight =>
        refine ⟨bound, ?_⟩
        simp only [runBackground]
        split_ifs
        · exact hf
        · exact cleanupOldBlocks_caches hf currentHeight
      | prefetch target result =>
        have hmore : f.Caches (fun h _ => h < max bound (target + 1)) :=
          fun k block hk => lt_max_of_lt_left (hf k block hk)
        refine ⟨max bound (target + 1), ?_⟩
        simp only [runBackground]
        split_ifs
        · exact hmore
        · exact hmore
        · exact fetchAndCacheBlock_caches hmore
            (fun _ _ => lt_max_of_lt_right (Nat.lt_succ_self target))
  start_le := h.start_le
  index_le := h.index_le
  told := h.told

/-- What a truthful retrieval at the checkpoint answers: the epoch of the checkpoint, or that
it is still to come, or, when a height of it fails, an epoch without transactions. -/
theorem At.retrieve_cases (h : p.At F) (henv : env.Truthful F.da) (hneeds : p.needsFetch = true) :
    let d := p.checkpoint.daHeight
    let res := p.fiRetriever.retrieveForcedIncludedTxs env d
    (d = epochEnd F.start F.size d ∧
        (∃ k ∈ p.fiRetriever.heights d, p.fiRetriever.FutureAt env d k) ∧
        ∃ k, res.1 = .error (.heightFromFuture k)) ∨
      ((d = epochEnd F.start F.size d →
          ∀ k ∈ p.fiRetriever.heights d, ¬ p.fiRetriever.FutureAt env d k) ∧
        ∃ event, res.1 = .ok event ∧ event.endDaHeight = d ∧
          (dropOversized F.maxBytes event.txs = F.epochAt d ∧ ¬ p.SilentFailure env ∨
            event.txs = [] ∧ p.SilentFailure env)) := by
  intro d res
  have hstart : p.fiRetriever.daStartHeight ≤ d := h.retriever_start ▸ h.start_le
  have hlast := h.lastHeight_eq d
  unfold ForcedStream.epochAt
  by_cases hend : d = epochEnd F.start F.size d
  · have hend' : d = p.fiRetriever.lastHeight d := hend.trans hlast.symm
    by_cases hfuture : ∃ k ∈ p.fiRetriever.heights d, p.fiRetriever.FutureAt env d k
    · exact .inl ⟨hend, hfuture, retrieve_of_future h.configured hstart hend' hfuture⟩
    have hnow : ∀ k ∈ p.fiRetriever.heights d, ¬ p.fiRetriever.FutureAt env d k :=
      fun k hk hf => hfuture ⟨k, hk, hf⟩
    refine .inr ⟨fun _ => hnow, ?_⟩
    by_cases hfail : ∃ k ∈ p.fiRetriever.heights d, p.fiRetriever.FailedAt env d k
    · obtain ⟨timestamp, hres⟩ :=
        retrieve_of_failed h.configured hstart hend' hnow hfail
      exact ⟨_, hres, rfl, .inr ⟨rfl, ⟨hneeds, h.configured, hstart, hend'⟩, hfail, hnow⟩⟩
    have hall : ∀ k ∈ p.fiRetriever.heights d, (p.fiRetriever.blockAt env d k).isSome :=
      fun k hk => blockAt_isSome.mpr
        ⟨hnow k hk, fun hf => hfail ⟨k, hk, hf⟩⟩
    obtain ⟨timestamp, hres⟩ :=
      retrieve_of_complete h.configured hstart hend' hall
    refine ⟨_, hres, rfl, .inl ⟨?_, fun hsilent => hfail hsilent.2.1⟩⟩
    -- the blocks of the epoch are what DA holds
    have hblocks : (p.fiRetriever.heights d).flatMap
        (fun k => ForcedInclusionRetriever.blobsOf (p.fiRetriever.blockAt env d k)) =
          Ranges.between F.da (epochStart F.start F.size d) (d + 1) := by
      rw [flatMap_congr fun k hk => blobsOf_blockAt F.nonempty
        henv h.cache_holds (hall k hk), heights_eq_of_end hend',
        firstHeight, h.retriever_start, h.retriever_size]
      rfl
    rw [if_pos hend, hblocks, dropOversized_between]
  · have hne : d ≠ p.fiRetriever.lastHeight d := fun hd => hend (hd.trans hlast)
    refine .inr ⟨fun hd => absurd hd hend, _, retrieve_of_ne_end h.configured hstart hne, rfl,
      .inl ⟨?_, fun hsilent => hne hsilent.1.2.2.2⟩⟩
    rw [if_neg hend]
    rfl

/-! ## Moving on -/

theorem At.advance (h : p.At F) (htxs : p.epochTxs = F.epochAt p.checkpoint.daHeight) {n : ℕ}
    (hn : n ≤ (F.due p.checkpoint).length)
    (htold : p.daHeight = p.checkpoint.daHeight ∨ n = (F.due p.checkpoint).length) :
    (p.advance p.checkpoint.daHeight n).Placed F ∧
      F.position (p.advance p.checkpoint.daHeight n).checkpoint = F.position p.checkpoint + n := by
  have hindex := h.index_le
  have hleft : (F.due p.checkpoint).length = p.epochTxs.length - p.checkpoint.txIndex := by
    rw [ForcedStream.due, length_drop, htxs]
  unfold EpochReader.advance
  by_cases hdone : p.epochTxs.length ≤ p.checkpoint.txIndex + n
  · rw [if_pos hdone]
    refine ⟨⟨⟨h.configured, h.retriever_start, h.retriever_size, h.cache_holds, h.cache_below,
      h.start_le.trans (Nat.le_succ _), Nat.zero_le _, Nat.succ_pos _⟩, .inl rfl⟩, ?_⟩
    rw [ForcedStream.position_next, ← ForcedStream.position_add_due h.start_le h.index_le]
    omega
  · rw [if_neg hdone]
    refine ⟨⟨⟨h.configured, h.retriever_start, h.retriever_size, h.cache_holds, h.cache_below,
      h.start_le, ?_, h.told⟩, .inr ⟨?_, htxs, Nat.not_le.mp hdone⟩⟩, ?_⟩
    · show p.checkpoint.txIndex + n ≤ (F.epochAt p.checkpoint.daHeight).length
      rw [← htxs]
      omega
    · show p.daHeight = p.checkpoint.daHeight
      omega
    · exact (Nat.add_assoc _ _ _).symm

theorem At.skip (h : p.At F) (hnil : p.epochTxs = []) (n : ℕ) :
    (p.advance p.checkpoint.daHeight n).Placed F ∧
      F.position (p.advance p.checkpoint.daHeight n).checkpoint =
        F.position p.checkpoint + (F.due p.checkpoint).length := by
  unfold EpochReader.advance
  rw [if_pos (by rw [hnil]; exact Nat.zero_le _)]
  refine ⟨⟨⟨h.configured, h.retriever_start, h.retriever_size, h.cache_holds, h.cache_below,
    h.start_le.trans (Nat.le_succ _), Nat.zero_le _, Nat.succ_pos _⟩, .inl rfl⟩, ?_⟩
  rw [ForcedStream.position_add_due h.start_le h.index_le]
  rfl

theorem Placed.needsFetch_iff (h : p.Placed F) : p.needsFetch = true ↔ p.epochTxs = [] := by
  have htold := h.told
  simp only [needsFetch, decide_eq_true_eq]
  rcases h.place with hnil | ⟨-, -, hindex⟩
  · simp [hnil, htold]
  constructor
  · intro hneeds
    omega
  · intro hnil
    rw [hnil, length_nil] at hindex
    omega

theorem remaining_of_epoch (htxs : p.epochTxs = F.epochAt p.checkpoint.daHeight) :
    p.remaining = F.due p.checkpoint := by
  unfold remaining ForcedStream.due
  split_ifs with hleft
  · rw [htxs]
  · rw [← htxs, drop_eq_nil_of_le (by omega)]

end

end EpochReader

/-! ## A call of the single sequencer -/

namespace Sequencer

variable {F : ForcedStream} {s : Sequencer} {req : GetNextBatchRequest} {env : CallEnv}

def CatchesUp (s : Sequencer) (env : CallEnv) : Prop :=
  (if s.needsFetch then s.updateCatchUpState env else s).catchUpState = .catchUpInProgress

instance (s : Sequencer) (env : CallEnv) : Decidable (s.CatchesUp env) :=
  inferInstanceAs (Decidable (_ = _))

/-- What a fetch that answers `daHeight` leaves: the epoch is still to come, or at hand, or a height
of it failed and nothing is. -/
structure Fetched (F : ForcedStream) (s : Sequencer) (env : CallEnv) (daHeight : ℕ)
    (f : Sequencer) : Prop where
  reader : f.toEpochReader.At F
  checkpoint_eq : f.checkpoint = s.checkpoint
  daHeight_eq : f.daHeight = s.daHeight
  retriever : f.fiRetriever = s.fiRetriever ∨ f.fiRetriever =
    (s.fiRetriever.retrieveForcedIncludedTxs env.retrieval s.checkpoint.daHeight).2
  outcome :
    (daHeight = 0 ∧ f.epochTxs = [] ∧ f.catchUpState ≠ .catchUpInProgress ∧
        s.checkpoint.daHeight = epochEnd F.start F.size s.checkpoint.daHeight ∧
        ∃ k ∈ s.fiRetriever.heights s.checkpoint.daHeight,
          s.fiRetriever.FutureAt env.retrieval s.checkpoint.daHeight k) ∨
      (daHeight = s.checkpoint.daHeight ∧
        (f.catchUpState = .catchUpInProgress ↔ s.CatchesUp env) ∧
        (s.needsFetch = true →
          s.checkpoint.daHeight = epochEnd F.start F.size s.checkpoint.daHeight →
          ∀ k ∈ s.fiRetriever.heights s.checkpoint.daHeight,
            ¬ s.fiRetriever.FutureAt env.retrieval s.checkpoint.daHeight k) ∧
        (f.epochTxs = F.epochAt s.checkpoint.daHeight ∧ ¬ s.SilentFailure env.retrieval ∨
          f.epochTxs = [] ∧ s.SilentFailure env.retrieval))

theorem fetchIfNeeded_of_placed (h : s.toEpochReader.Placed F)
    (henv : env.retrieval.Truthful F.da) :
    ∃ daHeight, (s.fetchIfNeeded F.maxBytes env).1 = .ok daHeight ∧
      s.Fetched F env daHeight (s.fetchIfNeeded F.maxBytes env).2 := by
  by_cases hneeds : s.needsFetch = true
  · have hif : s.fetchIfNeeded F.maxBytes env = s.fetchNextDAEpoch F.maxBytes env :=
      if_pos hneeds
    have hspec := s.fetchNextDAEpoch_spec F.maxBytes env
    dsimp only at hspec
    rw [hif]
    rcases h.toAt.retrieve_cases henv hneeds with
      ⟨hend, hfuture, k, hres⟩ | ⟨hnow, event, hres, hheight, htxs⟩
    · -- DA has not produced the epoch: the call goes on without it
      rw [hres] at hspec
      rcases hspec with ⟨event, hev, -⟩ |
        ⟨e, he, -, ⟨hout, hstate, hpos | ⟨rfl, -⟩⟩ | ⟨-, -, hbad, -⟩⟩
      · cases hev
      · refine ⟨0, hout, ?_, ?_, ?_, .inr ?_, .inl ⟨rfl, ?_, hstate, hend, hfuture⟩⟩
        · rw [hpos]
          exact h.toAt.retrieve henv _ s.epochTxs
        · rw [hpos]
        · rw [hpos]
        · rw [hpos]
        · rw [hpos]
          exact h.needsFetch_iff.mp hneeds
      · cases he
      · exact absurd (error.inj he).symm (hbad k)
    · rw [hres] at hspec
      rcases hspec with ⟨event', hev, hout, hpos, hstate, -⟩ | ⟨e, he, -⟩
      · obtain rfl := ok.inj hev
        refine ⟨_, hout, ?_, ?_, ?_, .inr ?_, .inr ⟨hheight, ?_, fun _ => hnow, ?_⟩⟩
        · rw [hpos]
          exact h.toAt.retrieve henv _ _
        · rw [hpos]
          rfl
        · rw [hpos]
          rfl
        · rw [hpos]
          rfl
        · rw [hstate, CatchesUp, if_pos hneeds]
        · rw [hpos]
          rcases htxs with htxs | ⟨htxs, hsilent⟩
          · exact .inl htxs
          · refine .inr ⟨?_, hsilent⟩
            show dropOversized F.maxBytes event.txs = []
            rw [htxs]
            rfl
      · cases he
  · have hif : s.fetchIfNeeded F.maxBytes env = (.ok s.daHeight, s) := if_neg hneeds
    rcases h.place with hnil | ⟨htold, htxs, -⟩
    · exact absurd (h.needsFetch_iff.mpr hnil) hneeds
    · rw [hif]
      exact ⟨s.daHeight, rfl, h.toAt, rfl, rfl, .inl rfl, .inr ⟨htold,
        by rw [CatchesUp, if_neg hneeds], fun hn => absurd hn hneeds,
        .inl ⟨htxs, fun hsilent => hneeds hsilent.1.1⟩⟩⟩

theorem collect_of_placed (h : s.toEpochReader.Placed F) (hid : s.id = req.id)
    (hlimit : req.maxBytes = F.maxBytes) (henv : env.retrieval.Truthful F.da) :
    ∃ c, (s.collect req env).1 = .ok c ∧ s.getNextBatch req env = finish c req env ∧
      s.Fetched F env c.daHeight c.seq ∧ c.forcedTxs = c.seq.remaining := by
  have hboot : s.bootstrap = s :=
    bootstrap_eq_self (Nat.ne_of_gt (F.start_pos.trans_le h.start_le))
  obtain ⟨daHeight, hfetch, hfetched⟩ := fetchIfNeeded_of_placed h henv
  obtain ⟨c, hc, hcall⟩ : ∃ c, (s.collect req env).1 = .ok c ∧
      s.getNextBatch req env = finish c req env := by
    unfold getNextBatch collect
    rw [if_neg (not_not.mpr hid), hboot, hlimit]
    dsimp only
    rw [hfetch]
    exact ⟨_, rfl, rfl⟩
  obtain ⟨hheight, -, hforced, -⟩ := collect_ok hc
  obtain ⟨hreader, hstate, -⟩ := collect_frame hc
  rw [hboot, hlimit] at hheight hforced hreader hstate
  obtain rfl := ok.inj (hfetch.symm.trans hheight)
  refine ⟨c, hc, hcall, ⟨?_, ?_, ?_, ?_, ?_⟩, ?_⟩
  · rw [hreader]
    exact hfetched.reader
  · rw [hreader]
    exact hfetched.checkpoint_eq
  · rw [hreader]
    exact hfetched.daHeight_eq
  · rw [hreader]
    exact hfetched.retriever
  · rw [hreader, hstate]
    exact hfetched.outcome
  · rw [hforced, hreader]

end Sequencer

end ChainSdk

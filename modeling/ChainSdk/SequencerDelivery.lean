/-
What a sequencer in a given state will still hand out.

"Eventually" is read as: once the outside world cooperates (DA answers, the filter accepts
everything, writes go through), finitely many calls are enough, and it does not matter how the wall
clock or the background prefetching behave in the meantime.
-/
import ChainSdk.ForcedStream
import ChainSdk.SequencerMempool

namespace ChainSdk

open EpochReader ForcedInclusionRetriever ForcedStream List Sequencer

/-! ## Handing out -/

namespace Sequencer

def next (s : Sequencer) (c : GetNextBatchRequest × CallEnv) : Sequencer :=
  (s.getNextBatch c.1 c.2).2

/-- The transactions a call answers with. -/
def returned (s : Sequencer) (c : GetNextBatchRequest × CallEnv) : List Tx :=
  match (s.getNextBatch c.1 c.2).1 with
  | .ok resp => resp.batch.transactions
  | .error _ => []

def moved (F : ForcedStream) (s : Sequencer) (c : GetNextBatchRequest × CallEnv) : ℕ :=
  F.position (s.next c).checkpoint - F.position s.checkpoint

/-- The call hands out `tx` as number `i` of the forced stream: it moves past that number and
has `tx` at the place of the batch that belongs to it. -/
def HandsOut (F : ForcedStream) (s : Sequencer) (c : GetNextBatchRequest × CallEnv) (i : ℕ)
    (tx : Tx) : Prop :=
  F.position s.checkpoint ≤ i ∧ i < F.position (s.next c).checkpoint ∧
    (s.returned c)[i - F.position s.checkpoint]? = some tx

def mempoolReturned (F : ForcedStream) (s : Sequencer) (c : GetNextBatchRequest × CallEnv) :
    List Tx :=
  (s.returned c).drop (s.moved F c)

end Sequencer

/-- DA has every height up to `tip` and none above, the filter accepts everything and the datastore
takes every write. -/
structure Cooperative (F : ForcedStream) (id : Bytes) (tip : ℕ)
    (c : GetNextBatchRequest × CallEnv) : Prop where
  id_eq : c.1.id = id
  limit : c.1.maxBytes = F.maxBytes
  truthful : c.2.retrieval.Truthful F.da
  present : ∀ h ≤ tip, (c.2.retrieval.retrieve h).code = .success ∨
    (c.2.retrieval.retrieve h).code = .notFound
  future : ∀ h, tip < h → (c.2.retrieval.retrieve h).code = .heightFromFuture
  prefetched : ∀ h target result, .prefetch target result ∈ c.2.retrieval.background h →
    tip < target → result.code = .heightFromFuture
  accepts : ∀ txs maxBytes maxGas hasForced, c.2.filter.filterTxs txs maxBytes maxGas hasForced =
    .ok (List.replicate txs.length .filterOK)
  writes : c.2.WritesSucceed

/-- Whatever DA produces, up to any epoch end, enough cooperative calls hand out every forced
transaction from number `pos` on, and all of `mempool`. -/
def Sequencer.HandsOutAll (F : ForcedStream) (s : Sequencer) (pos : ℕ) (mempool : List Tx) :
    Prop :=
  ∀ tip, F.start ≤ tip → tip = epochEnd F.start F.size tip →
    ∃ enough, ∀ calls, enough ≤ calls.length → (∀ c ∈ calls, Cooperative F s.id tip c) →
      (∀ i tx, pos ≤ i → (F.upTo (tip + 1))[i]? = some tx →
        ∃ p ∈ Runs.steps next s calls, p.1.HandsOut F p.2 i tx) ∧
      mempool.Subperm
        (Runs.outputs next (mempoolReturned F) s calls).flatten

/-! ## One cooperative call -/

theorem consumeForced_accept (txs : List Tx) :
    consumeForced txs (List.replicate txs.length .filterOK) = (txs, txs.length) := by
  induction txs with
  | nil => rfl
  | cons tx txs ih =>
    rw [length_cons, replicate_succ, consumeForced, ih]

namespace Sequencer

theorem Collected.accepted {c : Collected} (hstatuses : c.filterStatuses =
      List.replicate (c.forcedTxs.length + c.mempoolTxs.length) .filterOK) :
    c.forced = (c.forcedTxs, c.forcedTxs.length) ∧ c.mempoolWith .filterOK = c.mempoolTxs ∧
      c.mempoolWith .filterPostpone = [] := by
  have hforced : c.filterStatuses.take c.forcedTxs.length =
      List.replicate c.forcedTxs.length .filterOK := by
    rw [hstatuses, take_replicate, Nat.min_eq_left (Nat.le_add_right _ _)]
  have hmempool : c.filterStatuses.drop c.forcedTxs.length =
      List.replicate c.mempoolTxs.length .filterOK := by
    rw [hstatuses, drop_replicate, Nat.add_sub_cancel_left]
  -- every pair of the zip carries the accepting status
  have hall : ∀ p ∈ c.mempoolTxs.zip (List.replicate c.mempoolTxs.length FilterStatus.filterOK),
      p.2 = .filterOK :=
    fun p hp => eq_of_mem_replicate (of_mem_zip hp).2
  refine ⟨?_, ?_, ?_⟩
  · rw [Collected.forced, hforced, consumeForced_accept]
  · rw [Collected.mempoolWith, hmempool,
      filter_eq_self.mpr (fun p hp => decide_eq_true (hall p hp)),
      map_fst_zip (by rw [length_replicate])]
  · rw [Collected.mempoolWith, hmempool, filter_eq_nil_iff.mpr, map_nil]
    intro p hp
    rw [hall p hp]
    simp

/-- The measure of progress towards the epoch end `last`. -/
def remainingWork (last : ℕ) (s : Sequencer) : ℕ :=
  (last - s.checkpoint.daHeight) + s.queued.length

/-- A sequencer on its way to the epoch end `last`, which it will find missing. -/
structure Underway (F : ForcedStream) (id : Bytes) (last : ℕ) (s : Sequencer) : Prop where
  placed : s.toEpochReader.Placed F
  id_eq : s.id = id
  uncached : s.fiRetriever.asyncFetcher.Caches (fun h _ => h ≠ last)
  checkpoint_le : s.checkpoint.daHeight ≤ last
  at_last : s.checkpoint.daHeight = last → s.epochTxs = []

/-- Everything up to the tip is handed out. -/
def Finished (tip : ℕ) (s : Sequencer) : Prop :=
  tip < s.checkpoint.daHeight ∧ s.queued = []

end Sequencer

section

variable {F : ForcedStream} {id : Bytes} {tip last : ℕ} {s : Sequencer}
  {c : GetNextBatchRequest × CallEnv}

namespace Cooperative

theorem prefetches (hc : Cooperative F id tip c) (hlt : tip < last) :
    c.2.retrieval.Prefetches (fun h _ => h ≠ last) := by
  rintro h target result hmem block hblock rfl
  rw [ResultRetrieve.toCache, hc.prefetched h target result hmem hlt] at hblock
  cases hblock

theorem not_silent (hc : Cooperative F id tip c) (p : EpochReader) :
    ¬ p.SilentFailure c.2.retrieval := by
  rintro ⟨-, ⟨h, -, -, hfuture, hsuccess, hnotFound⟩, -⟩
  rcases Nat.lt_or_ge tip h with hlt | hle
  · exact hfuture (hc.future h hlt)
  · rcases hc.present h hle with hcode | hcode
    · exact hsuccess hcode
    · exact hnotFound hcode

end Cooperative

namespace Sequencer

/-- A cooperative call answers with the forced transactions that are due and the batch it has
popped, and there is less to do afterwards unless all has been handed out. -/
structure Delivers (F : ForcedStream) (tip last : ℕ) (s : Sequencer)
    (c : GetNextBatchRequest × CallEnv) (forced mempool : List Tx) : Prop where
  returned_eq : s.returned c = forced ++ mempool
  forced_eq : forced = F.due s.checkpoint ∨ forced = []
  position_eq : F.position (s.next c).checkpoint = F.position s.checkpoint + forced.length
  height_le : s.checkpoint.daHeight ≤ (s.next c).checkpoint.daHeight
  queuedTxs_eq : s.queuedTxs = mempool ++ (s.next c).queuedTxs
  queued_le : (s.next c).queued.length ≤ s.queued.length
  less : ¬ Finished tip s → (s.next c).remainingWork last < s.remainingWork last

section

variable (h : s.Underway F id last) (hc : Cooperative F id tip c)
include h hc

theorem Underway.collect :
    ∃ col, s.Fetched F c.2 col.daHeight col.seq ∧ col.forcedTxs = col.seq.remaining ∧
      s.next c = (finish col c.1 c.2).2 ∧ s.returned c = col.forcedTxs ++ col.mempoolTxs ∧
      col.forced.2 = col.forcedTxs.length ∧
      (s.next c).queued =
        (if col.seq.catchUpState = .catchUpInProgress then s.queued else s.queued.tail) ∧
      s.queuedTxs = col.mempoolTxs ++ (s.next c).queuedTxs := by
  obtain ⟨col, hcol, hcall, hfetched, hforcedTxs⟩ := collect_of_placed h.placed
    (h.id_eq.trans hc.id_eq.symm) hc.limit hc.truthful
  obtain ⟨-, -, -, -, hstatuses⟩ := collect_ok hcol
  unfold statusesOrAccept at hstatuses
  rw [hc.accepts, length_append] at hstatuses
  obtain ⟨hforced, hok, hpostponed⟩ := Collected.accepted hstatuses
  obtain ⟨rest, hbefore, hrest, hafter⟩ := finish_queued hcol
  have hnext : s.next c = (finish col c.1 c.2).2 := congrArg Prod.snd hcall
  rw [hpostponed, ite_self, ← hnext] at hafter
  have hqueued : (s.next c).queued = rest := hafter
  refine ⟨col, hfetched, hforcedTxs, hnext, ?_, by rw [hforced], hqueued.trans hrest, ?_⟩
  · -- with every write going through the answer is a batch, or there is nothing to hand out
    have hresult := finish_result col c.1 c.2
    rw [← hcall, hc.writes.saved, if_neg (by simp), Collected.batchTxs, hforced, hok] at hresult
    unfold returned
    rw [hresult]
    split_ifs with hempty
    · exact (length_eq_zero_iff.mp hempty.2).symm
    · rfl
  · rw [hbefore, queuedTxs, hqueued]

theorem Underway.waits
    {k : ℕ} (hend : s.checkpoint.daHeight = epochEnd F.start F.size s.checkpoint.daHeight)
    (hk : k ∈ s.fiRetriever.heights s.checkpoint.daHeight)
    (hfuture : s.fiRetriever.FutureAt c.2.retrieval s.checkpoint.daHeight k) :
    tip < s.checkpoint.daHeight := by
  have hlast := h.placed.lastHeight_eq s.checkpoint.daHeight
  rw [heights_eq_of_end (hend.trans hlast.symm), mem_range'_1] at hk
  by_contra hle
  rcases hc.present k (by omega) with hcode | hcode
  · rw [hfuture.2] at hcode
    cases hcode
  · rw [hfuture.2] at hcode
    cases hcode

theorem Underway.lt_last (hlt : tip < last) (hlast : last = epochEnd F.start F.size last)
    (hnow : s.needsFetch = true →
      s.checkpoint.daHeight = epochEnd F.start F.size s.checkpoint.daHeight →
      ∀ k ∈ s.fiRetriever.heights s.checkpoint.daHeight,
        ¬ s.fiRetriever.FutureAt c.2.retrieval s.checkpoint.daHeight k) :
    s.checkpoint.daHeight < last := by
  by_contra hge
  have heq : s.checkpoint.daHeight = last := Nat.le_antisymm h.checkpoint_le (Nat.not_lt.mp hge)
  have hneeds : s.needsFetch = true := h.placed.needsFetch_iff.mpr (h.at_last heq)
  rw [heq] at hnow
  have hend : last = s.fiRetriever.lastHeight last :=
    hlast.trans (h.placed.lastHeight_eq last).symm
  have hmem : last ∈ s.fiRetriever.heights last := by
    have hfirst : s.fiRetriever.firstHeight last ≤ last := by
      rw [firstHeight, h.placed.retriever_start, h.placed.retriever_size]
      exact epochStart_le F.size_pos (heq ▸ h.placed.start_le)
    rw [heights_eq_of_end hend, mem_range'_1]
    omega
  apply hnow hneeds hlast last hmem
  refine ⟨?_, hc.future last hlt⟩
  by_contra hcached
  obtain ⟨block, hblock⟩ := Option.ne_none_iff_exists'.mp hcached
  exact cachedAt_caches (hc.prefetches hlt) h.uncached hblock rfl

theorem Underway.step (hlt : tip < last) (hlast : last = epochEnd F.start F.size last) :
    (s.next c).Underway F id last ∧
      ∃ forced mempool, s.Delivers F tip last c forced mempool := by
  obtain ⟨col, hfetched, hforcedTxs, hnext, hreturned, hall, hqueued, hqueuedTxs⟩ :=
    h.collect hc
  have hid : (s.next c).id = id := (s.getNextBatch_id c.1 c.2).trans h.id_eq
  have hreader := finish_toEpochReader col c.1 c.2
  rw [← hnext] at hreader
  have hshort : (s.next c).queued.length ≤ s.queued.length := by
    rw [hqueued]
    split_ifs
    · exact le_rfl
    · rw [length_tail]
      exact Nat.sub_le _ _
  -- the prefetcher still does not know the missing epoch end
  have huncached : col.seq.fiRetriever.asyncFetcher.Caches (fun h _ => h ≠ last) := by
    rcases hfetched.retriever with hsame | hret
    · rw [hsame]
      exact h.uncached
    · rw [hret]
      exact retrieve_caches (hc.prefetches hlt) h.uncached
  rcases hfetched.outcome with
    ⟨hzero, hnil, hdone, hend, k, hk, hfuture⟩ |
    ⟨hheight, -, hnow, ⟨htxs, -⟩ | ⟨-, hsilent⟩⟩
  · -- DA has nothing for the sequencer, so it serves its queue
    have hnone : col.forcedTxs = [] := by
      rw [hforcedTxs, remaining_of_nil hnil]
    rw [hzero, hnone, if_neg (by simp)] at hreader
    have hcp : (s.next c).checkpoint = s.checkpoint := by
      rw [hreader, hfetched.checkpoint_eq]
    have htip := h.waits hc hend hk hfuture
    refine ⟨⟨?_, hid, ?_, ?_, ?_⟩, [], col.mempoolTxs, ⟨?_, .inr rfl, ?_, ?_, hqueuedTxs,
      hshort, ?_⟩⟩
    · rw [hreader]
      exact ⟨hfetched.reader, .inl hnil⟩
    · rw [hreader]
      exact huncached
    · rw [hcp]
      exact h.checkpoint_le
    · intro _
      rw [hreader]
      exact hnil
    · rw [hreturned, hnone]
    · rw [hcp, length_nil, Nat.add_zero]
    · rw [hcp]
    · intro hnot
      have hne : s.queued ≠ [] := fun hempty => hnot ⟨htip, hempty⟩
      have hpos := length_pos_iff.mpr hne
      unfold remainingWork
      rw [hcp, hqueued, if_neg hdone, length_tail]
      omega
  · -- the epoch is there and is handed out to its end
    have hlt' := h.lt_last hc hlt hlast hnow
    have hpos : 0 < s.checkpoint.daHeight := F.start_pos.trans_le h.placed.start_le
    rw [← hfetched.checkpoint_eq] at htxs hheight
    have hdue : col.forcedTxs = F.due s.checkpoint := by
      rw [hforcedTxs, remaining_of_epoch htxs, hfetched.checkpoint_eq]
    have hlen : col.forced.2 = (F.due col.seq.checkpoint).length := by
      rw [hall, hdue, hfetched.checkpoint_eq]
    rw [hheight, if_pos (.inl (by rw [hfetched.checkpoint_eq]; exact hpos))] at hreader
    obtain ⟨hplaced, hposition⟩ := hfetched.reader.advance htxs (Nat.le_of_eq hlen)
      (.inr hlen)
    have hcp : (s.next c).checkpoint = ⟨s.checkpoint.daHeight + 1, 0⟩ ∧
        (s.next c).epochTxs = [] := by
      rw [hreader, advance, if_pos, hfetched.checkpoint_eq]
      · exact ⟨rfl, rfl⟩
      · rw [hlen, ForcedStream.due, length_drop, htxs]
        omega
    refine ⟨⟨?_, hid, ?_, ?_, fun _ => hcp.2⟩, col.forcedTxs, col.mempoolTxs,
      ⟨hreturned, .inl hdue, ?_, ?_, hqueuedTxs, hshort, ?_⟩⟩
    · rw [hreader]
      exact hplaced
    · rw [hreader, advance_fiRetriever]
      exact huncached
    · rw [hcp.1]
      exact hlt'
    · rw [hreader, hposition, hall, hfetched.checkpoint_eq]
    · rw [hcp.1]
      exact Nat.le_succ _
    · intro _
      unfold remainingWork
      rw [hcp.1]
      dsimp only
      omega
  · exact absurd hsilent (hc.not_silent _)

end

/-! ## Runs of cooperative calls -/

theorem Delivers.handsOut {forced mempool : List Tx} {i : ℕ} {tx : Tx}
    (h : s.Delivers F tip last c forced mempool) (hstart : F.start ≤ s.checkpoint.daHeight)
    (htip : F.start ≤ tip) (hindex : s.checkpoint.txIndex ≤
      (F.epochAt s.checkpoint.daHeight).length)
    (hlow : F.position s.checkpoint ≤ i) (hhigh : i < F.position (s.next c).checkpoint)
    (htx : (F.upTo (tip + 1))[i]? = some tx) : s.HandsOut F c i tx := by
  refine ⟨hlow, hhigh, ?_⟩
  have hlt : i - F.position s.checkpoint < forced.length := by
    rw [h.position_eq] at hhigh
    omega
  rw [h.returned_eq, List.getElem?_append_left hlt]
  rcases h.forced_eq with hdue | hnil
  · have hend := position_add_due hstart hindex
    rw [hdue] at hlt
    rw [hdue, ForcedStream.getElem?_due hstart, show F.position s.checkpoint +
      (i - F.position s.checkpoint) = i by omega]
    exact ForcedStream.getElem?_upTo (htip.trans (Nat.le_succ _)) (hstart.trans (Nat.le_succ _))
      htx (by omega)
  · rw [hnil] at hlt
    exact absurd hlt (Nat.not_lt_zero _)

theorem Delivers.mempoolReturned_eq {forced mempool : List Tx}
    (h : s.Delivers F tip last c forced mempool) : s.mempoolReturned F c = mempool := by
  rw [mempoolReturned, moved, h.position_eq, h.returned_eq, Nat.add_sub_cancel_left, drop_left]

/-- What a run of cooperative calls leaves. -/
structure Delivered (F : ForcedStream) (tip last : ℕ) (s : Sequencer)
    (calls : List (GetNextBatchRequest × CallEnv)) (s' : Sequencer) : Prop where
  position_le : F.position s.checkpoint ≤ F.position s'.checkpoint
  handedOut : ∀ i tx, F.position s.checkpoint ≤ i → i < F.position s'.checkpoint →
    (F.upTo (tip + 1))[i]? = some tx →
    ∃ p ∈ Runs.steps next s calls, p.1.HandsOut F p.2 i tx
  queuedTxs_eq : s.queuedTxs =
    (Runs.outputs next (mempoolReturned F) s calls).flatten ++ s'.queuedTxs
  finished : s.remainingWork last ≤ calls.length ∨ s.Finished tip → s'.Finished tip

theorem Underway.run (htip : F.start ≤ tip) (hlt : tip < last)
    (hlast : last = epochEnd F.start F.size last)
    (calls : List (GetNextBatchRequest × CallEnv)) (h : s.Underway F id last)
    (hcalls : ∀ c ∈ calls, Cooperative F id tip c) :
    (calls.foldl next s).Underway F id last ∧
      s.Delivered F tip last calls (calls.foldl next s) := by
  induction calls generalizing s with
  | nil =>
    refine ⟨h, le_rfl, ?_, rfl, ?_⟩
    · intro i tx hlow hhigh
      exact absurd hhigh (Nat.not_lt.mpr hlow)
    · rintro (hzero | hfinished)
      · -- no work left means that the missing epoch end has been reached
        simp only [remainingWork, length_nil, Nat.le_zero, Nat.add_eq_zero_iff,
          length_eq_zero_iff] at hzero
        rw [foldl_nil]
        exact ⟨by omega, hzero.2⟩
      · exact hfinished
  | cons c calls ih =>
    obtain ⟨hnext, forced, mempool, hdelivers⟩ :=
      h.step (hcalls c mem_cons_self) hlt hlast
    obtain ⟨hend, hrest⟩ := ih hnext (fun d hd => hcalls d (mem_cons_of_mem c hd))
    have hmove : F.position s.checkpoint ≤ F.position (s.next c).checkpoint := by
      rw [hdelivers.position_eq]
      exact Nat.le_add_right _ _
    refine ⟨hend, hmove.trans hrest.position_le, ?_, ?_, ?_⟩
    · intro i tx hlow hhigh htx
      by_cases hnow : i < F.position (s.next c).checkpoint
      · exact ⟨(s, c), mem_cons_self, hdelivers.handsOut h.placed.start_le htip
          h.placed.index_le hlow hnow htx⟩
      · obtain ⟨p, hp, hout⟩ := hrest.handedOut i tx (Nat.not_lt.mp hnow) hhigh htx
        exact ⟨p, mem_cons_of_mem _ hp, hout⟩
    · rw [Runs.outputs_cons, flatten_cons, hdelivers.mempoolReturned_eq,
        append_assoc, hdelivers.queuedTxs_eq, foldl_cons, ← hrest.queuedTxs_eq]
    · intro henough
      apply hrest.finished
      by_cases hfinished : s.Finished tip
      · refine .inr ⟨hfinished.1.trans_le hdelivers.height_le, ?_⟩
        have hshort := hdelivers.queued_le
        rw [hfinished.2] at hshort
        exact length_eq_zero_iff.mp (Nat.le_zero.mp hshort)
      · have hless := hdelivers.less hfinished
        have hlen := henough.resolve_right hfinished
        rw [length_cons] at hlen
        exact .inl (by omega)

/-! ## The future of a state -/

theorem exists_underway (h : s.toEpochReader.Placed F) (tip : ℕ) :
    ∃ last, tip < last ∧ last = epochEnd F.start F.size last ∧ s.Underway F s.id last := by
  obtain ⟨bound, hbound⟩ := h.cache_below
  obtain ⟨last, hle, -, hend⟩ := F.exists_end (bound + (tip + 1) + (s.checkpoint.daHeight + 1))
  refine ⟨last, by omega, hend, h, rfl, ?_, by omega, fun hat => by omega⟩
  intro k block hblock
  have hk := hbound k block hblock
  omega

end Sequencer

end

/-- A call on a DA layer with the heights up to `tip` and an execution client that takes
everything. -/
def cooperativeCall (F : ForcedStream) (id : Bytes) (tip : ℕ) : GetNextBatchRequest × CallEnv :=
  (⟨id, F.maxBytes, []⟩,
    { retrieval := ⟨repliesUpTo F.da tip, fun _ => []⟩
      latestDAHeight := .ok tip
      executionInfo := .ok ⟨0⟩
      filter := ⟨fun txs _ _ _ => .ok (List.replicate txs.length .filterOK), by
        intro txs maxBytes maxGas forced statuses hok
        rw [← Except.ok.inj hok, length_replicate]⟩
      now := 0
      queueDeleted := true
      queueWritten := true
      checkpointSaved := true })

theorem cooperativeCall_cooperative (F : ForcedStream) (id : Bytes) (tip : ℕ) :
    Cooperative F id tip (cooperativeCall F id tip) where
  id_eq := rfl
  limit := rfl
  truthful := ⟨fun h => (repliesUpTo_honest F.da tip h).truthful, fun _ _ _ h => by cases h⟩
  present := by
    intro h hle
    exact .inl (congrArg ResultRetrieve.code (if_pos hle))
  future := by
    intro h hlt
    exact congrArg ResultRetrieve.code (if_neg (Nat.not_le.mpr hlt))
  prefetched := fun _ _ _ h => by cases h
  accepts := fun _ _ _ _ => rfl
  writes := ⟨rfl, rfl, rfl⟩

/-- What a sequencer will hand out is decided by its position and its queue: every forced
transaction from its position on and none before, and what is queued and nothing else. -/
theorem Sequencer.handsOutAll_iff {F : ForcedStream} {s : Sequencer}
    (h : s.toEpochReader.Placed F) (pos : ℕ) (mempool : List Tx) :
    s.HandsOutAll F pos mempool ↔
      F.position s.checkpoint ≤ pos ∧ mempool.Subperm s.queuedTxs := by
  constructor
  · intro hall
    -- the promise is taken at the end of the epoch the checkpoint stands in
    obtain ⟨tip, hle, hstart, hend⟩ := F.exists_end s.checkpoint.daHeight
    obtain ⟨last, hlt, hlast, hunderway⟩ := exists_underway h tip
    obtain ⟨enough, hcalls⟩ := hall tip hstart hend
    have hcoop : ∀ c ∈ List.replicate enough (cooperativeCall F s.id tip),
        Cooperative F s.id tip c := by
      intro c hc
      rw [eq_of_mem_replicate hc]
      exact cooperativeCall_cooperative F s.id tip
    obtain ⟨hforced, hmempool⟩ := hcalls (List.replicate enough (cooperativeCall F s.id tip))
      (Nat.le_of_eq (length_replicate).symm) hcoop
    constructor
    · by_contra hbehind
      -- the transaction at `pos` exists, and only a call from before it could hand it out
      have hlen : pos < (F.upTo (tip + 1)).length := by
        have hposition := position_add_due h.start_le h.index_le
        have hprefix : (F.upTo (s.checkpoint.daHeight + 1)).length ≤ (F.upTo (tip + 1)).length :=
          (upTo_isPrefix (h.start_le.trans (Nat.le_succ _))
            (Nat.succ_le_succ hle)).length_le
        omega
      obtain ⟨p, hp, hlow, -⟩ := hforced pos _ le_rfl (List.getElem?_eq_getElem hlen)
      obtain ⟨pre, post, hsplit, hstate⟩ :=
        (Runs.mem_steps_iff next s p.1 p.2 _).mp hp
      obtain ⟨-, hrun⟩ := hunderway.run hstart hlt hlast pre
        (fun c hc => hcoop c (hsplit ▸ mem_append_left _ hc))
      rw [hstate] at hlow
      have hle' := hrun.position_le
      omega
    · obtain ⟨-, hrun⟩ := hunderway.run hstart hlt hlast _ hcoop
      rw [hrun.queuedTxs_eq]
      exact hmempool.trans (sublist_append_left _ _).subperm
  · rintro ⟨hpos, hsub⟩ tip hstart hend
    obtain ⟨last, hlt, hlast, hunderway⟩ := exists_underway h tip
    refine ⟨s.remainingWork last, fun calls henough hcalls => ?_⟩
    obtain ⟨hafter, hrun⟩ := hunderway.run hstart hlt hlast calls hcalls
    obtain ⟨hpast, hempty⟩ := hrun.finished (.inl henough)
    constructor
    · intro i tx hi htx
      -- past the tip every number of the stream up to there is behind the checkpoint
      have hlen : (F.upTo (tip + 1)).length ≤
          F.position (calls.foldl next s).checkpoint := by
        have hprefix := (upTo_isPrefix (hstart.trans (Nat.le_succ _))
          hpast).length_le
        exact hprefix.trans (Nat.le_add_right _ _)
      have hlt' := (List.getElem?_eq_some_iff.mp htx).1
      exact hrun.handedOut i tx (hpos.trans hi) (hlt'.trans_le hlen) htx
    · have hall := hrun.queuedTxs_eq
      have hnone : (calls.foldl next s).queuedTxs = [] := by
        rw [queuedTxs, hempty, flatMap_nil]
      rw [hnone, append_nil] at hall
      rw [← hall]
      exact hsub

end ChainSdk

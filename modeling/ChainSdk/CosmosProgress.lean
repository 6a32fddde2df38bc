/-
Progress with the filter of the shipped execution client, `CosmosExecutor.FilterTxs`, which counts
bytes from the front and postpones what does not fit.

Forced transactions larger than a block are dropped when an epoch is fetched, so the first one left
always fits. Nobody does this for the mempool.
-/
import ChainSdk.BlobSizes

namespace ChainSdk

open EpochReader List Runs

/-! ## The filter -/

theorem all_postponed_iff {maxBytes : ℕ} (hpos : 0 < maxBytes) (txs : List Tx) :
    (∀ status ∈ cosmosFilterLoop maxBytes 0 txs, status = .filterPostpone) ↔
      ∀ tx ∈ txs, maxBytes < tx.length := by
  induction txs with
  | nil => simp [cosmosFilterLoop]
  | cons tx txs ih =>
    unfold cosmosFilterLoop
    split_ifs with hempty hover
    · simp [hempty]
    · rw [forall_mem_cons, forall_mem_cons, ih]
      exact and_congr_left fun _ => iff_of_true rfl (by omega)
    · rw [forall_mem_cons, forall_mem_cons]
      exact iff_of_false (by simp) fun h => hover ⟨hpos, by omega⟩

/-! ## Forced transactions -/

section

variable {p p' : EpochReader} {maxBytes : ℕ}

def EpochReader.FitsIn (maxBytes : ℕ) (p : EpochReader) : Prop :=
  ∀ tx ∈ p.epochTxs, tx.length ≤ maxBytes

theorem EpochReader.FitsIn.advance (hp : p.FitsIn maxBytes) (daHeight n : ℕ) :
    (p.advance daHeight n).FitsIn maxBytes := by
  unfold EpochReader.advance
  split_ifs
  · exact fun _ hmem => absurd hmem not_mem_nil
  · exact hp

theorem EpochReader.FitsIn.step {env : RetrieveEnv} {taken : List Tx} (hp : p.FitsIn maxBytes)
    (hstep : Step maxBytes env p p' taken) : p'.FitsIn maxBytes := by
  have htaken : ∀ event r, (p.takeEpoch maxBytes event r).FitsIn maxBytes :=
    fun event r tx hmem => by simpa using (mem_filter.mp hmem).2
  cases hstep with
  | idle | notFetched => exact hp
  | notConfigured => exact fun _ hmem => absurd hmem not_mem_nil
  | fetched q event n hneeds hres htake => exact (htake ▸ htaken _ _).advance _ _
  | fetchedNothing q event hneeds hres htake => exact htake ▸ htaken _ _
  | served n => exact hp.advance _ _

/-- The forced transactions a call is to work on: what is left of the cached ones or, when it has
to fetch the epoch at the checkpoint, those of that epoch that fit into a block, from the
checkpoint's index on. -/
def EpochReader.atHand (p : EpochReader) (maxBytes : ℕ) (env : RetrieveEnv) : List Tx :=
  if p.needsFetch then
    match (p.fiRetriever.retrieveForcedIncludedTxs env p.checkpoint.daHeight).1 with
    | .ok event => (event.txs.filter (fun tx => tx.length ≤ maxBytes)).drop p.checkpoint.txIndex
    | .error _ => []
  else p.remaining

end

inductive ForcedSequencer
  | single (s : Sequencer)
  | based (b : BasedSequencer)

namespace ForcedSequencer

/-- The position the next call starts from. -/
def position : ForcedSequencer → EpochReader
  | .single s => s.bootstrap.toEpochReader
  | .based b => b.toEpochReader

def getNextBatch (req : GetNextBatchRequest) (env : CallEnv) :
    ForcedSequencer → Except SequencerError GetNextBatchResponse × ForcedSequencer
  | .single s => ((s.getNextBatch req env).1, .single (s.getNextBatch req env).2)
  | .based b => ((b.getNextBatch req env).1, .based (b.getNextBatch req env).2)

def Returns (q : ForcedSequencer) (c : GetNextBatchRequest × CallEnv) : Prop :=
  (∃ res, (q.getNextBatch c.1 c.2).1 = .ok res) ∨ (q.getNextBatch c.1 c.2).1 = .error .noBatch

inductive Event
  | call (c : GetNextBatchRequest × CallEnv)
  | setDAHeight (height : ℕ)
  | submitBatchTxs (id : Bytes) (batch : Batch) (written : Bool)

/-- What happens to a sequencer. The based one has no use for batches. -/
def step (q : ForcedSequencer) : Event → ForcedSequencer
  | .call c => (q.getNextBatch c.1 c.2).2
  | .setDAHeight height =>
    match q with
    | .single s => .single (s.setDAHeight height)
    | .based b => .based (b.setDAHeight height)
  | .submitBatchTxs id batch written =>
    match q with
    | .single s => .single (s.submitBatchTxs id batch written).2
    | .based b => .based b

/-- The call is with the limit and the shipped filter, and its context is not cancelled. -/
def Shipped (maxBytes : ℕ) (c : GetNextBatchRequest × CallEnv) : Prop :=
  c.1.maxBytes = maxBytes ∧ c.2.filter = cosmosFilterTxs false

def Event.Shipped (maxBytes : ℕ) : Event → Prop
  | .call c => ForcedSequencer.Shipped maxBytes c
  | _ => True

variable {q : ForcedSequencer} {maxBytes : ℕ} {c : GetNextBatchRequest × CallEnv}

/-- See `EpochReader.atHand`. -/
def atHand (q : ForcedSequencer) (c : GetNextBatchRequest × CallEnv) : List Tx :=
  q.position.atHand c.1.maxBytes c.2.retrieval

end ForcedSequencer

/-- A call that answers, is not catching up, and has no forced transactions at the filter. -/
structure Sequencer.MempoolCall (maxBytes : ℕ) (s : Sequencer)
    (c : GetNextBatchRequest × CallEnv) : Prop where
  shipped : ForcedSequencer.Shipped maxBytes c
  written : c.2.queueWritten = true
  returns : (∃ res, (s.getNextBatch c.1 c.2).1 = .ok res) ∨
    (s.getNextBatch c.1 c.2).1 = .error .noBatch
  unforced : (s.bootstrap.fetchIfNeeded c.1.maxBytes c.2).2.remaining = []
  present : (s.bootstrap.fetchIfNeeded c.1.maxBytes c.2).2.catchUpState ≠ .catchUpInProgress

section

variable {maxBytes : ℕ} {s : Sequencer} {c : GetNextBatchRequest × CallEnv}

/-- The first batch is replaced by what is postponed of it. -/
theorem Sequencer.MempoolCall.queued (h : s.MempoolCall maxBytes c) (hpos : 0 < maxBytes)
    {front : Batch} {batches : List Batch} (hqueue : s.queued = front :: batches) :
    ∃ postponed, (s.getNextBatch c.1 c.2).2.queued = asBatch postponed ++ batches ∧
      postponed.Sublist front.transactions ∧
      (s.getNextBatch c.1 c.2).2.queuedTxs = postponed ++ batches.flatMap Batch.transactions ∧
      s.queuedTxs = front.transactions ++ batches.flatMap Batch.transactions ∧
      (postponed.length < front.transactions.length ↔
        ∃ tx ∈ front.transactions, tx.length ≤ maxBytes) := by
  obtain ⟨rfl, hfilter⟩ := h.shipped
  obtain ⟨-, col, hcol, hfinish⟩ := getNextBatch_collected h.returns
  obtain ⟨-, hseq, hforced, -, hstatuses⟩ := collect_ok hcol
  obtain ⟨rest, hbefore, hrest, hafter⟩ := finish_queued hcol
  have hcatch : col.seq.catchUpState ≠ .catchUpInProgress := by
    rw [hseq, (takeMempool_frame _ _).1]
    exact h.present
  rw [if_neg hcatch, hqueue, tail_cons] at hrest
  subst hrest
  have hqueued : s.queuedTxs = front.transactions ++ rest.flatMap Batch.transactions := by
    rw [queuedTxs, hqueue, flatMap_cons]
  have hfront : front.transactions = col.mempoolTxs :=
    append_cancel_right (hqueued.symm.trans hbefore)
  rw [h.unforced] at hforced
  rw [hforced, nil_append, hfilter] at hstatuses
  have hloop : col.filterStatuses = cosmosFilterLoop c.1.maxBytes 0 front.transactions := by
    rw [hstatuses, hfront]
    rfl
  rw [← hfinish, h.written, if_pos rfl] at hafter
  refine ⟨col.mempoolWith .filterPostpone, hafter, hfront ▸ col.mempoolWith_sublist _, ?_, hqueued,
    ?_⟩
  · rw [queuedTxs, hafter, flatMap_append, asBatch_flatMap]
  have hlength : (front.transactions.zip col.filterStatuses).length =
      front.transactions.length := by
    rw [length_zip, hloop, cosmosFilterLoop_length, min_self]
  have hsnd : (front.transactions.zip col.filterStatuses).map Prod.snd = col.filterStatuses :=
    map_snd_zip (by rw [hloop, cosmosFilterLoop_length])
  unfold Collected.mempoolWith
  rw [hforced, ← hfront, length_map, length_nil, drop_zero, ← hlength,
    length_filter_lt_length_iff_exists]
  -- something is not postponed
  have hall := all_postponed_iff hpos front.transactions
  rw [← hloop, ← hsnd, forall_mem_map] at hall
  simpa using not_congr hall

end

open Sequencer in
/-- For every call of the single sequencer with the shipped filter that finds a batch in the queue,
is not catching up and has no forced transactions: the number of queued transactions goes down
exactly if the first batch has a transaction that fits into a block. If all of them do, as many
calls as there are transactions empty the queue. -/
theorem mempool_progress_iff (maxBytes : ℕ) (hpos : 0 < maxBytes) (s : Sequencer)
    (hbatches : ∀ b ∈ s.queued, b.transactions ≠ []) :
    (∀ c front batches, s.MempoolCall maxBytes c → s.queued = front :: batches →
      ((s.getNextBatch c.1 c.2).2.queuedTxs.length < s.queuedTxs.length ↔
        ∃ tx ∈ front.transactions, tx.length ≤ maxBytes)) ∧
    ((∀ tx ∈ s.queuedTxs, tx.length ≤ maxBytes) →
      ∀ calls : List (GetNextBatchRequest × CallEnv),
      (∀ p ∈ steps (fun s c => (s.getNextBatch c.1 c.2).2) s calls,
        p.1.MempoolCall maxBytes p.2) →
      s.queuedTxs.length ≤ calls.length → ∃ k ≤ s.queuedTxs.length,
        ((calls.take k).foldl (fun s c => (s.getNextBatch c.1 c.2).2) s).queuedTxs = []) := by
  refine ⟨fun c front batches hc hqueue => ?_, fun hfits calls hcalls henough => ?_⟩
  · obtain ⟨postponed, -, -, hafter, hbefore, hiff⟩ := hc.queued hpos hqueue
    rw [hafter, hbefore, length_append, length_append, Nat.add_lt_add_iff_right, hiff]
  induction calls generalizing s with
  | nil => exact ⟨0, Nat.zero_le _, length_eq_zero_iff.mp (Nat.le_zero.mp henough)⟩
  | cons c calls ih =>
    rcases hqueue : s.queued with _ | ⟨front, batches⟩
    · refine ⟨0, Nat.zero_le _, ?_⟩
      rw [take_zero, foldl_nil, queuedTxs, hqueue, flatMap_nil]
    rw [steps_cons] at hcalls
    obtain ⟨postponed, hqueued, hsub, hafter, hbefore, hiff⟩ :=
      (hcalls _ mem_cons_self).queued hpos hqueue
    rw [hqueue, forall_mem_cons] at hbatches
    rw [hbefore, forall_mem_append] at hfits
    rw [hbefore, length_append, length_cons] at henough
    obtain ⟨tx, htx⟩ := exists_mem_of_ne_nil _ hbatches.1
    have hless := hiff.mpr ⟨tx, htx, hfits.1 tx htx⟩
    have hbatches' : ∀ b ∈ (s.getNextBatch c.1 c.2).2.queued, b.transactions ≠ [] := by
      rw [hqueued, forall_mem_append]
      refine ⟨fun b hb => ?_, hbatches.2⟩
      unfold asBatch at hb
      split_ifs at hb with hnone
      · exact absurd hb not_mem_nil
      · rw [mem_singleton.mp hb]
        exact fun h => hnone (congrArg List.length h)
    have hfits' : ∀ tx ∈ (s.getNextBatch c.1 c.2).2.queuedTxs, tx.length ≤ maxBytes := by
      rw [hafter, forall_mem_append]
      exact ⟨fun tx hmem => hfits.1 tx (hsub.subset hmem), hfits.2⟩
    obtain ⟨k, hk, hdone⟩ := ih (s.getNextBatch c.1 c.2).2 hbatches' hfits'
      (fun p hmem => hcalls p (mem_cons_of_mem _ hmem))
      (by rw [hafter, length_append]; omega)
    rw [hafter, length_append] at hk
    rw [hbefore, length_append]
    exact ⟨k + 1, by omega, hdone⟩

def waitingSequencer (tx : Tx) : Sequencer := (sampleSequencer.submitBatchTxs [5] ⟨[tx]⟩ true).2

def quietEnv : CallEnv := sampleEnv (repliesUpTo sampleDa 0)

theorem waitingSequencer_mempoolCall :
    (waitingSequencer [4]).MempoolCall 1 (sampleRequest, quietEnv) :=
  ⟨⟨rfl, rfl⟩, rfl, .inl ⟨_, rfl⟩, by decide, by decide⟩

theorem mempool_progress_of_one_byte :
    ((waitingSequencer [4]).getNextBatch sampleRequest quietEnv).2.queuedTxs.length <
      (waitingSequencer [4]).queuedTxs.length :=
  ((mempool_progress_iff 1 (by decide) (waitingSequencer [4]) (by decide)).1
    (sampleRequest, quietEnv) ⟨[[4]]⟩ [] waitingSequencer_mempoolCall rfl).mpr
    ⟨[4], mem_singleton_self _, le_rfl⟩

/-- A transaction of two bytes, and blocks of one: the call succeeds, and the queue is as before. -/
theorem oversized_mempool_tx_stuck :
    (waitingSequencer [6, 6]).MempoolCall 1 (sampleRequest, quietEnv) ∧
      ((waitingSequencer [6, 6]).getNextBatch sampleRequest quietEnv).2.queuedTxs = [[6, 6]] ∧
      (waitingSequencer [6, 6]).queuedTxs = [[6, 6]] :=
  ⟨⟨⟨rfl, rfl⟩, rfl, .inl ⟨_, rfl⟩, by decide, by decide⟩, by decide, by decide⟩

end ChainSdk

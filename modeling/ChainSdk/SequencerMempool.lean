/-
No mempool transaction disappears in the single sequencer.

A `GetNextBatch` call pops a batch from the queue before the filter has seen it, so the batch is in
nobody's hands for a while.
-/
import ChainSdk.SequencerOrder

namespace ChainSdk

open Except List Sequencer

/-! ## Statuses -/

theorem filter_statuses_perm (pairs : List (Tx × FilterStatus)) :
    (pairs.filter (fun p => p.2 = .filterOK) ++ pairs.filter (fun p => p.2 = .filterRemove) ++
      pairs.filter (fun p => p.2 = .filterPostpone)).Perm pairs := by
  induction pairs with
  | nil => exact List.Perm.refl _
  | cons p pairs ih =>
    obtain ⟨tx, status⟩ := p
    have hcons : ((tx, status) :: (pairs.filter (fun p => p.2 = .filterOK) ++
        pairs.filter (fun p => p.2 = .filterRemove) ++
        pairs.filter (fun p => p.2 = .filterPostpone))).Perm ((tx, status) :: pairs) :=
      ih.cons _
    cases status with
    | filterOK => simpa using hcons
    -- a removed or postponed transaction is moved behind those before it
    | filterRemove =>
      refine List.Perm.trans ?_ hcons
      simp only [filter_cons, reduceCtorEq, decide_false, Bool.false_eq_true, if_false,
        decide_true, if_true, append_assoc, cons_append]
      exact perm_middle
    | filterPostpone =>
      refine List.Perm.trans ?_ hcons
      exact perm_middle

namespace Sequencer

theorem Collected.mempool_partition {c : Collected}
    (hlength : c.filterStatuses.length = c.forcedTxs.length + c.mempoolTxs.length) :
    (c.mempoolWith .filterOK ++ c.mempoolWith .filterRemove ++
      c.mempoolWith .filterPostpone).Perm c.mempoolTxs := by
  have hzip : (c.mempoolTxs.zip (c.filterStatuses.drop c.forcedTxs.length)).map Prod.fst =
      c.mempoolTxs := by
    apply map_fst_zip
    rw [length_drop]
    omega
  have hpairs := (filter_statuses_perm
    (c.mempoolTxs.zip (c.filterStatuses.drop c.forcedTxs.length))).map Prod.fst
  rw [map_append, map_append, hzip] at hpairs
  exact hpairs

/-! ## The queue through a call -/

def queued (s : Sequencer) : List Batch := s.queue.live.map QueuedItem.batch

def queuedTxs (s : Sequencer) : List Tx := s.queued.flatMap Batch.transactions

theorem collect_mempool {s : Sequencer} {req : GetNextBatchRequest} {env : CallEnv}
    {c : Collected} (hc : (s.collect req env).1 = .ok c) :
    c.filterStatuses.length = c.forcedTxs.length + c.mempoolTxs.length ∧
      (c.seq.catchUpState = .catchUpInProgress ∧ c.mempoolTxs = [] ∧
          c.seq.queue = s.queue ∧ c.seq.db.queue = s.db.queue ∨
        c.seq.catchUpState ≠ .catchUpInProgress ∧
          c.mempoolTxs = (s.queue.next s.db.queue env.queueDeleted).1.transactions ∧
          c.seq.queue = (s.queue.next s.db.queue env.queueDeleted).2.1 ∧
          c.seq.db.queue = (s.queue.next s.db.queue env.queueDeleted).2.2) := by
  obtain ⟨-, hseq, -, htxs, hstatuses⟩ := collect_ok hc
  obtain ⟨hqueue₀, hdb₀, -⟩ := bootstrap_frame s
  obtain ⟨hqueue, hdb, -⟩ := fetchIfNeeded_frame s.bootstrap req.maxBytes env
  rw [hqueue₀] at hqueue
  rw [hdb₀] at hdb
  refine ⟨by rw [hstatuses, statusesOrAccept_length, length_append], ?_⟩
  rw [htxs, hseq]
  unfold takeMempool
  by_cases hcatch : (s.bootstrap.fetchIfNeeded req.maxBytes env).2.catchUpState =
      .catchUpInProgress
  · rw [if_pos hcatch]
    exact .inl ⟨hcatch, rfl, hqueue, by rw [hdb]⟩
  · rw [if_neg hcatch, hqueue, hdb]
    exact .inr ⟨hcatch, rfl, rfl, rfl⟩

/-- Postponed transactions, if there are any, are put back as one batch. -/
def asBatch (txs : List Tx) : List Batch := if txs.length = 0 then [] else [⟨txs⟩]

theorem asBatch_flatMap (txs : List Tx) : (asBatch txs).flatMap Batch.transactions = txs := by
  unfold asBatch
  split_ifs with h
  · rw [length_eq_zero_iff.mp h, flatMap_nil]
  · simp

theorem returnPostponed_queued {s : Sequencer} {postponed : List Tx} {env : CallEnv}
    (hhead : postponed ≠ [] → s.queue.head ≤ s.queue.queue.length) :
    (s.returnPostponed postponed env).queued =
      asBatch (if env.queueWritten then postponed else []) ++ s.queued := by
  unfold returnPostponed asBatch
  by_cases hnone : postponed.length = 0
  · rw [length_eq_zero_iff.mp hnone, ite_self]
    rfl
  have hne : postponed ≠ [] := fun h => hnone (by rw [h, length_nil])
  rw [if_neg hnone]
  by_cases hwritten : env.queueWritten = true
  · obtain ⟨bq', hres, -⟩ := s.queue.prepend_frame s.db.queue ⟨postponed⟩
    rw [hwritten, hres, if_pos rfl, if_neg hnone]
    simp only [queued, BatchQueue.prepend_live (hhead hne) hres, map_cons,
      singleton_append]
  · have hres : s.queue.prepend s.db.queue ⟨postponed⟩ env.queueWritten =
        .error .persistFailed := if_pos (by simpa using hwritten)
    rw [hres, if_neg hwritten]
    rfl

theorem next_head_le {bq : BatchQueue} {db : QueueDb} {deleted : Bool}
    (h : (bq.next db deleted).1.transactions ≠ []) :
    (bq.next db deleted).2.1.head ≤ (bq.next db deleted).2.1.queue.length := by
  apply (bq.next_frame db deleted).2.2.2
  by_contra hspent
  apply h
  rw [(bq.next_live db deleted).1, BatchQueue.live, drop_eq_nil_of_le (by omega)]
  rfl

def mempoolWith (s : Sequencer) (req : GetNextBatchRequest) (env : CallEnv)
    (status : FilterStatus) : List Tx :=
  if s.id ≠ req.id then []
  else
    match (s.collect req env).1 with
    | .error _ => []
    | .ok c => c.mempoolWith status

section

variable {s : Sequencer} {req : GetNextBatchRequest} {env : CallEnv}

theorem collect_error {e : SequencerError} (h : (s.collect req env).1 = .error e) :
    ∃ e', e = .retrieveFailed e' := by
  unfold collect at h
  dsimp only at h
  rcases hfetch : (s.bootstrap.fetchIfNeeded req.maxBytes env).1 with e' | daHeight
  · rw [hfetch] at h
    obtain rfl := error.inj h
    unfold fetchIfNeeded at hfetch
    split_ifs at hfetch
    rcases fetchNextDAEpoch_spec s.bootstrap req.maxBytes env with
      ⟨event, -, hend, -⟩ | ⟨e, -, -, ⟨hend, -⟩ | ⟨hend, -⟩⟩
    · exact absurd (hend.symm.trans hfetch) (by simp)
    · exact absurd (hend.symm.trans hfetch) (by simp)
    · exact ⟨e, (error.inj (hend.symm.trans hfetch)).symm⟩
  · simp [hfetch] at h

theorem getNextBatch_collected (hres : (∃ resp, (s.getNextBatch req env).1 = .ok resp) ∨
      (s.getNextBatch req env).1 = .error .noBatch) :
    s.id = req.id ∧ ∃ c, (s.collect req env).1 = .ok c ∧
      s.getNextBatch req env = finish c req env := by
  unfold getNextBatch at hres ⊢
  by_cases hid : s.id = req.id
  · rw [if_neg (not_not.mpr hid)] at hres ⊢
    rcases hc : s.collect req env with ⟨e | c, s'⟩
    · obtain ⟨e', rfl⟩ := collect_error (congrArg Prod.fst hc)
      simp [hc] at hres
    · exact ⟨hid, c, rfl, rfl⟩
  · simp [if_pos hid] at hres

/-- The queue after a call, in terms of what it had in hand at the filter: behind what was
put back there is the queue of before, without the batch that was popped. -/
theorem finish_queued {c : Collected} (hc : (s.collect req env).1 = .ok c) :
    ∃ rest, s.queuedTxs = c.mempoolTxs ++ rest.flatMap Batch.transactions ∧
      rest = (if c.seq.catchUpState = .catchUpInProgress then s.queued else s.queued.tail) ∧
      (finish c req env).2.queued =
        asBatch (if env.queueWritten then c.mempoolWith .filterPostpone else []) ++ rest := by
  have hsub := c.mempoolWith_sublist .filterPostpone
  obtain ⟨-, hcases⟩ := collect_mempool hc
  have hqueued : (finish c req env).2.queued =
      (returnPostponed c.seq (c.mempoolWith .filterPostpone) env).queued := by
    unfold queued
    rw [(finish_frame c req env).1]
  rw [hqueued]
  rcases hcases with ⟨hcatch, hnone, hqueue, -⟩ | ⟨hcatch, htxs, hqueue, -⟩
  · -- nothing was popped, so nothing can have been postponed
    have hpostponed : c.mempoolWith .filterPostpone = [] := by
      rw [hnone] at hsub
      exact sublist_nil.mp hsub
    refine ⟨s.queued, ?_, (if_pos hcatch).symm, ?_⟩
    · rw [hnone]
      rfl
    · rw [returnPostponed_queued (fun h => absurd hpostponed h)]
      unfold queued
      rw [hqueue]
  · obtain ⟨hbatch, hlive⟩ := s.queue.next_live s.db.queue env.queueDeleted
    have hrest : c.seq.queued = s.queued.tail := by
      unfold queued
      rw [hqueue, hlive, map_tail]
    refine ⟨s.queued.tail, ?_, (if_neg hcatch).symm, ?_⟩
    · rw [htxs, hbatch]
      unfold queuedTxs queued
      cases s.queue.live with
      | nil => rfl
      | cons item items => rfl
    · rw [returnPostponed_queued, hrest]
      intro hne
      rw [hqueue]
      apply next_head_le
      rw [← htxs]
      intro hnil
      rw [hnil] at hsub
      exact hne (sublist_nil.mp hsub)

end

end Sequencer

/-! ## Conservation -/

/-- Every datastore write of a call goes through. -/
structure CallEnv.WritesSucceed (env : CallEnv) : Prop where
  deleted : env.queueDeleted = true
  written : env.queueWritten = true
  saved : env.checkpointSaved = true

/-- Mempool conservation, in every call that answers with a batch or `ErrNoBatch` while the
datastore takes every write: the batch is emitted forced transactions and then emitted mempool
transactions; those queued before are those emitted, those removed by the filter and those queued
afterwards; the postponed ones are the first batch of the queue; and while the sequencer is catching
up the queue is left as it is. -/
theorem mempool_conserved (s : Sequencer) (req : GetNextBatchRequest) (env : CallEnv)
    (henv : env.WritesSucceed)
    (hres : (∃ resp, (s.getNextBatch req env).1 = .ok resp) ∨
      (s.getNextBatch req env).1 = .error .noBatch) :
    let s' := (s.getNextBatch req env).2
    let emitted := s.mempoolWith req env .filterOK
    let removed := s.mempoolWith req env .filterRemove
    let postponed := s.mempoolWith req env .filterPostpone
    (∀ resp, (s.getNextBatch req env).1 = .ok resp →
        resp.batch.transactions = s.forcedEmitted req env ++ emitted) ∧
      ((s.getNextBatch req env).1 = .error .noBatch → s.forcedEmitted req env ++ emitted = []) ∧
      s.queuedTxs.Perm (emitted ++ removed ++ s'.queuedTxs) ∧
      (∃ rest, s'.queued = Sequencer.asBatch postponed ++ rest ∧ rest <:+ s.queued ∧
        postponed.Sublist (s.mempoolTaken req env) ∧ s.mempoolTaken req env <+: s.queuedTxs) ∧
      (s'.catchUpState = .catchUpInProgress →
        s'.queue = s.queue ∧ s'.db.queue = s.db.queue ∧ s.mempoolTaken req env = []) := by
  intro s' emitted removed postponed
  obtain ⟨hid, c, hc, hcall⟩ := getNextBatch_collected hres
  obtain ⟨rest, hbefore, hrest, hafter⟩ := finish_queued hc
  rw [henv.written, if_pos rfl] at hafter
  have hsuffix : rest <:+ s.queued := by
    rw [hrest]
    split_ifs
    · exact suffix_refl _
    · exact tail_suffix _
  obtain ⟨hlength, hcases⟩ := collect_mempool hc
  have hs' : s' = (Sequencer.finish c req env).2 := congrArg Prod.snd hcall
  have hwith : ∀ status, s.mempoolWith req env status = c.mempoolWith status := by
    intro status
    simp only [mempoolWith, hid, hc, ne_eq, not_true_eq_false, if_false]
  have hemitted : emitted = c.mempoolWith .filterOK := hwith .filterOK
  have hremoved : removed = c.mempoolWith .filterRemove := hwith .filterRemove
  have hpostponed : postponed = c.mempoolWith .filterPostpone := hwith .filterPostpone
  have hforced : s.forcedEmitted req env = c.forced.1 := by
    simp only [forcedEmitted, hid, hc, ne_eq, not_true_eq_false, if_false]
  have htaken : s.mempoolTaken req env = c.mempoolTxs := by
    simp only [mempoolTaken, hid, hc, ne_eq, not_true_eq_false, if_false]
  have hresult := finish_result c req env
  rw [← hcall] at hresult
  refine ⟨?_, ?_, ?_, ⟨rest, ?_, hsuffix, ?_, ?_⟩, ?_⟩
  · intro resp hok
    rw [hok] at hresult
    split_ifs at hresult
    rw [ok.inj hresult, hforced, hemitted, Collected.batchTxs]
  · intro hnone
    rw [hnone] at hresult
    split_ifs at hresult with hfail hempty
    · simp at hresult
    · rw [hforced, hemitted]
      exact length_eq_zero_iff.mp hempty.2
  · -- what was postponed is counted among the queued transactions again
    have hqueued : s'.queuedTxs =
        c.mempoolWith .filterPostpone ++ rest.flatMap Batch.transactions := by
      rw [hs', queuedTxs, hafter, flatMap_append, asBatch_flatMap]
    rw [hbefore, hqueued, hemitted, hremoved, ← append_assoc]
    exact (Collected.mempool_partition hlength).symm.append_right _
  · rw [hs', hafter, hpostponed]
  · rw [hpostponed, htaken]
    exact c.mempoolWith_sublist .filterPostpone
  · rw [htaken, hbefore]
    exact prefix_append _ _
  · intro hcatch
    obtain ⟨hqueue, hdb, hstate, -⟩ := finish_frame c req env
    rw [hs', hstate] at hcatch
    rcases hcases with ⟨-, hnone, hseq, hseqdb⟩ | ⟨hnot, -⟩
    · have hsub := c.mempoolWith_sublist .filterPostpone
      rw [hnone] at hsub
      have hreturned : returnPostponed c.seq [] env = c.seq := if_pos rfl
      rw [sublist_nil.mp hsub] at hqueue hdb
      rw [hs', htaken]
      exact ⟨hqueue.trans hseq, hdb.trans hseqdb, hnone⟩
    · exact absurd hcatch hnot

/-- The small chain's sequencer with three transactions in its queue: one that fits next to
the forced transaction, one that does not, and an empty one. -/
def queuedSequencer : Sequencer :=
  (sampleSequencer.submitBatchTxs [5] ⟨[[4], [6, 6], []]⟩ true).2

def twoByteRequest : GetNextBatchRequest := ⟨[5], 2, []⟩

theorem mempool_conserved_on_sample :
    openEnv.WritesSucceed ∧
      ((queuedSequencer.getNextBatch twoByteRequest openEnv).1.toOption.map
        (fun resp => resp.batch)) = some ⟨[[1], [4]]⟩ ∧
      (queuedSequencer.getNextBatch twoByteRequest openEnv).2.queued = [⟨[[6, 6]]⟩] ∧
      queuedSequencer.queuedTxs.Perm ([[4]] ++ [[]] ++ [[6, 6]]) := by
  have henv : openEnv.WritesSucceed := ⟨rfl, rfl, rfl⟩
  have hbatch : (queuedSequencer.getNextBatch twoByteRequest openEnv).1.toOption.map
      (fun resp => resp.batch) = some ⟨[[1], [4]]⟩ := by decide
  have hok : ∃ resp, (queuedSequencer.getNextBatch twoByteRequest openEnv).1 = .ok resp := by
    rcases hres : (queuedSequencer.getNextBatch twoByteRequest openEnv).1 with e | resp
    · rw [hres] at hbatch
      exact absurd hbatch (by simp [Except.toOption])
    · exact ⟨resp, rfl⟩
  have hconserved := mempool_conserved queuedSequencer twoByteRequest openEnv henv (.inl hok)
  exact ⟨henv, hbatch, by decide, hconserved.2.2.1⟩

end ChainSdk

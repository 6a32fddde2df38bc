/-
Forced transactions are handed out once each and in DA order.

The argument is about the position alone (`EpochReader`), so it is made once for both sequencers.
-/
import ChainSdk.BasedSequencer
import ChainSdk.Runs

namespace ChainSdk

open EpochReader ForcedInclusionRetriever List Ranges Runs Sequencer

/-! ## The invariant -/

def validBlobs (da : ℕ → List Blob) (maxBytes h : ℕ) : List Tx :=
  dropOversized maxBytes (da h)

/-- The position is that of a sequencer over the DA content `da`, with epochs counted from
`start` in steps of `size`, and nobody has told it another DA height. -/
structure FollowsDA (da : ℕ → List Blob) (start size : ℕ) (p : EpochReader) : Prop where
  configured : p.fiRetriever.client.hasForcedNamespace = true
  retriever_start : p.fiRetriever.daStartHeight = start
  retriever_size : p.fiRetriever.daEpochSize = size
  cache_holds : p.fiRetriever.asyncFetcher.Holds da
  start_le : start ≤ p.checkpoint.daHeight
  daHeight_eq : p.daHeight = p.checkpoint.daHeight

/-- What such a position and the transactions consumed so far have to do with each other. -/
structure InOrder (da : ℕ → List Blob) (maxBytes start size : ℕ) (p : EpochReader)
    (consumed : List Tx) : Prop extends FollowsDA da start size p where
  position :
    (p.epochTxs = [] ∧ p.checkpoint.txIndex = 0 ∧
      consumed = between (validBlobs da maxBytes) start
        (epochStart start size p.checkpoint.daHeight)) ∨
    (p.checkpoint.daHeight = epochEnd start size p.checkpoint.daHeight ∧
      p.epochTxs = between (validBlobs da maxBytes)
        (epochStart start size p.checkpoint.daHeight) (p.checkpoint.daHeight + 1) ∧
      p.checkpoint.txIndex < p.epochTxs.length ∧
      consumed = between (validBlobs da maxBytes) start
          (epochStart start size p.checkpoint.daHeight) ++
        p.epochTxs.take p.checkpoint.txIndex)

variable (s : Sequencer) (id : Bytes) (batch : Batch) (written : Bool) {p p' : EpochReader}
  (da : ℕ → List Blob) (maxBytes top : ℕ)

section

variable {da : ℕ → List Blob} {maxBytes start size : ℕ} {p : EpochReader}
  {env : RetrieveEnv} {consumed : List Tx}

theorem dropOversized_between (da : ℕ → List Blob) (maxBytes a b : ℕ) :
    dropOversized maxBytes (between da a b) =
      between (validBlobs da maxBytes) a b :=
  filter_between _ da a b

theorem FollowsDA.retrieve (h : FollowsDA da start size p)
    (hda : ∀ h, ∀ b ∈ da h, b ≠ []) (henv : env.Honest da) (d : ℕ) (txs : List Tx) :
    FollowsDA da start size
      { p with
        epochTxs := txs
        fiRetriever := (p.fiRetriever.retrieveForcedIncludedTxs env d).2 } where
  configured := by
    rw [retrieve_snd_eq]
    exact h.configured
  retriever_start := by
    rw [retrieve_snd_eq]
    exact h.retriever_start
  retriever_size := by
    rw [retrieve_snd_eq]
    exact h.retriever_size
  cache_holds := retrieve_holds hda henv.truthful h.cache_holds
  start_le := h.start_le
  daHeight_eq := h.daHeight_eq

theorem FollowsDA.advance (hsize : 0 < size) (h : FollowsDA da start size p) (n : ℕ)
    (hend : p.checkpoint.daHeight = epochEnd start size p.checkpoint.daHeight)
    (htxs : p.epochTxs = between (validBlobs da maxBytes)
      (epochStart start size p.checkpoint.daHeight) (p.checkpoint.daHeight + 1))
    (hcons : consumed = between (validBlobs da maxBytes) start
        (epochStart start size p.checkpoint.daHeight) ++ p.epochTxs.take p.checkpoint.txIndex) :
    InOrder da maxBytes start size (p.advance p.checkpoint.daHeight n)
      (consumed ++ p.remaining.take n) := by
  -- whatever is left is the epoch from `txIndex` on
  have hrem : p.remaining = p.epochTxs.drop p.checkpoint.txIndex := by
    unfold remaining
    split_ifs with hcond
    · rfl
    · rw [drop_eq_nil_of_le (by omega)]
  have htake : consumed ++ p.remaining.take n =
      between (validBlobs da maxBytes) start
        (epochStart start size p.checkpoint.daHeight) ++
        p.epochTxs.take (p.checkpoint.txIndex + n) := by
    rw [hcons, hrem, append_assoc, ← take_add]
  rw [htake]
  unfold EpochReader.advance
  split_ifs with hdone
  -- the epoch is used up: the next height begins a new one
  · have hnext := epochStart_succ_of_end hsize h.start_le hend
    have hstart := start_le_epochStart hsize h.start_le
    have hle := epochStart_le hsize h.start_le
    refine ⟨⟨h.configured, h.retriever_start, h.retriever_size, h.cache_holds, ?_, rfl⟩,
      .inl ⟨rfl, rfl, ?_⟩⟩
    · exact h.start_le.trans (Nat.le_succ _)
    · rw [take_of_length_le hdone, htxs, hnext]
      exact between_append _ hstart (hle.trans (Nat.le_succ _))
  · exact ⟨⟨h.configured, h.retriever_start, h.retriever_size, h.cache_holds, h.start_le,
      h.daHeight_eq⟩, .inr ⟨hend, htxs, by simpa using hdone, rfl⟩⟩

namespace InOrder

theorem position_of_needsFetch (h : InOrder da maxBytes start size p consumed)
    (hneeds : p.needsFetch = true) :
    p.epochTxs = [] ∧ p.checkpoint.txIndex = 0 ∧
      consumed = between (validBlobs da maxBytes) start
        (epochStart start size p.checkpoint.daHeight) := by
  rcases h.position with hwalk | ⟨-, -, hidx, -⟩
  · exact hwalk
  · simp only [needsFetch, decide_eq_true_eq] at hneeds
    omega

theorem position_of_cached (hstart : 1 ≤ start)
    (h : InOrder da maxBytes start size p consumed) (hneeds : p.needsFetch = false) :
    p.checkpoint.daHeight = epochEnd start size p.checkpoint.daHeight ∧
      p.epochTxs = between (validBlobs da maxBytes)
        (epochStart start size p.checkpoint.daHeight) (p.checkpoint.daHeight + 1) ∧
      consumed = between (validBlobs da maxBytes) start
          (epochStart start size p.checkpoint.daHeight) ++
        p.epochTxs.take p.checkpoint.txIndex := by
  rcases h.position with ⟨hnil, -, -⟩ | ⟨hend, htxs, -, hcons⟩
  · -- with nothing cached and a positive height a fetch is due
    have hheight := h.daHeight_eq
    have hpos := h.start_le
    rw [needsFetch, decide_eq_false_iff_not, hnil] at hneeds
    exact absurd ⟨by omega, .inl rfl⟩ hneeds
  · exact ⟨hend, htxs, hcons⟩

theorem fetched (hsize : 0 < size) (hda : ∀ h, ∀ b ∈ da h, b ≠ [])
    (henv : env.Honest da) (h : InOrder da maxBytes start size p consumed)
    (hneeds : p.needsFetch = true) {event : ForcedInclusionEvent}
    (hres : (p.fiRetriever.retrieveForcedIncludedTxs env p.checkpoint.daHeight).1 = .ok event)
    (htake : p' = p.takeEpoch maxBytes event
      (p.fiRetriever.retrieveForcedIncludedTxs env p.checkpoint.daHeight).2) (n : ℕ) :
    InOrder da maxBytes start size (p'.advance event.endDaHeight n)
      (consumed ++ p'.remaining.take n) := by
  obtain ⟨hnil, hidx, hcons⟩ := h.position_of_needsFetch hneeds
  have hfirst : p.fiRetriever.firstHeight p.checkpoint.daHeight =
      epochStart start size p.checkpoint.daHeight := by
    rw [firstHeight, h.retriever_start, h.retriever_size]
  have hlast : p.fiRetriever.lastHeight p.checkpoint.daHeight =
      epochEnd start size p.checkpoint.daHeight := by
    rw [lastHeight, h.retriever_start, h.retriever_size]
  have hfollows : FollowsDA da start size p' := by
    rw [htake]
    exact h.toFollowsDA.retrieve hda henv _ _
  have hcp : p'.checkpoint = p.checkpoint := by rw [htake]; rfl
  have hend : event.endDaHeight = p'.checkpoint.daHeight := by
    rw [hcp]
    exact retrieve_endDaHeight hres
  rw [hend]
  rcases retrieve_honest hda henv.truthful (fun h _ => henv.answers h) h.cache_holds
      h.configured (h.retriever_start ▸ h.start_le) with
    ⟨hne, hok⟩ | ⟨k, herr⟩ | ⟨hat, timestamp, hok⟩
  · -- inside an epoch: the position walks one height on
    obtain rfl := Except.ok.inj (hres.symm.trans hok)
    have htxs : p'.epochTxs = [] := by rw [htake]; rfl
    have hrem : p'.remaining = [] := by
      unfold remaining
      rw [htxs, if_neg (by simp)]
    have hstay := epochStart_succ_of_ne_end hsize h.start_le (hlast ▸ hne)
    rw [hrem, take_nil, append_nil]
    unfold EpochReader.advance
    rw [if_pos (by rw [htxs]; exact Nat.zero_le _)]
    refine ⟨⟨hfollows.configured, hfollows.retriever_start, hfollows.retriever_size,
      hfollows.cache_holds, hfollows.start_le.trans (Nat.le_succ _), rfl⟩, ?_⟩
    refine .inl ⟨rfl, rfl, ?_⟩
    rw [hcp, hstay]
    exact hcons
  · rw [herr] at hres
    cases hres
  · -- at an epoch end: the whole epoch is cached
    obtain rfl := Except.ok.inj (hres.symm.trans hok)
    refine hfollows.advance hsize n ?_ ?_ ?_
    · rw [hcp, ← hlast]
      exact hat
    · rw [htake, takeEpoch, hfirst, dropOversized_between]
    · rw [hcp, hidx, take_zero, append_nil]
      exact hcons

theorem step (hstart : 1 ≤ start) (hsize : 0 < size) (hda : ∀ h, ∀ b ∈ da h, b ≠ [])
    (henv : env.Honest da) {taken : List Tx} (h : InOrder da maxBytes start size p consumed)
    (hstep : EpochReader.Step maxBytes env p p' taken) :
    InOrder da maxBytes start size p' (consumed ++ taken) := by
  cases hstep with
  | idle =>
    rw [append_nil]
    exact h
  | notFetched e hneeds hres =>
    rw [append_nil]
    exact ⟨h.toFollowsDA.retrieve hda henv _ _, h.position⟩
  | notConfigured hneeds hres =>
    -- an honest call over a configured namespace fails in one way only
    rcases retrieve_honest hda henv.truthful (fun h _ => henv.answers h)
        h.cache_holds h.configured (h.retriever_start ▸ h.start_le) with
      ⟨-, hok⟩ | ⟨k, herr⟩ | ⟨-, timestamp, hok⟩
    · rw [hok] at hres
      cases hres
    · rw [herr] at hres
      cases hres
    · rw [hok] at hres
      cases hres
  | fetched p₁ event n hneeds hres htake hact hn =>
    exact h.fetched hsize hda henv hneeds hres htake n
  | fetchedNothing _ event hneeds hres htake hzero hnone =>
    -- an epoch that ends at height 0 would lie below the start height
    have hend := retrieve_endDaHeight hres
    have hle := h.start_le
    omega
  | served n hneeds hact hn =>
    obtain ⟨hend, htxs, hcons⟩ := h.position_of_cached hstart hneeds
    rw [h.daHeight_eq]
    exact h.toFollowsDA.advance hsize n hend htxs hcons

theorem isPrefix (hsize : 0 < size) (h : InOrder da maxBytes start size p consumed) :
    consumed <+: between (validBlobs da maxBytes) start (p.checkpoint.daHeight + 1) := by
  have hstart := start_le_epochStart hsize h.start_le
  have hle := (epochStart_le hsize h.start_le).trans (Nat.le_succ p.checkpoint.daHeight)
  rcases h.position with ⟨-, -, hcons⟩ | ⟨-, htxs, -, hcons⟩
  · rw [hcons]
    exact between_isPrefix _ hstart hle
  · rw [hcons, htxs, ← between_append _ hstart hle]
    exact (prefix_append_right_inj _).mpr ( take_prefix _ _)

end InOrder

end

/-! ## Runs of the two sequencers -/

/-- The calls other components make on a single sequencer. -/
inductive SequencerCall
  | getNextBatch (req : GetNextBatchRequest) (env : CallEnv)
  | submitBatchTxs (id : Bytes) (batch : Batch) (written : Bool)

namespace Sequencer

def call (s : Sequencer) : SequencerCall → Sequencer
  | .getNextBatch req env => (s.getNextBatch req env).2
  | .submitBatchTxs id batch written => (s.submitBatchTxs id batch written).2

def callConsumed (s : Sequencer) : SequencerCall → List Tx
  | .getNextBatch req env => s.forcedConsumed req env
  | .submitBatchTxs _ _ _ => []

theorem submitBatchTxs_frame :
    (s.submitBatchTxs id batch written).2.toEpochReader = s.toEpochReader ∧
      (s.submitBatchTxs id batch written).2.clock = s.clock ∧
      (s.submitBatchTxs id batch written).2.genesis = s.genesis ∧
      (s.submitBatchTxs id batch written).2.client = s.client ∧
      (s.submitBatchTxs id batch written).2.db.checkpoint = s.db.checkpoint := by
  unfold submitBatchTxs
  split_ifs
  · exact ⟨rfl, rfl, rfl, rfl, rfl⟩
  · exact ⟨rfl, rfl, rfl, rfl, rfl⟩
  · split <;> exact ⟨rfl, rfl, rfl, rfl, rfl⟩

theorem submitBatchTxs_toEpochReader :
    (s.submitBatchTxs id batch written).2.toEpochReader = s.toEpochReader :=
  (s.submitBatchTxs_frame id batch written).1

end Sequencer

/-- A call whose DA replies are honest, whose size limit is the constant one, and whose
checkpoint write goes through. -/
structure CallEnv.Undisturbed (da : ℕ → List Blob) (maxBytes : ℕ)
    (req : GetNextBatchRequest) (env : CallEnv) : Prop where
  honest : env.retrieval.Honest da
  limit : req.maxBytes = maxBytes
  saved : env.checkpointSaved = true

def SequencerCall.Undisturbed (da : ℕ → List Blob) (maxBytes : ℕ) : SequencerCall → Prop
  | .getNextBatch req env => env.Undisturbed da maxBytes req
  | .submitBatchTxs _ _ _ => True

section

variable {da : ℕ → List Blob} {maxBytes start size : ℕ} {consumed : List Tx}

theorem Sequencer.bootstrap_eq_self {s : Sequencer} (h : s.checkpoint.daHeight ≠ 0) :
    s.bootstrap = s := by
  unfold bootstrap
  rw [if_neg (fun hc => h hc.2)]

theorem Sequencer.call_inOrder (hstart : 1 ≤ start) (hsize : 0 < size)
    (hda : ∀ h, ∀ b ∈ da h, b ≠ []) (s : Sequencer) (c : SequencerCall)
    (h : InOrder da maxBytes start size s.toEpochReader consumed) (hc : c.Undisturbed da maxBytes) :
    InOrder da maxBytes start size (s.call c).toEpochReader (consumed ++ s.callConsumed c) := by
  cases c with
  | submitBatchTxs id batch written =>
    rw [callConsumed, append_nil, call, submitBatchTxs_toEpochReader]
    exact h
  | getNextBatch req env =>
    by_cases hid : s.id = req.id
    · have hle := h.start_le
      have hstep := s.getNextBatch_step req env hid
      rw [bootstrap_eq_self (by omega), hc.limit] at hstep
      exact h.step hstart hsize hda hc.honest hstep
    · -- a call under another chain's id does nothing
      simpa [call, callConsumed, getNextBatch,
        forcedConsumed, hid] using h

theorem BasedSequencer.call_inOrder (hstart : 1 ≤ start) (hsize : 0 < size)
    (hda : ∀ h, ∀ b ∈ da h, b ≠ []) (s : BasedSequencer) (c : GetNextBatchRequest × CallEnv)
    (h : InOrder da maxBytes start size s.toEpochReader consumed)
    (hc : c.2.Undisturbed da maxBytes c.1) :
    InOrder da maxBytes start size (s.getNextBatch c.1 c.2).2.toEpochReader
      (consumed ++ s.forcedConsumed c.1 c.2) := by
  have hstep := s.getNextBatch_step c.1 c.2
  rw [hc.limit] at hstep
  exact h.step hstart hsize hda hc.honest hstep

end

theorem InOrder.fresh {genesis : Genesis} {client : Client} (hns : client.hasForcedNamespace = true)
    (hsize : 0 < genesis.daEpochForcedInclusion)
    (hp : p = ⟨genesis.daStartHeight, ⟨genesis.daStartHeight, 0⟩, [],
      .new client genesis.daStartHeight genesis.daEpochForcedInclusion⟩) :
    InOrder da maxBytes genesis.daStartHeight genesis.daEpochForcedInclusion p [] := by
  subst hp
  refine ⟨⟨hns, rfl, rfl, AsyncBlockRetriever.new_holds _ _ _, le_rfl, rfl⟩, ?_⟩
  have hself : epochStart genesis.daStartHeight genesis.daEpochForcedInclusion
      genesis.daStartHeight = genesis.daStartHeight := by
    rw [epochStart_eq hsize le_rfl, Nat.sub_self, Nat.zero_div, Nat.zero_mul, Nat.add_zero]
  refine .inl ⟨rfl, rfl, ?_⟩
  rw [hself, between_self]

/-- What is consumed is a prefix of the valid blobs from `start` on, in DA order, and the DA height
and the transaction index agree with it. -/
def ExactlyOnceInOrder (da : ℕ → List Blob) (maxBytes start : ℕ) (p : EpochReader)
    (consumed : List Tx) : Prop :=
  consumed <+: between (validBlobs da maxBytes) start (p.checkpoint.daHeight + 1) ∧
    p.daHeight = p.checkpoint.daHeight ∧
    (p.checkpoint.txIndex = 0 ∧ p.epochTxs = [] ∨
      p.checkpoint.txIndex < p.epochTxs.length ∧
        p.epochTxs.take p.checkpoint.txIndex <:+ consumed)

theorem InOrder.exactlyOnce {da : ℕ → List Blob} {maxBytes start size : ℕ}
    {consumed : List Tx} (hsize : 0 < size) (h : InOrder da maxBytes start size p consumed) :
    ExactlyOnceInOrder da maxBytes start p consumed := by
  refine ⟨h.isPrefix hsize, h.daHeight_eq, ?_⟩
  rcases h.position with ⟨hnil, hidx, -⟩ | ⟨-, -, hidx, hcons⟩
  · exact .inl ⟨hidx, hnil⟩
  · exact .inr ⟨hidx, _, hcons.symm⟩

/-- Forced inclusion is exactly-once and in order, in every run of a fresh sequencer of either kind:
the forced transactions consumed so far are a prefix of the valid blobs in DA order, after every
call the DA height and the transaction index agree with it, a consumed transaction is in the batch
of its call if the filter has accepted it and has been removed by the filter if not, and within each
batch the forced transactions come first. -/
theorem forced_txs_exactly_once_in_order (genesis : Genesis) (client : Client)
    (hns : client.hasForcedNamespace = true) (hstart : 1 ≤ genesis.daStartHeight)
    (hsize : 1 ≤ genesis.daEpochForcedInclusion) (da : ℕ → List Blob)
    (hda : ∀ h, ∀ b ∈ da h, b ≠ []) (maxBytes : ℕ) :
    (∀ (id : Bytes) (maxQueueSize : ℕ) (db : SequencerDb), db.checkpoint = none →
      ∀ calls : List SequencerCall, (∀ c ∈ calls, c.Undisturbed da maxBytes) →
        let s := Sequencer.new genesis client id maxQueueSize db
        ExactlyOnceInOrder da maxBytes genesis.daStartHeight
            (calls.foldl Sequencer.call s).toEpochReader
            (Runs.outputs Sequencer.call callConsumed s calls).flatten ∧
          ∀ t req env, (t, .getNextBatch req env) ∈ Runs.steps Sequencer.call s calls →
            let atHand := t.forcedInHand req env
            let statuses := statusesOrAccept env.filter (atHand ++ t.mempoolTaken req env)
              req.maxBytes env.maxGas (0 < atHand.length)
            FiltersInOrder atHand statuses (t.forcedConsumed req env) (t.forcedEmitted req env) ∧
              ∃ mempool, batchOf (t.getNextBatch req env).1 = t.forcedEmitted req env ++ mempool ∧
                mempool.Sublist (t.mempoolTaken req env)) ∧
      (∀ calls : List (GetNextBatchRequest × CallEnv),
        (∀ c ∈ calls, c.2.Undisturbed da maxBytes c.1) →
        let step := fun (s : BasedSequencer) (c : GetNextBatchRequest × CallEnv) =>
          (s.getNextBatch c.1 c.2).2
        let s := BasedSequencer.new genesis client none none
        ExactlyOnceInOrder da maxBytes genesis.daStartHeight
            (calls.foldl step s).toEpochReader
            (Runs.outputs step (fun s c => s.forcedConsumed c.1 c.2) s calls).flatten ∧
          ∀ t req env, (t, req, env) ∈ Runs.steps step s calls →
            FiltersInOrder (t.forcedInHand req env)
              (statusesOrAccept env.filter (t.forcedInHand req env) req.maxBytes env.maxGas true)
              (t.forcedConsumed req env) (batchOf (t.getNextBatch req env).1)) := by
  constructor
  · intro id maxQueueSize db hfresh calls hcalls s
    have hs : InOrder da maxBytes genesis.daStartHeight genesis.daEpochForcedInclusion
        s.toEpochReader [] := by
      refine InOrder.fresh da maxBytes hns hsize ?_
      simp only [s, Sequencer.new, hfresh, Option.getD_none, getInitialDAStartHeight]
      rw [if_pos (by omega)]
    have hrun := Runs.output_invariant Sequencer.call callConsumed
      (fun s hist => InOrder da maxBytes genesis.daStartHeight
        genesis.daEpochForcedInclusion s.toEpochReader hist)
      (fun _ c => c.Undisturbed da maxBytes)
      (fun s c hist hinv hc => s.call_inOrder hstart hsize hda c hinv hc) hs
      (Runs.steps_of_forall hcalls)
    refine ⟨hrun.exactlyOnce hsize, ?_⟩
    intro t req env hmem
    exact getNextBatch_batch (Runs.steps_of_forall hcalls _ hmem).saved
  · intro calls hcalls step s
    have hs : InOrder da maxBytes genesis.daStartHeight genesis.daEpochForcedInclusion
        s.toEpochReader [] := InOrder.fresh da maxBytes hns hsize rfl
    have hrun := Runs.output_invariant step (fun s c => s.forcedConsumed c.1 c.2)
      (fun s hist => InOrder da maxBytes genesis.daStartHeight
        genesis.daEpochForcedInclusion s.toEpochReader hist)
      (fun _ c => c.2.Undisturbed da maxBytes c.1)
      (fun s c hist hinv hc => s.call_inOrder hstart hsize hda c hinv hc) hs
      (Runs.steps_of_forall hcalls)
    refine ⟨hrun.exactlyOnce hsize, ?_⟩
    intro t req env hmem
    exact BasedSequencer.getNextBatch_batch (Runs.steps_of_forall hcalls _ hmem).saved

/-! ## A small chain

A chain with one-height epochs over a DA layer that holds `[1]` at height 1 and `[2]`,
`[3]` at height 2, used where a statement is to be seen at work. Its execution client is
the one the repository ships.
-/

def sampleGenesis : Genesis where
  chainID := "sample"
  startTime := 0
  initialHeight := 1
  proposerAddress := [7]
  daStartHeight := 1
  daEpochForcedInclusion := 1

def sampleClient : Client where
  forcedNamespaceBz := [9]
  hasForcedNamespace := true

def sampleDa (h : ℕ) : List Blob :=
  if h = 1 then [[1]] else if h = 2 then [[2], [3]] else []

def repliesUpTo (da : ℕ → List Blob) (top h : ℕ) : ResultRetrieve :=
  if h ≤ top then ⟨.success, "", h, da h⟩ else ⟨.heightFromFuture, "", 0, []⟩

theorem repliesUpTo_honest (h : ℕ) :
    (repliesUpTo da top h).Honest da h := by
  unfold repliesUpTo
  split_ifs
  · exact .inl ⟨rfl, rfl⟩
  · exact .inr (.inr rfl)

theorem sampleDa_ne_nil : ∀ h, ∀ b ∈ sampleDa h, b ≠ [] := by
  intro h b hb
  unfold sampleDa at hb
  split_ifs at hb
  · simp_all
  · simp at hb
    rcases hb with rfl | rfl <;> simp
  · simp at hb

def sampleEnv (retrieve : ℕ → ResultRetrieve) : CallEnv where
  retrieval := ⟨retrieve, fun _ => []⟩
  latestDAHeight := .error ""
  executionInfo := .ok ⟨0⟩
  filter := cosmosFilterTxs false
  now := 0
  queueDeleted := true
  queueWritten := true
  checkpointSaved := true

def sampleRequest : GetNextBatchRequest := ⟨[5], 1, []⟩

def sampleDb : SequencerDb := ⟨none, ⟨[], []⟩, none, none⟩

theorem sampleEnv_undisturbed :
    (sampleEnv (repliesUpTo sampleDa top)).Undisturbed sampleDa 1 sampleRequest where
  honest := ⟨repliesUpTo_honest sampleDa top, fun _ _ _ h => by cases h⟩
  limit := rfl
  saved := rfl

def sampleSequencer : Sequencer := .new sampleGenesis sampleClient [5] 0 sampleDb

def sampleBasedSequencer : BasedSequencer := .new sampleGenesis sampleClient none none

def openEnv : CallEnv := sampleEnv (repliesUpTo sampleDa 2)

def threeCalls : List SequencerCall := List.replicate 3 (.getNextBatch sampleRequest openEnv)

def threeBasedCalls : List (GetNextBatchRequest × CallEnv) :=
  List.replicate 3 (sampleRequest, openEnv)

/-- Three calls on the small chain: both sequencers consume `[1]`, then `[2]`, then `[3]`, and end
up asking for height 3. What the first call consumes it hands out. -/
theorem forced_txs_in_order_on_sample :
    (outputs call callConsumed sampleSequencer threeCalls).flatten =
        [[1], [2], [3]] ∧
      (∃ mempool, batchOf (sampleSequencer.getNextBatch sampleRequest openEnv).1 =
        [[1]] ++ mempool ∧ mempool.Sublist []) ∧
      FiltersInOrder [[1]] [.filterOK] [[1]]
        (batchOf (sampleBasedSequencer.getNextBatch sampleRequest openEnv).1) ∧
      (threeCalls.foldl call sampleSequencer).checkpoint = ⟨3, 0⟩ ∧
      ExactlyOnceInOrder sampleDa 1 1
        (threeCalls.foldl call sampleSequencer).toEpochReader
        (outputs call callConsumed sampleSequencer
          threeCalls).flatten ∧
      ExactlyOnceInOrder sampleDa 1 1
        (threeBasedCalls.foldl (fun s c => (s.getNextBatch c.1 c.2).2)
          sampleBasedSequencer).toEpochReader
        (outputs (fun s c => (s.getNextBatch c.1 c.2).2)
          (fun s c => s.forcedConsumed c.1 c.2) sampleBasedSequencer threeBasedCalls).flatten := by
  have hcalls : ∀ c ∈ threeCalls, c.Undisturbed sampleDa 1 := by
    intro c hc
    rw [eq_of_mem_replicate hc]
    exact sampleEnv_undisturbed 2
  have hbased : ∀ c ∈ threeBasedCalls, c.2.Undisturbed sampleDa 1 c.1 := by
    intro c hc
    rw [eq_of_mem_replicate hc]
    exact sampleEnv_undisturbed 2
  have hboth := forced_txs_exactly_once_in_order sampleGenesis sampleClient rfl (by decide)
    (by decide) sampleDa sampleDa_ne_nil 1
  refine ⟨by decide, ?_, ?_, by decide, ?_, ?_⟩
  · exact ((hboth.1 [5] 0 sampleDb rfl threeCalls hcalls).2 sampleSequencer sampleRequest openEnv
      mem_cons_self).2
  · exact (hboth.2 threeBasedCalls hbased).2 sampleBasedSequencer sampleRequest openEnv
      mem_cons_self
  · exact (hboth.1 [5] 0 sampleDb rfl threeCalls hcalls).1
  · exact (hboth.2 threeBasedCalls hbased).1

end ChainSdk

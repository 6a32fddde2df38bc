/-
Catching up is based sequencing.

A single sequencer that comes back after a downtime works off the epochs it missed from DA alone, so
that the nodes that sequenced for themselves meanwhile, as based sequencers, have built the same
blocks.
-/
import ChainSdk.SequencerOrder

namespace ChainSdk

open BasedSequencer List Runs Sequencer

/-- A filter that looks at the transactions and at the byte limit only. -/
def TxFilter.OfTxsAndLimit (filter : TxFilter) : Prop :=
  ∃ f : List Tx → ℕ → Except String (List FilterStatus),
    ∀ txs maxBytes maxGas forced, filter.filterTxs txs maxBytes maxGas forced = f txs maxBytes

/-- The two sequencers stand at the same place, with the same clock. -/
structure SideBySide (s : Sequencer) (b : BasedSequencer) : Prop where
  reader : s.toEpochReader = b.toEpochReader
  clock : s.clock = b.clock
  placed : s.checkpoint.daHeight ≠ 0
  floor : s.catchUpState = .catchUpUnchecked → ∀ state, s.db.lastState = some state →
    state.lastBlockTime ≤ s.clock.currentDAEndTime

namespace SideBySide

variable {s : Sequencer} {b : BasedSequencer} {req : GetNextBatchRequest} {env : CallEnv}

theorem updateCatchUpState_clock_eq (h : SideBySide s b) (env : CallEnv) :
    (s.updateCatchUpState env).clock = s.clock := by
  rcases s.updateCatchUpState_clock env with ⟨-, hsame⟩ | ⟨hunchecked, ⟨-, hclock⟩ | ⟨-, hclock⟩⟩
  · rw [hsame]
  · exact hclock
  · -- the floor is the stored block time only where that is the later one
    have hfloor : s.catchUpFloor = s.clock.currentDAEndTime := by
      unfold catchUpFloor
      rcases hlast : s.db.lastState with _ | state
      · rfl
      · have hle := h.floor hunchecked state hlast
        exact if_neg (fun hlater => absurd hle (not_le.mpr hlater.2))
    rw [hclock, hfloor]

/-- The fetch of a call that stays in catch-up: the same answer, the same epoch, the same
clock. -/
theorem fetchIfNeeded (h : SideBySide s b) (maxBytes : ℕ) (env : CallEnv)
    (hstays : (s.fetchIfNeeded maxBytes env).2.catchUpState = .catchUpInProgress) :
    (s.fetchIfNeeded maxBytes env).1 = (b.fetchIfNeeded maxBytes env).1 ∧
      (s.fetchIfNeeded maxBytes env).2.toEpochReader =
        (b.fetchIfNeeded maxBytes env).2.toEpochReader ∧
      (s.fetchIfNeeded maxBytes env).2.clock = (b.fetchIfNeeded maxBytes env).2.clock := by
  unfold Sequencer.fetchIfNeeded at hstays
  unfold Sequencer.fetchIfNeeded BasedSequencer.fetchIfNeeded
  by_cases hneeds : s.needsFetch = true
  · rw [if_pos hneeds] at hstays
    rw [if_pos hneeds, if_pos (h.reader ▸ hneeds)]
    -- both ask the same retriever for the same height
    have hbased := (b.fetchNextDAEpoch_spec maxBytes env).2
    have hclock := h.updateCatchUpState_clock_eq env
    rw [← h.reader] at hbased
    rcases s.fetchNextDAEpoch_spec maxBytes env with ⟨event, hres, hend, hreader, -, htook⟩ |
      ⟨e, hres, hkept, ⟨-, hover, -⟩ | ⟨herr, hconf, hfut, -, hreader⟩⟩
    · simp only [hres, Except.ok.injEq, exists_eq_left', reduceCtorEq, false_and, exists_false,
        or_false] at hbased
      rw [hend, hreader, htook, hbased.1, hbased.2.1, hbased.2.2, hclock, h.clock]
      exact ⟨rfl, rfl, rfl⟩
    · exact absurd hstays hover
    · simp only [hres, Except.error.injEq, exists_eq_left', reduceCtorEq, false_and, exists_false,
        false_or] at hbased
      obtain ⟨-, hbreader, hbclock, hberr⟩ := hbased
      rw [herr, hreader, hkept, hbreader, hbclock, hberr hconf hfut, hclock, h.clock]
      exact ⟨rfl, rfl, rfl⟩
  · rw [if_neg hneeds, if_neg (h.reader ▸ hneeds)]
    exact ⟨congrArg (fun p => Except.ok p.daHeight) h.reader, h.reader, h.clock⟩

theorem forced_eq {c : Collected} {b' : BasedSequencer}
    (hc : (s.collect req env).1 = .ok c) (hfilter : env.filter.OfTxsAndLimit)
    (hcatch : c.seq.catchUpState = .catchUpInProgress)
    (hreader : (s.bootstrap.fetchIfNeeded req.maxBytes env).2.toEpochReader = b'.toEpochReader) :
    c.forced = b'.processed req.maxBytes env ∧ c.batchTxs = c.forced.1 := by
  obtain ⟨-, hseq, hforced, htxs, hstatuses⟩ := collect_ok hc
  obtain ⟨-, hstate, -⟩ := collect_frame hc
  have hmempool : c.mempoolTxs = [] := by
    rw [htxs, takeMempool, if_pos (hstate ▸ hcatch)]
  rw [hmempool, append_nil] at hstatuses
  constructor
  · -- the flag about forced transactions is the only difference, and the filter ignores it
    have hsame : ∀ flag flag', statusesOrAccept env.filter c.forcedTxs req.maxBytes env.maxGas
        flag = statusesOrAccept env.filter c.forcedTxs req.maxBytes env.maxGas flag' := by
      obtain ⟨f, hf⟩ := hfilter
      intro flag flag'
      unfold statusesOrAccept
      rw [hf, hf]
    unfold Collected.forced processed
    rw [hstatuses, take_of_length_le (statusesOrAccept_length ..).le, hsame _ true, hforced,
      hreader]
  · unfold Collected.batchTxs Collected.mempoolWith
    rw [hmempool, zip_nil_left, filter_nil, map_nil, append_nil]

theorem getNextBatch (h : SideBySide s b) (hid : s.id = req.id) (hfilter : env.filter.OfTxsAndLimit)
    (hstays : (s.getNextBatch req env).2.catchUpState = .catchUpInProgress) :
    (s.getNextBatch req env).1 = (b.getNextBatch req env).1 ∧
      SideBySide (s.getNextBatch req env).2 (b.getNextBatch req env).2 := by
  have hboot : s.bootstrap = s := bootstrap_eq_self h.placed
  have hplaced := (s.getNextBatch_step req env hid).placed (by
    rw [hboot]
    exact h.placed)
  have hfloor : (s.getNextBatch req env).2.catchUpState ≠ .catchUpUnchecked := by
    rw [hstays]
    simp
  rcases hb : b.fetchIfNeeded req.maxBytes env with ⟨out, b'⟩
  rcases hs : s.bootstrap.fetchIfNeeded req.maxBytes env with ⟨e | daHeight, s'⟩
  · -- the fetch fails, and with it the call
    have hcall : s.getNextBatch req env = (.error e, s') := by
      unfold Sequencer.getNextBatch Sequencer.collect
      rw [if_neg (not_not.mpr hid), hs]
    rw [hcall] at hstays hplaced hfloor
    have hstays' : (s.fetchIfNeeded req.maxBytes env).2.catchUpState = .catchUpInProgress := by
      rw [← hboot, hs]
      exact hstays
    obtain ⟨hout, hreader, hclock⟩ := h.fetchIfNeeded req.maxBytes env hstays'
    rw [← hboot, hs, hb] at hout hreader hclock
    obtain rfl : out = .error e := hout.symm
    have hbcall : b.getNextBatch req env = (.error e, b') := by
      unfold BasedSequencer.getNextBatch
      rw [hb]
    rw [hcall, hbcall]
    exact ⟨rfl, hreader, hclock, hplaced, fun hbad => absurd hbad hfloor⟩
  · obtain ⟨c, hc, hcall⟩ : ∃ c, (s.collect req env).1 = .ok c ∧
        s.getNextBatch req env = finish c req env := by
      unfold Sequencer.getNextBatch Sequencer.collect
      rw [if_neg (not_not.mpr hid), hs]
      exact ⟨_, rfl, rfl⟩
    obtain ⟨-, -, hfinal, hfinalClock, -⟩ := finish_frame c req env
    obtain ⟨hseqReader, hstate, hseqClock, -⟩ := collect_frame hc
    obtain ⟨hheight, -, hforcedTxs, -⟩ := collect_ok hc
    have hcatch : c.seq.catchUpState = .catchUpInProgress := by
      rw [← hfinal, ← hcall]
      exact hstays
    obtain ⟨hout, hreader, hclock⟩ := h.fetchIfNeeded req.maxBytes env (by
      rw [← hboot, ← hstate]
      exact hcatch)
    rw [← hboot, hb] at hout hreader hclock
    obtain ⟨hforced, hbatch⟩ := forced_eq hc hfilter hcatch hreader
    obtain rfl : out = .ok c.daHeight := hout.symm.trans hheight
    have hbcall : b.getNextBatch req env = b'.finish c.daHeight req env := by
      unfold BasedSequencer.getNextBatch
      rw [hb]
    -- both halves agree on the guard, on the transactions and on the clock
    have hremaining : c.forcedTxs = b'.remaining := by rw [hforcedTxs, hreader]
    have hactive : c.Active ↔ b'.Active c.daHeight := by
      unfold Collected.Active BasedSequencer.Active
      rw [hremaining]
    have hseq : c.seq.toEpochReader = b'.toEpochReader := hseqReader.trans hreader
    have hseqClk : c.seq.clock = b'.clock := hseqClock.trans hclock
    rw [hcall] at hplaced hfloor ⊢
    rw [hbcall]
    refine ⟨?_, ?_, ?_, hplaced, fun hbad => absurd hbad hfloor⟩
    · rw [Sequencer.finish_result, BasedSequencer.finish_result, hbatch]
      unfold Collected.timestamp Collected.timestampIndex
      simp only [hcatch, true_or, if_true, true_and, hactive, hseqClk, hseq, hforced]
    · rw [Sequencer.finish_toEpochReader, BasedSequencer.finish_toEpochReader, hremaining, hseq,
        hforced]
    · rw [hfinalClock, hseqClk, (b'.finish_frame c.daHeight req env).1]

end SideBySide

/-! ## Whole runs -/

/-- What a caller sees of one call of the single sequencer: the answer and the checkpoint it
leaves. -/
def Sequencer.observe (s : Sequencer) (c : GetNextBatchRequest × CallEnv) :
    Except SequencerError GetNextBatchResponse × Checkpoint :=
  ((s.getNextBatch c.1 c.2).1, (s.getNextBatch c.1 c.2).2.checkpoint)

def BasedSequencer.observe (b : BasedSequencer) (c : GetNextBatchRequest × CallEnv) :
    Except SequencerError GetNextBatchResponse × Checkpoint :=
  ((b.getNextBatch c.1 c.2).1, (b.getNextBatch c.1 c.2).2.checkpoint)

/-- Catching up equals based sequencing. Both start at the checkpoint that is the DA height they
were told, with nothing cached, the clock at genesis and one retriever; the queue is any, and no
stored block is later than genesis. As long as every call leaves the single sequencer catching up,
the two answer alike and leave the same checkpoints. -/
theorem catchUp_equals_based (s : Sequencer) (b : BasedSequencer) (checkpoint : Checkpoint)
    (hheight : 1 ≤ checkpoint.daHeight)
    (hs : s.toEpochReader = ⟨checkpoint.daHeight, checkpoint, [], s.fiRetriever⟩)
    (hb : b.toEpochReader = ⟨checkpoint.daHeight, checkpoint, [], s.fiRetriever⟩)
    (hsclock : s.clock = ⟨s.genesis.startTime, 0⟩) (hbclock : b.clock = ⟨s.genesis.startTime, 0⟩)
    (hlast : ∀ state, s.db.lastState = some state → state.lastBlockTime ≤ s.genesis.startTime)
    (calls : List (GetNextBatchRequest × CallEnv))
    (hcalls : ∀ c ∈ calls, c.1.id = s.id ∧ c.2.filter.OfTxsAndLimit)
    (hstays : ∀ p ∈ steps (fun t c => (t.getNextBatch c.1 c.2).2) s calls,
      (p.1.getNextBatch p.2.1 p.2.2).2.catchUpState = .catchUpInProgress) :
    Runs.outputs (fun t c => (t.getNextBatch c.1 c.2).2) Sequencer.observe s calls =
      outputs (fun t c => (t.getNextBatch c.1 c.2).2) BasedSequencer.observe b calls := by
  have hstart : SideBySide s b ∧ s.id = s.id := by
    refine ⟨⟨hs.trans hb.symm, hsclock.trans hbclock.symm, ?_, ?_⟩, rfl⟩
    · rw [hs]
      show checkpoint.daHeight ≠ 0
      omega
    · intro _ state hstate
      rw [hsclock]
      exact hlast state hstate
  refine (lockstep _ _ _ _ (fun _ t b => SideBySide t b ∧ t.id = s.id)
    (fun t c => (c.1.id = s.id ∧ c.2.filter.OfTxsAndLimit) ∧
      (t.getNextBatch c.1 c.2).2.catchUpState = .catchUpInProgress)
    calls (n := 0) hstart ?_ ?_).2
  · intro p hp
    exact ⟨steps_of_forall hcalls p hp, hstays p hp⟩
  · rintro - t b' c - ⟨⟨hid, hfilter⟩, hstay⟩ ⟨hside, hid'⟩
    obtain ⟨hres, hnext⟩ := hside.getNextBatch (hid'.trans hid.symm) hfilter hstay
    refine ⟨⟨hnext, (t.getNextBatch_id c.1 c.2).trans hid'⟩, ?_⟩
    exact Prod.ext hres (congrArg EpochReader.checkpoint hnext.reader)

/-- A recovering sequencer with a full queue on the small chain: DA is at height 5, so it is
behind. -/
def recoveringSequencer : Sequencer :=
  (sampleSequencer.submitBatchTxs [5] ⟨[[8], [9]]⟩ true).2

def recoveryCalls : List (GetNextBatchRequest × CallEnv) :=
  List.replicate 3 (sampleRequest, { openEnv with latestDAHeight := .ok 5 })

/-- Three calls while it recovers hand out `[1]`, `[2]` and `[3]`, as those of the based one. -/
theorem catchUp_equals_based_on_sample :
    (Runs.outputs (fun t c => (t.getNextBatch c.1 c.2).2) Sequencer.observe recoveringSequencer
        recoveryCalls).map (fun o => (batchOf o.1, o.2)) =
        [([[1]], ⟨2, 0⟩), ([[2]], ⟨2, 1⟩), ([[3]], ⟨3, 0⟩)] ∧
      Runs.outputs (fun t c => (t.getNextBatch c.1 c.2).2) Sequencer.observe recoveringSequencer
          recoveryCalls =
        outputs (fun t c => (t.getNextBatch c.1 c.2).2) BasedSequencer.observe
          sampleBasedSequencer recoveryCalls := by
  refine ⟨by decide, ?_⟩
  apply catchUp_equals_based recoveringSequencer sampleBasedSequencer ⟨1, 0⟩ (by decide) rfl rfl
    rfl rfl
  · intro state hstate
    cases hstate
  · intro c hc
    rw [eq_of_mem_replicate hc]
    exact ⟨rfl, fun txs maxBytes => .ok (cosmosFilterLoop maxBytes 0 txs), fun _ _ _ _ => rfl⟩
  · decide

end ChainSdk

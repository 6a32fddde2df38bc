/-
The persisted checkpoint across restarts.

Three components write the two positions a single sequencer works with.
-/
import ChainSdk.SequencerOrder
import Mathlib.Data.Prod.Lex

namespace ChainSdk

open EpochReader List Runs Sequencer

/-! ## The order of positions -/

def Checkpoint.key (c : Checkpoint) : ℕ ×ₗ ℕ := toLex (c.daHeight, c.txIndex)

variable {i : ℕ} {c' c : Checkpoint} {hist : List (ℕ ×ₗ ℕ)} {s : Sequencer}

theorem Checkpoint.key_le_iff :
    c.key ≤ c'.key ↔ c.daHeight < c'.daHeight ∨
      c.daHeight = c'.daHeight ∧ c.txIndex ≤ c'.txIndex :=
  Prod.Lex.toLex_le_toLex

def Checkpoint.position (c : Checkpoint) (i : ℕ) : ℕ ×ₗ ℕ := toLex (c.daHeight, c.txIndex + i)

theorem Checkpoint.position_lt_iff :
    c.position i < c'.key ↔ c.daHeight < c'.daHeight ∨
      c.daHeight = c'.daHeight ∧ c.txIndex + i < c'.txIndex :=
  Prod.Lex.toLex_lt_toLex

theorem Checkpoint.key_le_position (c : Checkpoint) (i : ℕ) : c.key ≤ c.position i :=
  Prod.Lex.toLex_le_toLex.mpr (.inr ⟨rfl, Nat.le_add_right _ _⟩)

theorem Checkpoint.position_lt_position {j : ℕ} (hij : i < j) :
    c.position i < c.position j :=
  Prod.Lex.toLex_lt_toLex.mpr (.inr ⟨rfl, Nat.add_lt_add_left hij _⟩)

/-! ## Events of a node -/

/-- What happens to the single sequencer of a node. -/
inductive NodeEvent
  /-- A call by another component. -/
  | call (c : SequencerCall)
  /-- The executor commits a block: the state saved with it has the DA height that the
  sequencer reports at that moment. -/
  | commitBlock (blockTime : Time)
  /-- The process restarts and the executor injects the DA height of the last state. -/
  | restart
  /-- The submitter learns the DA height of the first included block. -/
  | learnGenesisDAHeight (height : ℕ)

namespace Sequencer

def nodeStep (maxQueueSize : ℕ) (s : Sequencer) : NodeEvent → Sequencer
  | .call c => s.call c
  | .commitBlock blockTime =>
    { s with db := { s.db with lastState := some ⟨s.getDAHeight, blockTime⟩ } }
  | .restart =>
    (new s.genesis s.client s.id maxQueueSize s.db).setDAHeight
      ((s.db.lastState.map StoredState.daHeight).getD s.genesis.daStartHeight)
  | .learnGenesisDAHeight height =>
    { s.setDAHeight height with db := { s.db with genesisDAHeight := some height } }

def persisted (s : Sequencer) : WithBot (ℕ ×ₗ ℕ) :=
  match s.db.checkpoint with
  | none => ⊥
  | some c => c.key

/-- The positions of the forced stream an event consumes for good: those of a call whose
checkpoint write goes through. -/
def consumedPositions (s : Sequencer) : NodeEvent → List (ℕ ×ₗ ℕ)
  | .call (.getNextBatch req env) =>
    if env.checkpointSaved then
      (List.range (s.forcedConsumed req env).length).map s.bootstrap.checkpoint.position
    else []
  | _ => []

end Sequencer

/-- A call that works on an epoch fetched earlier finds the DA height the sequencer was
told at, or above, the checkpoint's. Other events are unrestricted. -/
def NodeEvent.InStep (s : Sequencer) : NodeEvent → Prop
  | .call (.getNextBatch _ _) => s.remaining = [] ∨ s.checkpoint.daHeight ≤ s.daHeight
  | _ => True

/-! ## One call -/

section

variable {maxBytes : ℕ} {env : RetrieveEnv} {p p' : EpochReader} {taken : List Tx}

theorem EpochReader.advance_key {daHeight n : ℕ} (hle : p.checkpoint.daHeight ≤ daHeight) :
    p.checkpoint.key ≤ (p.advance daHeight n).checkpoint.key ∧
      ∀ i < n, p.checkpoint.position i < (p.advance daHeight n).checkpoint.key := by
  unfold EpochReader.advance
  split_ifs
  · refine ⟨Checkpoint.key_le_iff.mpr (.inl ?_), fun i _ =>
      Checkpoint.position_lt_iff.mpr (.inl ?_)⟩
    · exact Nat.lt_succ_of_le hle
    · exact Nat.lt_succ_of_le hle
  · refine ⟨Checkpoint.key_le_iff.mpr (.inr ⟨rfl, Nat.le_add_right _ _⟩), fun i hi =>
      Checkpoint.position_lt_iff.mpr (.inr ⟨rfl, Nat.add_lt_add_left hi _⟩)⟩

/-- A move that works on a cached epoch only in step with the checkpoint does not take the
checkpoint back, and leaves everything it consumes behind it. -/
theorem EpochReader.Step.key_le (hstep : EpochReader.Step maxBytes env p p' taken)
    (hin : p.remaining = [] ∨ p.checkpoint.daHeight ≤ p.daHeight) :
    p.checkpoint.key ≤ p'.checkpoint.key ∧
      ∀ i < taken.length, p.checkpoint.position i < p'.checkpoint.key := by
  cases hstep with
  | idle hneeds hnone | notFetched e hneeds hres | notConfigured hneeds hres =>
    exact ⟨le_rfl, by simp⟩
  | fetchedNothing _ event hneeds hres htake hzero hnone =>
    rw [htake]
    exact ⟨le_rfl, by simp⟩
  | fetched p₁ event n hneeds hres htake hact hn =>
    -- the fetch was made at the checkpoint, so the event ends there
    have hend := ForcedInclusionRetriever.retrieve_endDaHeight hres
    have hcp : p₁.checkpoint = p.checkpoint := by rw [htake]; rfl
    rw [length_take, Nat.min_eq_left hn, ← hcp]
    exact advance_key (by rw [hcp, hend])
  | served n hneeds hact hn =>
    rw [length_take, Nat.min_eq_left hn]
    rcases hin with hnone | hle
    · -- nothing is left although nothing is to be fetched: the sequencer is dormant
      rw [hnone, length_nil] at hn hact
      exfalso
      simp only [needsFetch, decide_eq_false_iff_not] at hneeds
      unfold remaining at hnone
      split_ifs at hnone with hcond
      · rw [drop_eq_nil_iff] at hnone
        omega
      · omega
    · exact advance_key hle

end

namespace Sequencer

/-! ## What a call persists -/

/-- A call leaves the persisted checkpoint alone or sets it to the one in memory. -/
theorem getNextBatch_db_checkpoint (s : Sequencer) (req : GetNextBatchRequest) (env : CallEnv) :
    ((s.getNextBatch req env).2.db.checkpoint = s.db.checkpoint ∨
        (s.getNextBatch req env).2.db.checkpoint =
          some (s.getNextBatch req env).2.checkpoint) ∧
      (env.checkpointSaved = true → s.forcedConsumed req env ≠ [] →
        (s.getNextBatch req env).2.db.checkpoint =
          some (s.getNextBatch req env).2.checkpoint) := by
  by_cases hid : s.id = req.id
  · cases hfetch : (s.bootstrap.fetchIfNeeded req.maxBytes env).1 with
    | error e =>
      obtain ⟨hmove, hcons⟩ := getNextBatch_of_fetch_error hid hfetch
      rw [hmove, hcons, (fetchIfNeeded_frame s.bootstrap req.maxBytes env).2.1,
        (bootstrap_frame s).2.1]
      exact ⟨.inl rfl, fun _ h => absurd rfl h⟩
    | ok daHeight =>
      obtain ⟨c, hc⟩ : ∃ c : Collected, s.collect req env = (.ok c, c.seq) := by
        simp only [collect, hfetch]
        exact ⟨_, rfl⟩
      obtain ⟨-, -, -, -, -, -, hcdb, -⟩ := collect_frame (congrArg Prod.fst hc)
      have hnext : s.getNextBatch req env = finish c req env := by
        simp only [getNextBatch, hid, ne_eq, not_true_eq_false, if_false, hc]
      have hcons : s.forcedConsumed req env = c.forcedTxs.take c.forced.2 := by
        simp only [forcedConsumed, hid, ne_eq, not_true_eq_false, if_false, hc]
      obtain ⟨-, -, -, -, -, -, -, -, hsaved⟩ := finish_frame c req env
      rw [hnext, hcons, hsaved]
      refine ⟨?_, ?_⟩
      · split_ifs
        · exact .inr rfl
        · exact .inl hcdb
      · intro hsaved htaken
        have hpos : 0 < c.forcedTxs.length := by
          rw [length_pos_iff]
          intro hnil
          rw [hnil, take_nil] at htaken
          exact htaken rfl
        rw [if_pos ⟨.inr hpos, hsaved⟩]
  · have hsame : (s.getNextBatch req env).2 = s := by
      simp [getNextBatch, hid]
    have hcons : s.forcedConsumed req env = [] := by simp [forcedConsumed, hid]
    rw [hsame, hcons]
    exact ⟨.inl rfl, fun _ h => absurd rfl h⟩

theorem bootstrap_key_le (s : Sequencer) : s.checkpoint.key ≤ s.bootstrap.checkpoint.key := by
  unfold bootstrap
  split_ifs with hcond
  · refine Checkpoint.key_le_iff.mpr (.inl ?_)
    rw [hcond.2]
    exact hcond.1
  · exact le_rfl

theorem getNextBatch_key_le (s : Sequencer) (req : GetNextBatchRequest) (env : CallEnv)
    (hin : NodeEvent.InStep s (.call (.getNextBatch req env))) :
    s.checkpoint.key ≤ (s.getNextBatch req env).2.checkpoint.key ∧
      ∀ i < (s.forcedConsumed req env).length,
        s.bootstrap.checkpoint.position i < (s.getNextBatch req env).2.checkpoint.key := by
  by_cases hid : s.id = req.id
  · have hin' : s.bootstrap.toEpochReader.remaining = [] ∨
        s.bootstrap.checkpoint.daHeight ≤ s.bootstrap.daHeight := by
      unfold bootstrap
      split_ifs with hcond
      · exact .inr le_rfl
      · exact hin
    obtain ⟨hle, hlt⟩ := (s.getNextBatch_step req env hid).key_le hin'
    exact ⟨s.bootstrap_key_le.trans hle, hlt⟩
  · simp [getNextBatch, forcedConsumed, hid]

/-! ## Runs of a node -/

theorem persisted_of_some (h : s.db.checkpoint = some c) :
    s.persisted = (c.key : WithBot (ℕ ×ₗ ℕ)) := by
  rw [persisted, h]

theorem persisted_congr {s' : Sequencer} (h : s'.db.checkpoint = s.db.checkpoint) :
    s'.persisted = s.persisted := by
  rw [persisted, persisted, h]

/-- What is persisted is not ahead of memory, and the positions consumed for good increase and lie
before it. -/
structure NodeInv (s : Sequencer) (hist : List (ℕ ×ₗ ℕ)) : Prop where
  persisted_le : s.persisted ≤ (s.checkpoint.key : WithBot (ℕ ×ₗ ℕ))
  consumed_lt : ∀ x ∈ hist, (x : WithBot (ℕ ×ₗ ℕ)) < s.persisted
  increasing : hist.Pairwise (· < ·)

/-- A call in step with the checkpoint: the invariant is kept and what is persisted does
not go down. -/
theorem getNextBatch_nodeInv (h : s.NodeInv hist) (req : GetNextBatchRequest) (env : CallEnv)
    (hin : NodeEvent.InStep s (.call (.getNextBatch req env))) :
    s.persisted ≤ (s.getNextBatch req env).2.persisted ∧
      (s.getNextBatch req env).2.NodeInv
        (hist ++ s.consumedPositions (.call (.getNextBatch req env))) := by
  obtain ⟨hkey, hpast⟩ := s.getNextBatch_key_le req env hin
  obtain ⟨hdb, hwritten⟩ := s.getNextBatch_db_checkpoint req env
  have hkey' : (s.checkpoint.key : WithBot (ℕ ×ₗ ℕ)) ≤
      ((s.getNextBatch req env).2.checkpoint.key : WithBot (ℕ ×ₗ ℕ)) :=
    WithBot.coe_le_coe.mpr hkey
  have hmono : s.persisted ≤ (s.getNextBatch req env).2.persisted ∧
      (s.getNextBatch req env).2.persisted ≤
        ((s.getNextBatch req env).2.checkpoint.key : WithBot (ℕ ×ₗ ℕ)) := by
    rcases hdb with hsame | hnew
    · rw [persisted_congr hsame]
      exact ⟨le_rfl, h.persisted_le.trans hkey'⟩
    · rw [persisted_of_some hnew]
      exact ⟨h.persisted_le.trans hkey', le_rfl⟩
  refine ⟨hmono.1, hmono.2, ?_, ?_⟩
  · intro x hx
    rcases mem_append.mp hx with hold | hnew
    · exact (h.consumed_lt x hold).trans_le hmono.1
    -- a position of this call: its checkpoint has been written
    simp only [consumedPositions] at hnew
    split_ifs at hnew with hsaved
    · obtain ⟨i, hi, rfl⟩ := mem_map.mp hnew
      rw [mem_range] at hi
      have hne : s.forcedConsumed req env ≠ [] := by
        intro hnil
        rw [hnil] at hi
        exact absurd hi (Nat.not_lt_zero i)
      rw [persisted_of_some (hwritten hsaved hne)]
      exact WithBot.coe_lt_coe.mpr (hpast i hi)
    · exact absurd hnew not_mem_nil
  · refine pairwise_append.mpr ⟨h.increasing, ?_, ?_⟩
    · simp only [consumedPositions]
      split_ifs
      · refine pairwise_map.mpr (List.Pairwise.imp ?_ pairwise_lt_range)
        intro i j hij
        exact Checkpoint.position_lt_position hij
      · exact List.Pairwise.nil
    · intro x hold y hnew
      have hx : (x : WithBot (ℕ ×ₗ ℕ)) < (s.checkpoint.key : WithBot (ℕ ×ₗ ℕ)) :=
        (h.consumed_lt x hold).trans_le h.persisted_le
      have hboot := s.bootstrap_key_le
      simp only [consumedPositions] at hnew
      split_ifs at hnew
      · obtain ⟨i, -, rfl⟩ := mem_map.mp hnew
        exact ((WithBot.coe_lt_coe.mp hx).trans_le hboot).trans_le
          (Checkpoint.key_le_position _ i)
      · exact absurd hnew not_mem_nil

/-- Every event in step with the checkpoint keeps the invariant and does not lower what is
persisted. -/
theorem nodeStep_nodeInv (maxQueueSize : ℕ)
    (e : NodeEvent) (h : s.NodeInv hist) (hin : e.InStep s) :
    s.persisted ≤ (s.nodeStep maxQueueSize e).persisted ∧
      (s.nodeStep maxQueueSize e).NodeInv (hist ++ s.consumedPositions e) := by
  -- events that touch neither the checkpoint nor its saved copy
  have hframe : ∀ s' : Sequencer, s'.db.checkpoint = s.db.checkpoint →
      s.persisted ≤ (s'.checkpoint.key : WithBot (ℕ ×ₗ ℕ)) →
      s.persisted ≤ s'.persisted ∧ s'.NodeInv (hist ++ []) := by
    intro s' hdb hle
    have hp := persisted_congr hdb
    rw [append_nil]
    exact ⟨hp.ge, hp.le.trans hle, fun x hx => (h.consumed_lt x hx).trans_eq hp.symm, h.increasing⟩
  cases e with
  | call c =>
    cases c with
    | getNextBatch req env => exact getNextBatch_nodeInv h req env hin
    | submitBatchTxs id batch written =>
      refine hframe _ ?_ ?_
      · simp only [nodeStep, call, submitBatchTxs]
        split_ifs
        · rfl
        · rfl
        · split <;> rfl
      · have hreader := s.submitBatchTxs_toEpochReader id batch written
        simp only [nodeStep, call]
        rw [hreader]
        exact h.persisted_le
  | commitBlock blockTime | learnGenesisDAHeight height => exact hframe _ rfl h.persisted_le
  | restart =>
    refine hframe _ rfl ?_
    simp only [nodeStep, new, persisted]
    cases s.db.checkpoint with
    | none => exact bot_le
    | some c => exact le_rfl

end Sequencer

/-- In every run of a node whose calls are all in step with the checkpoint, the persisted
checkpoints are lexicographically non-decreasing, and the positions of the forced stream that are
consumed for good strictly increasing, so that none is consumed again after a restart. -/
theorem checkpoint_never_rewinds (genesis : Genesis) (client : Client) (id : Bytes)
    (maxQueueSize : ℕ) (db : SequencerDb) (events : List NodeEvent)
    (hin : ∀ p ∈ steps (nodeStep maxQueueSize)
      (new genesis client id maxQueueSize db) events, p.2.InStep p.1) :
    let s := new genesis client id maxQueueSize db
    (∀ earlier later, events = earlier ++ later →
        (earlier.foldl (nodeStep maxQueueSize) s).persisted ≤
          (events.foldl (nodeStep maxQueueSize) s).persisted) ∧
      (outputs (nodeStep maxQueueSize) consumedPositions s
        events).flatten.Pairwise (· < ·) := by
  intro s
  have hs : s.NodeInv [] := by
    refine ⟨?_, by simp, List.Pairwise.nil⟩
    simp only [s, new]
    cases db.checkpoint with
    | none => exact bot_le
    | some c => exact le_rfl
  refine ⟨?_, ?_⟩
  · rintro earlier later rfl
    rw [steps_append] at hin
    rw [foldl_append]
    -- the invariant at the cut, then the measure from there on
    have hkeep : ∀ s e, (∃ hist, Sequencer.NodeInv s hist) → e.InStep s →
        ∃ hist, (s.nodeStep maxQueueSize e).NodeInv hist := by
      rintro s e ⟨hist, h⟩ hC
      exact ⟨_, (nodeStep_nodeInv maxQueueSize e h hC).2⟩
    have hmid := foldl_invariant (nodeStep maxQueueSize)
      (fun s => ∃ hist, s.NodeInv hist) (fun s e => e.InStep s) hkeep ⟨[], hs⟩
      (fun p hp => hin p (mem_append_left _ hp))
    refine foldl_monotone (nodeStep maxQueueSize)
      (fun s => ∃ hist, s.NodeInv hist) (fun s e => e.InStep s) persisted hkeep ?_
      hmid (fun p hp => hin p (mem_append_right _ hp))
    rintro s e ⟨hist, h⟩ hC
    exact (nodeStep_nodeInv maxQueueSize e h hC).1
  · have hrun := history_invariant (nodeStep maxQueueSize)
      consumedPositions Sequencer.NodeInv (fun s e => e.InStep s)
      (fun s e hist h hC => (nodeStep_nodeInv maxQueueSize e h hC).2) hs hin
    exact hrun.increasing

def sampleCall : NodeEvent :=
  .call (.getNextBatch sampleRequest openEnv)

def sampleRun (events : List NodeEvent) : Sequencer :=
  events.foldl (nodeStep 0) sampleSequencer

/-- The first call consumes `[1]` and persists `(2, 0)`. After a restart before the block is
committed the sequencer is told DA height 1 again: the second call consumes `[2]`, the third
finishes the epoch and persists `(2, 0)`, and the fourth consumes `[2]` again. -/
theorem checkpoint_rewinds_after_restart :
    (sampleRun [sampleCall, .restart, sampleCall]).db.checkpoint = some ⟨2, 1⟩ ∧
      (sampleRun [sampleCall, .restart, sampleCall, sampleCall]).db.checkpoint =
        some ⟨2, 0⟩ ∧
      ¬ (sampleRun [sampleCall, .restart, sampleCall]).persisted ≤
        (sampleRun [sampleCall, .restart, sampleCall, sampleCall]).persisted ∧
      ¬ (outputs (nodeStep 0) consumedPositions sampleSequencer
        [sampleCall, .restart, sampleCall, sampleCall, sampleCall]).flatten.Pairwise
          (· < ·) := by
  have hbefore : (sampleRun [sampleCall, .restart, sampleCall]).db.checkpoint =
      some ⟨2, 1⟩ := by decide
  have hafter : (sampleRun [sampleCall, .restart, sampleCall, sampleCall]).db.checkpoint =
      some ⟨2, 0⟩ := by decide
  refine ⟨hbefore, hafter, ?_, ?_⟩
  · decide
  · decide

def committedRun : List NodeEvent :=
  [sampleCall, .commitBlock 0, .restart, sampleCall, sampleCall]

theorem checkpoint_kept_when_committed :
    (sampleRun committedRun).db.checkpoint = some ⟨3, 0⟩ ∧
      (outputs (nodeStep 0) consumedPositions sampleSequencer
        committedRun).flatten.Pairwise (· < ·) := by
  refine ⟨by decide, (checkpoint_never_rewinds sampleGenesis sampleClient [5] 0 sampleDb
    committedRun ?_).2⟩
  intro p hp
  simp only [committedRun, steps_cons, steps_nil, mem_cons, not_mem_nil,
    or_false] at hp
  rcases hp with rfl | rfl | rfl | rfl | rfl
  · exact .inl (by decide)
  · trivial
  · trivial
  · exact .inl (by decide)
  · exact .inr (by decide)

end ChainSdk

/-
What a failing `GetNextBatch` call of the single sequencer costs.

Before the checkpoint is saved the call has already popped a mempool batch, deleted it on disk and
moved the checkpoint in memory, and none of this is undone when the save fails.
-/
import ChainSdk.QueueRefinement
import ChainSdk.SequencerDelivery
import Mathlib.Data.List.Flatten

namespace ChainSdk

open AsyncBlockRetriever EpochReader List Sequencer

/-! ## The queue and its datastore -/

/-- The batches in the datastore, in the order in which `Load` reads them. -/
def QueueDb.batches (db : QueueDb) : List Batch :=
  db.entries.map Prod.snd ++ db.legacy.map Prod.snd

namespace BatchQueue

theorem load_live (maxSize : ℕ) (db : QueueDb) :
    (load maxSize db).1.live.map QueuedItem.batch = db.batches := by
  rw [live, load_head, drop_zero, load, (foldl_migrateEntry _ _).1, (foldl_loadEntry _ _).1]
  rfl

end BatchQueue

/-! ## States and recoveries -/

namespace Sequencer

/-- The checkpoint a restart begins with. -/
def savedCheckpoint (s : Sequencer) : Checkpoint :=
  s.db.checkpoint.getD ⟨s.genesis.daStartHeight, 0⟩

/-- A sequencer between two calls. Its position may be ahead of the saved one. -/
structure Standing (F : ForcedStream) (s : Sequencer) : Prop where
  placed : s.toEpochReader.Placed F
  told : s.daHeight = s.checkpoint.daHeight
  genesis_start : s.genesis.daStartHeight = F.start
  genesis_size : s.genesis.daEpochForcedInclusion = F.size
  configured : s.client.hasForcedNamespace = true
  saved_start : F.start ≤ s.savedCheckpoint.daHeight
  saved_index : s.savedCheckpoint.txIndex ≤ (F.epochAt s.savedCheckpoint.daHeight).length
  saved_le : F.position s.savedCheckpoint ≤ F.position s.checkpoint
  backed : s.queue.Backed s.db.queue

/-- The process starts again over a datastore, and is told a DA height. -/
def reopen (s : Sequencer) (db : SequencerDb) (maxQueueSize daHeight : ℕ) : Sequencer :=
  (new s.genesis s.client s.id maxQueueSize db).setDAHeight daHeight

/-- From `s'`, and from a restart on its datastore, every forced transaction from the checkpoint
saved before on is handed out, and every mempool transaction queued before. -/
def NoTxLost (F : ForcedStream) (s s' : Sequencer) : Prop :=
  s'.HandsOutAll F (F.position s.savedCheckpoint) s.queuedTxs ∧
    ∀ maxQueueSize daHeight, 0 < daHeight →
      (s.reopen s'.db maxQueueSize daHeight).HandsOutAll F (F.position s.savedCheckpoint)
        s.queuedTxs

/-- The mempool transactions a call shows to the filter: the first batch of the queue, unless
it catches up. -/
def mempoolOffered (s : Sequencer) (env : CallEnv) : List Tx :=
  if s.CatchesUp env then [] else ((s.queued.head?).map Batch.transactions).getD []

/-- What the filter says about the forced transactions that are due and the mempool
transactions that are offered. -/
def verdicts (F : ForcedStream) (s : Sequencer) (req : GetNextBatchRequest) (env : CallEnv) :
    List FilterStatus :=
  statusesOrAccept env.filter (F.due s.checkpoint ++ s.mempoolOffered env) req.maxBytes
    env.maxGas (0 < (F.due s.checkpoint).length)

/-- A call that fails does no harm: what is saved is what is in memory, and a call for this chain
consumes no forced transaction and loses no mempool transaction. -/
structure Harmless (F : ForcedStream) (s : Sequencer) (req : GetNextBatchRequest)
    (env : CallEnv) : Prop where
  saved : F.position s.checkpoint = F.position s.savedCheckpoint
  forced : s.id = req.id → F.due s.checkpoint = [] ∨
    ¬ s.SilentFailure env.retrieval ∧
      (s.verdicts F req env).head? = some .filterPostpone
  mempool : s.id = req.id → s.mempoolOffered env = [] ∨
    env.queueWritten = true ∧
      ∀ status ∈ (s.verdicts F req env).drop (F.due s.checkpoint).length,
        status = .filterPostpone

/-! ## What a call puts back -/

theorem consumeForced_eq_zero {txs : List Tx} {statuses : List FilterStatus}
    (hlength : statuses.length = txs.length) :
    (consumeForced txs statuses).2 = 0 ↔
      txs = [] ∨ statuses.head? = some .filterPostpone := by
  cases txs with
  | nil => simp [consumeForced]
  | cons tx txs =>
    cases statuses with
    | nil => cases hlength
    | cons status statuses => cases status <;> simp [consumeForced]

/-- Everything taken from the mempool is put back exactly when all of it is postponed and the
write goes through. -/
theorem Collected.putBack_iff {c : Collected}
    (hlength : c.filterStatuses.length = c.forcedTxs.length + c.mempoolTxs.length)
    (written : Bool) :
    c.mempoolTxs.Subperm (if written then c.mempoolWith .filterPostpone else []) ↔
      c.mempoolTxs = [] ∨ written = true ∧
        ∀ status ∈ c.filterStatuses.drop c.forcedTxs.length, status = .filterPostpone := by
  have hdrop : (c.filterStatuses.drop c.forcedTxs.length).length = c.mempoolTxs.length := by
    rw [length_drop]
    omega
  have hfst := map_fst_zip (Nat.le_of_eq hdrop.symm)
  have hsnd := map_snd_zip (Nat.le_of_eq hdrop)
  cases written with
  | false => simp
  | true =>
    simp only [if_true, true_and]
    constructor
    · intro hsub
      refine .inr ?_
      -- the postponed pairs are as many as the pairs, so they are all of them
      have hall : (c.mempoolTxs.zip (c.filterStatuses.drop c.forcedTxs.length)).filter
          (fun p => p.2 = .filterPostpone) =
            c.mempoolTxs.zip (c.filterStatuses.drop c.forcedTxs.length) := by
        apply filter_sublist.eq_of_length_le
        have hle := hsub.length_le
        rw [Collected.mempoolWith, length_map] at hle
        rw [length_zip, hdrop, Nat.min_self]
        exact hle
      intro status hstatus
      rw [← hsnd] at hstatus
      obtain ⟨p, hp, rfl⟩ := mem_map.mp hstatus
      exact of_decide_eq_true (filter_eq_self.mp hall p hp)
    · rintro (hnil | hall)
      · rw [hnil]
        exact nil_subperm
      · have hkeep : (c.mempoolTxs.zip (c.filterStatuses.drop c.forcedTxs.length)).filter
            (fun p => p.2 = .filterPostpone) =
              c.mempoolTxs.zip (c.filterStatuses.drop c.forcedTxs.length) := by
          apply filter_eq_self.mpr
          intro p hp
          exact decide_eq_true (hall p.2 (of_mem_zip hp).2)
        rw [Collected.mempoolWith, hkeep, hfst]

variable {F : ForcedStream} {s : Sequencer} {req : GetNextBatchRequest} {env : CallEnv}

/-- The queue a call leaves is on disk, and stays backed unless the counter of the batches put
back has run out. -/
theorem finish_backed {c : Collected} (hbacked : s.queue.Backed s.db.queue)
    (hc : (s.collect req env).1 = .ok c) :
    let s' := (finish c req env).2
    (entriesOf s'.queue.live).Sublist s'.db.queue.entries ∧
      (0 < s.queue.nextPrependSeq → s.queue.nextPrependSeq < 2 ^ 64 →
        s'.queue.Backed s'.db.queue ∧ s.queue.nextPrependSeq ≤ s'.queue.nextPrependSeq + 1 ∧
          s'.queue.nextPrependSeq ≤ s.queue.nextPrependSeq ∧
          s'.queue.nextAddSeq = s.queue.nextAddSeq) := by
  intro s'
  obtain ⟨hseq, hprepend, hadd⟩ : c.seq.queue.Backed c.seq.db.queue ∧
      c.seq.queue.nextPrependSeq = s.queue.nextPrependSeq ∧
      c.seq.queue.nextAddSeq = s.queue.nextAddSeq := by
    rcases (collect_mempool hc).2 with ⟨-, -, hqueue, hdb⟩ | ⟨-, -, hqueue, hdb⟩
    · rw [hqueue, hdb]
      exact ⟨hbacked, rfl, rfl⟩
    · obtain ⟨-, hadd, hprepend, -⟩ := s.queue.next_frame s.db.queue env.queueDeleted
      rw [hqueue, hdb]
      exact ⟨hbacked.next env.queueDeleted, hprepend, hadd⟩
  obtain ⟨hqueue, hdb, -⟩ := finish_frame c req env
  rw [hqueue, hdb, ← hprepend, ← hadd]
  unfold returnPostponed
  split_ifs
  · exact ⟨hseq.entries, fun _ _ => ⟨hseq, Nat.le_succ _, le_rfl, rfl⟩⟩
  split
  · exact ⟨hseq.entries, fun _ _ => ⟨hseq, Nat.le_succ _, le_rfl, rfl⟩⟩
  rename_i hpre
  obtain ⟨hentries, hkept⟩ := hseq.prepend hpre
  refine ⟨hentries, fun hpos hlt => ?_⟩
  obtain ⟨hbacked', hcounter, hsame⟩ := hkept hpos hlt
  exact ⟨hbacked', Nat.le_of_eq hcounter.symm, by dsimp only; omega, hsame⟩

theorem reopen_queuedTxs (db : SequencerDb) (maxQueueSize daHeight : ℕ) {t : Sequencer}
    (hcover : (entriesOf t.queue.live).Sublist db.queue.entries) :
    t.queuedTxs.Sublist (s.reopen db maxQueueSize daHeight).queuedTxs := by
  have hqueued : (s.reopen db maxQueueSize daHeight).queued = db.queue.batches :=
    BatchQueue.load_live maxQueueSize db.queue
  have hlive : t.queued = (entriesOf t.queue.live).map Prod.snd := by
    rw [entriesOf, map_map]
    rfl
  unfold queuedTxs
  rw [hqueued, hlive]
  exact ((hcover.map Prod.snd).trans (sublist_append_left _ _)).flatMap _

theorem Standing.reopen_placed (hs : s.Standing F) {db : SequencerDb}
    (hdb : db.checkpoint = s.db.checkpoint) (maxQueueSize : ℕ) {daHeight : ℕ}
    (hpos : 0 < daHeight) :
    (s.reopen db maxQueueSize daHeight).toEpochReader.Placed F ∧
      (s.reopen db maxQueueSize daHeight).checkpoint = s.savedCheckpoint := by
  have hcp : (s.reopen db maxQueueSize daHeight).checkpoint = s.savedCheckpoint := by
    show db.checkpoint.getD _ = s.db.checkpoint.getD _
    rw [hdb]
  have hstart : getInitialDAStartHeight s.genesis.daStartHeight db = F.start := by
    rw [getInitialDAStartHeight, hs.genesis_start, if_pos (Nat.ne_of_gt F.start_pos)]
  refine ⟨⟨⟨hs.configured, hstart, hs.genesis_size, new_holds _ _ _,
    ⟨0, new_caches _ _ _⟩, ?_, ?_, hpos⟩, .inl rfl⟩, hcp⟩
  · rw [hcp]
    exact hs.saved_start
  · rw [hcp]
    exact hs.saved_index

theorem Standing.noTxLost_iff (hs : s.Standing F) {s' : Sequencer}
    (hplaced : s'.toEpochReader.Placed F) (hdb : s'.db.checkpoint = s.db.checkpoint)
    (hcover : (entriesOf s'.queue.live).Sublist s'.db.queue.entries) :
    NoTxLost F s s' ↔ F.position s'.checkpoint ≤ F.position s.savedCheckpoint ∧
      s.queuedTxs.Subperm s'.queuedTxs := by
  unfold NoTxLost
  rw [handsOutAll_iff hplaced]
  constructor
  · exact fun h => h.1
  · intro h
    refine ⟨h, fun maxQueueSize daHeight hpos => ?_⟩
    -- a restart is behind, and has everything queued that was
    obtain ⟨hreopened, hcp⟩ := hs.reopen_placed hdb maxQueueSize hpos
    rw [handsOutAll_iff hreopened, hcp]
    exact ⟨le_rfl, h.2.trans (reopen_queuedTxs s'.db maxQueueSize daHeight hcover).subperm⟩

/-! ## One call -/

/-- What a call for this chain had in hand, and where it leaves the sequencer. -/
structure Moves (F : ForcedStream) (s : Sequencer) (req : GetNextBatchRequest)
    (env : CallEnv) (c : Collected) : Prop where
  collected : (s.collect req env).1 = .ok c
  finished : s.getNextBatch req env = finish c req env
  placed : (s.getNextBatch req env).2.toEpochReader.Placed F
  told : (s.getNextBatch req env).2.daHeight = (s.getNextBatch req env).2.checkpoint.daHeight
  position_le : F.position s.checkpoint ≤ F.position (s.getNextBatch req env).2.checkpoint
  active : c.Active → c.mempoolTxs = s.mempoolOffered env ∧
    (c.forcedTxs = F.due s.checkpoint ∧ ¬ s.SilentFailure env.retrieval ∧
        F.position (s.getNextBatch req env).2.checkpoint =
          F.position s.checkpoint + c.forced.2 ∨
      c.forcedTxs = [] ∧ s.SilentFailure env.retrieval ∧
        F.position (s.getNextBatch req env).2.checkpoint =
          F.position s.checkpoint + (F.due s.checkpoint).length)

theorem Standing.moves (hs : s.Standing F) (hid : s.id = req.id)
    (hlimit : req.maxBytes = F.maxBytes) (henv : env.retrieval.Truthful F.da) :
    ∃ c, Moves F s req env c := by
  obtain ⟨c, hc, hcall, hfetched, hforced⟩ := collect_of_placed hs.placed hid hlimit henv
  have hreader : (finish c req env).2.toEpochReader =
      if c.Active then c.seq.toEpochReader.advance c.daHeight c.forced.2
      else c.seq.toEpochReader := finish_toEpochReader c req env
  have hcp := hfetched.checkpoint_eq
  have htold : c.seq.daHeight = c.seq.checkpoint.daHeight := by
    rw [hfetched.daHeight_eq, hcp]
    exact hs.told
  rw [← hcall] at hreader
  rcases hfetched.outcome with ⟨hzero, hnil, -⟩ | ⟨hheight, hcatch, -, htxs⟩
  · -- a call that waits for DA has no checkpoint to save
    have hidle : ¬ c.Active := by
      rw [Collected.Active, hzero, hforced, remaining_of_nil hnil]
      simp
    rw [if_neg hidle] at hreader
    refine ⟨c, hc, hcall, ?_, ?_, ?_, fun hactive => absurd hactive hidle⟩
    · rw [hreader]
      exact ⟨hfetched.reader, .inl hnil⟩
    · rw [hreader]
      exact htold
    · rw [hreader, hcp]
  · have hactive : c.Active := by
      refine .inl ?_
      rw [hheight]
      exact F.start_pos.trans_le hs.placed.start_le
    have hmempool : c.mempoolTxs = s.mempoolOffered env := by
      unfold mempoolOffered
      rcases (collect_mempool hc).2 with ⟨hin, hnone, -⟩ | ⟨hnot, htaken, -⟩
      · rw [if_pos (hcatch.mp hin), hnone]
      rw [if_neg (fun h => hnot (hcatch.mpr h)), htaken,
        (s.queue.next_live s.db.queue env.queueDeleted).1, queued]
      cases s.queue.live with
      | nil => rfl
      | cons item items => rfl
    rw [if_pos hactive] at hreader
    rw [← hcp] at htxs hheight
    rw [hheight] at hreader
    have hkept : (s.getNextBatch req env).2.daHeight =
        (s.getNextBatch req env).2.checkpoint.daHeight := by
      rw [hreader, advance]
      split_ifs
      · rfl
      · exact htold
    rcases htxs with ⟨hepoch, hloud⟩ | ⟨hnil, hsilent⟩
    · have hdue : c.forcedTxs = F.due s.checkpoint := by
        rw [hforced, remaining_of_epoch hepoch, hcp]
      have hle : c.forced.2 ≤ (F.due c.seq.checkpoint).length := by
        rw [hcp, ← hdue]
        exact (consumeForced_spec _ _).1
      obtain ⟨hplaced, hposition⟩ := hfetched.reader.advance hepoch hle (.inl htold)
      rw [← hreader, hcp] at hposition
      rw [← hreader] at hplaced
      exact ⟨c, hc, hcall, hplaced, hkept, by omega,
        fun _ => ⟨hmempool, .inl ⟨hdue, hloud, hposition⟩⟩⟩
    · obtain ⟨hplaced, hposition⟩ := hfetched.reader.skip hnil c.forced.2
      rw [← hreader, hcp] at hposition
      rw [← hreader] at hplaced
      refine ⟨c, hc, hcall, hplaced, hkept, by omega,
        fun _ => ⟨hmempool, .inr ⟨?_, hsilent, hposition⟩⟩⟩
      rw [hforced, remaining_of_nil hnil]

namespace Moves

variable {c : Collected}

theorem saveFails (h : Moves F s req env c) {e : SequencerError}
    (hres : (s.getNextBatch req env).1 = .error e) (hne : e ≠ .noBatch) :
    c.Active ∧ (s.getNextBatch req env).2.db.checkpoint = s.db.checkpoint := by
  have hresult := finish_result c req env
  rw [← h.finished, hres] at hresult
  obtain ⟨hactive, hsaved⟩ : c.Active ∧ env.checkpointSaved = false := by
    split_ifs at hresult with hfail hempty
    · exact hfail
    · exact absurd (Except.error.inj hresult) hne
  obtain ⟨-, -, -, -, -, -, -, -, hcp⟩ := finish_frame c req env
  obtain ⟨-, -, -, -, -, -, hcp', -⟩ := collect_frame h.collected
  refine ⟨hactive, ?_⟩
  rw [h.finished, hcp, if_neg (by rw [hsaved]; simp), hcp']

theorem filterStatuses_eq (h : Moves F s req env c) (hactive : c.Active)
    (hdue : c.forcedTxs = F.due s.checkpoint) : c.filterStatuses = s.verdicts F req env := by
  obtain ⟨-, -, -, -, hstatuses⟩ := collect_ok h.collected
  rw [hstatuses, verdicts, hdue, (h.active hactive).1]

theorem position_le_iff (h : Moves F s req env c) (hactive : c.Active) :
    F.position (s.getNextBatch req env).2.checkpoint ≤ F.position s.checkpoint ↔
      F.due s.checkpoint = [] ∨ ¬ s.SilentFailure env.retrieval ∧
        (s.verdicts F req env).head? = some .filterPostpone := by
  have hlength := (collect_mempool h.collected).1
  rcases (h.active hactive).2 with ⟨hdue, hloud, hposition⟩ | ⟨-, hsilent, hposition⟩
  · have htake : (c.filterStatuses.take c.forcedTxs.length).length = c.forcedTxs.length := by
      rw [length_take]
      omega
    have hstays : F.position (s.getNextBatch req env).2.checkpoint ≤ F.position s.checkpoint ↔
        c.forced.2 = 0 := by
      omega
    rw [hstays, Collected.forced, consumeForced_eq_zero htake, hdue]
    by_cases hnil : F.due s.checkpoint = []
    · simp [hnil]
    · have hpos := length_pos_iff.mpr hnil
      rw [List.head?_take, h.filterStatuses_eq hactive hdue]
      simp [hnil, hloud]
  · rw [hposition]
    constructor
    · intro hle
      exact .inl (length_eq_zero_iff.mp (by omega))
    · rintro (hnil | ⟨hloud, -⟩)
      · rw [hnil]
        exact le_rfl
      · exact absurd hsilent hloud

theorem subperm_iff (h : Moves F s req env c) (hactive : c.Active)
    (hdue : c.forcedTxs = F.due s.checkpoint) :
    s.queuedTxs.Subperm (s.getNextBatch req env).2.queuedTxs ↔
      s.mempoolOffered env = [] ∨ env.queueWritten = true ∧
        ∀ status ∈ (s.verdicts F req env).drop (F.due s.checkpoint).length,
          status = .filterPostpone := by
  obtain ⟨rest, hbefore, -, hafter⟩ := finish_queued h.collected
  have hput := Collected.putBack_iff (collect_mempool h.collected).1 env.queueWritten
  rw [hbefore, h.finished, queuedTxs, hafter, flatMap_append, asBatch_flatMap,
    subperm_append_right, hput, h.filterStatuses_eq hactive hdue, hdue,
    (h.active hactive).1]

end Moves

/-! ## Every state of a run -/

/-- The counters of the queue after at most `n` calls. -/
structure Counted (n : ℕ) (s : Sequencer) : Prop where
  prepend_lt : s.queue.nextPrependSeq < initialSeqNum
  le_prepend : initialSeqNum ≤ s.queue.nextPrependSeq + 1 + n
  add_le : s.queue.nextAddSeq ≤ initialSeqNum + n

theorem Standing.fresh (F : ForcedStream) (genesis : Genesis) (client : Client) (id : Bytes)
    (maxQueueSize : ℕ) (db : SequencerDb) (cp : Checkpoint)
    (hstart : genesis.daStartHeight = F.start)
    (hsize : genesis.daEpochForcedInclusion = F.size)
    (hns : client.hasForcedNamespace = true) (hqueue : db.queue = ⟨[], []⟩)
    (hcp : db.checkpoint.getD ⟨genesis.daStartHeight, 0⟩ = cp) (hle : F.start ≤ cp.daHeight)
    (hindex : cp.txIndex ≤ (F.epochAt cp.daHeight).length) :
    let s := (new genesis client id maxQueueSize db).setDAHeight cp.daHeight
    s.Standing F ∧ s.Counted 0 := by
  intro s
  have hload : BatchQueue.load maxQueueSize db.queue = (.new maxQueueSize, ⟨[], []⟩) := by
    rw [hqueue]
    rfl
  have hcheckpoint : s.checkpoint = cp := hcp
  have hsaved : s.savedCheckpoint = cp := hcp
  have hq : s.queue = .new maxQueueSize := congrArg Prod.fst hload
  have hdb : s.db.queue = ⟨[], []⟩ := congrArg Prod.snd hload
  have hpos : 0 < cp.daHeight := F.start_pos.trans_le hle
  have hat : s.toEpochReader.At F := by
    refine ⟨hns, ?_, hsize, new_holds _ _ _, ⟨0, new_caches _ _ _⟩, ?_, ?_, hpos⟩
    · show getInitialDAStartHeight genesis.daStartHeight db = F.start
      rw [getInitialDAStartHeight, hstart, if_pos (Nat.ne_of_gt F.start_pos)]
    · rw [hcheckpoint]
      exact hle
    · rw [hcheckpoint]
      exact hindex
  refine ⟨⟨⟨hat, .inl rfl⟩, ?_, hstart, hsize, hns, ?_, ?_, ?_, ?_⟩, ?_⟩
  · rw [hcheckpoint]
    rfl
  · rw [hsaved]
    exact hle
  · rw [hsaved]
    exact hindex
  · rw [hsaved, hcheckpoint]
  · rw [hq, hdb]
    exact ⟨le_rfl, List.Sublist.refl _, List.Pairwise.nil, by simp, by simp,
      Nat.sub_lt (by simp [initialSeqNum]) Nat.one_pos⟩
  · have hseq : initialSeqNum = 2 ^ 63 := rfl
    refine ⟨?_, ?_, ?_⟩
    · rw [hq]
      simp only [BatchQueue.new]
      omega
    · rw [hq]
      simp only [BatchQueue.new]
      omega
    · rw [hq]
      simp only [BatchQueue.new]
      omega

end Sequencer

/-- A call on this stream: the size limit is the chain's, and DA may fail but does not lie. -/
def SequencerCall.OnStream (F : ForcedStream) : SequencerCall → Prop
  | .getNextBatch req env => req.maxBytes = F.maxBytes ∧ env.retrieval.Truthful F.da
  | .submitBatchTxs _ _ _ => True

namespace Sequencer

variable {F : ForcedStream} {s : Sequencer} {n : ℕ}

theorem Standing.submitBatchTxs (hs : s.Standing F) (hn : n < 2 ^ 62) (hcount : s.Counted n)
    (id : Bytes) (batch : Batch) (written : Bool) :
    (s.submitBatchTxs id batch written).2.Standing F ∧
      (s.submitBatchTxs id batch written).2.Counted (n + 1) := by
  have hseq : initialSeqNum = 2 ^ 63 := rfl
  have hadd := hcount.add_le
  have hprepend := hcount.le_prepend
  obtain ⟨hreader, -, hgenesis, hclient, hcp⟩ := s.submitBatchTxs_frame id batch written
  have hsaved : (s.submitBatchTxs id batch written).2.savedCheckpoint = s.savedCheckpoint := by
    rw [savedCheckpoint, savedCheckpoint, hcp, hgenesis]
  -- only the queue has to be looked at
  have hqueue : (s.submitBatchTxs id batch written).2.queue.Backed
        (s.submitBatchTxs id batch written).2.db.queue ∧
      (s.submitBatchTxs id batch written).2.Counted (n + 1) := by
    have hsame : s.Counted (n + 1) := ⟨hcount.prepend_lt, by omega, by omega⟩
    unfold Sequencer.submitBatchTxs
    split_ifs
    · exact ⟨hs.backed, hsame⟩
    · exact ⟨hs.backed, hsame⟩
    · split
      · exact ⟨hs.backed, hsame⟩
      rename_i hres
      obtain ⟨hbacked, hsame', hnext⟩ := hs.backed.addBatch (by omega) hres
      refine ⟨hbacked, ?_, ?_, ?_⟩
      · exact hsame' ▸ hcount.prepend_lt
      · show initialSeqNum ≤ _ + 1 + (n + 1)
        rw [hsame']
        omega
      · show _ ≤ initialSeqNum + (n + 1)
        rw [hnext]
        omega
  refine ⟨⟨?_, ?_, ?_, ?_, ?_, ?_, ?_, ?_, hqueue.1⟩, hqueue.2⟩
  · rw [hreader]
    exact hs.placed
  · rw [hreader]
    exact hs.told
  · rw [hgenesis]
    exact hs.genesis_start
  · rw [hgenesis]
    exact hs.genesis_size
  · rw [hclient]
    exact hs.configured
  · rw [hsaved]
    exact hs.saved_start
  · rw [hsaved]
    exact hs.saved_index
  · rw [hsaved, hreader]
    exact hs.saved_le

theorem Standing.getNextBatch (hs : s.Standing F) (hn : n < 2 ^ 62) (hcount : s.Counted n)
    (req : GetNextBatchRequest) (env : CallEnv) (hlimit : req.maxBytes = F.maxBytes)
    (henv : env.retrieval.Truthful F.da) :
    (s.getNextBatch req env).2.Standing F ∧ (s.getNextBatch req env).2.Counted (n + 1) := by
  have hseq : initialSeqNum = 2 ^ 63 := rfl
  have hprepend := hcount.le_prepend
  have hprepend' := hcount.prepend_lt
  have hadd := hcount.add_le
  by_cases hid : s.id = req.id
  · obtain ⟨c, hc⟩ := hs.moves hid hlimit henv
    obtain ⟨-, -, -, -, -, hgenesis, hclient, -, hcp⟩ := finish_frame c req env
    obtain ⟨-, -, -, -, hgenesis', hclient', hcp', -⟩ := collect_frame hc.collected
    obtain ⟨-, hbacked⟩ := finish_backed hs.backed hc.collected
    obtain ⟨hqueue, hlow, hhigh, hsame⟩ := hbacked (by omega) (by omega)
    rw [← hc.finished] at hgenesis hclient hcp hqueue hlow hhigh hsame
    rw [hgenesis'] at hgenesis
    rw [hclient'] at hclient
    rw [hcp'] at hcp
    -- what is saved afterwards is the new checkpoint, or still the old one
    have hsaved : (s.getNextBatch req env).2.savedCheckpoint =
          (s.getNextBatch req env).2.checkpoint ∨
        (s.getNextBatch req env).2.savedCheckpoint = s.savedCheckpoint := by
      unfold savedCheckpoint
      rw [hcp, hgenesis]
      split_ifs
      · exact .inl rfl
      · exact .inr rfl
    have hstarted := hc.placed.start_le
    have hindexed := hc.placed.index_le
    refine ⟨⟨hc.placed, hc.told, hgenesis ▸ hs.genesis_start, hgenesis ▸ hs.genesis_size,
      hclient ▸ hs.configured, ?_, ?_, ?_, hqueue⟩, ?_, ?_, ?_⟩
    · rcases hsaved with hnew | hold
      · rw [hnew]
        exact hstarted
      · rw [hold]
        exact hs.saved_start
    · rcases hsaved with hnew | hold
      · rw [hnew]
        exact hindexed
      · rw [hold]
        exact hs.saved_index
    · rcases hsaved with hnew | hold
      · rw [hnew]
      · rw [hold]
        exact hs.saved_le.trans hc.position_le
    · omega
    · omega
    · omega
  · have hsame : (s.getNextBatch req env).2 = s := by
      unfold Sequencer.getNextBatch
      rw [if_pos hid]
    rw [hsame]
    exact ⟨hs, hprepend', by omega, by omega⟩

theorem Standing.run (calls : List SequencerCall) (hs : s.Standing F) (hcount : s.Counted n)
    (hlen : n + calls.length < 2 ^ 62) (hcalls : ∀ c ∈ calls, c.OnStream F) :
    (calls.foldl call s).Standing F := by
  induction calls generalizing s n with
  | nil => exact hs
  | cons c calls ih =>
    rw [length_cons] at hlen
    obtain ⟨hc, hcalls⟩ := forall_mem_cons.mp hcalls
    obtain ⟨hnext, hcounted⟩ : (s.call c).Standing F ∧ (s.call c).Counted (n + 1) := by
      cases c with
      | getNextBatch req env => exact hs.getNextBatch (by omega) hcount req env hc.1 hc.2
      | submitBatchTxs id batch written =>
        exact hs.submitBatchTxs (by omega) hcount id batch written
    exact ih hnext hcounted (by omega) hcalls

/-- Whatever fails in the calls: the position is not behind the saved one, and the disk has all
that is queued. -/
theorem calls_keep_bookkeeping (calls : List SequencerCall) (hs : s.Standing F)
    (hcount : s.Counted n) (hlen : n + calls.length < 2 ^ 62)
    (hcalls : ∀ c ∈ calls, c.OnStream F) {t : Sequencer} (ht : calls.foldl call s = t) :
    F.position t.savedCheckpoint ≤ F.position t.checkpoint ∧
      (entriesOf t.queue.live).Sublist t.db.queue.entries := by
  have hafter := hs.run calls hcount hlen hcalls
  rw [ht] at hafter
  exact ⟨hafter.saved_le, hafter.backed.entries⟩

end Sequencer

/-! ## What a failing call loses -/

/-- A failing call of the single sequencer. Nothing is lost exactly when the call does no harm:
the position in memory is the saved one, and a call for this chain consumes no forced
transaction and puts back every mempool transaction it has taken. -/
theorem nothing_lost_iff_harmless (F : ForcedStream) (s : Sequencer) (hs : s.Standing F)
    (req : GetNextBatchRequest) (env : CallEnv) (hlimit : req.maxBytes = F.maxBytes)
    (henv : env.retrieval.Truthful F.da) (e : SequencerError)
    (hres : (s.getNextBatch req env).1 = .error e) (hne : e ≠ .noBatch) :
    Sequencer.NoTxLost F s (s.getNextBatch req env).2 ↔ s.Harmless F req env := by
  have hsaved := hs.saved_le
  by_cases hid : s.id = req.id
  · obtain ⟨c, hc⟩ := hs.moves hid hlimit henv
    obtain ⟨hactive, hunsaved⟩ := hc.saveFails hres hne
    have hcover : (entriesOf (s.getNextBatch req env).2.queue.live).Sublist
        (s.getNextBatch req env).2.db.queue.entries := by
      rw [hc.finished]
      exact (finish_backed hs.backed hc.collected).1
    have hforward := hc.position_le
    -- consuming nothing means that the epoch at hand is the one that is due
    have hdue : F.due s.checkpoint = [] ∨ ¬ s.SilentFailure env.retrieval →
        c.forcedTxs = F.due s.checkpoint := by
      intro hkept
      rcases (hc.active hactive).2 with ⟨hdue, -⟩ | ⟨hnil, hsilent, -⟩
      · exact hdue
      · rw [hnil, hkept.resolve_right (not_not.mpr hsilent)]
    rw [hs.noTxLost_iff hc.placed hunsaved hcover]
    constructor
    · rintro ⟨hposition, hqueue⟩
      have hforced := (hc.position_le_iff hactive).mp (hposition.trans hsaved)
      have hmempool := (hc.subperm_iff hactive (hdue (hforced.imp_right And.left))).mp hqueue
      exact ⟨by omega, fun _ => hforced, fun _ => hmempool⟩
    · intro hharmless
      have hforced := hharmless.forced hid
      have hposition := (hc.position_le_iff hactive).mpr hforced
      rw [hharmless.saved] at hposition
      exact ⟨hposition, (hc.subperm_iff hactive (hdue (hforced.imp_right And.left))).mpr
        (hharmless.mempool hid)⟩
  · -- a call for another chain changes nothing
    have hsame : (s.getNextBatch req env).2 = s := by
      unfold getNextBatch
      rw [if_pos hid]
    rw [hsame, hs.noTxLost_iff hs.placed rfl hs.backed.entries]
    constructor
    · rintro ⟨hposition, -⟩
      exact ⟨by omega, fun h => absurd h hid, fun h => absurd h hid⟩
    · intro hharmless
      exact ⟨Nat.le_of_eq hharmless.saved, List.Subperm.refl _⟩


/-! ## On the small chain -/

def sampleStream : ForcedStream where
  da := sampleDa
  maxBytes := 2
  start := 1
  size := 1
  start_pos := Nat.one_pos
  size_pos := Nat.one_pos
  nonempty := sampleDa_ne_nil

def unsavedEnv (top : ℕ) : CallEnv :=
  { sampleEnv (repliesUpTo sampleDa top) with checkpointSaved := false }

theorem unsavedEnv_truthful (top : ℕ) :
    (unsavedEnv top).retrieval.Truthful sampleStream.da :=
  (sampleEnv_undisturbed top).honest.truthful

theorem queuedSequencer_standing :
    queuedSequencer.Standing sampleStream ∧ queuedSequencer.Counted 1 := by
  obtain ⟨hstanding, hcount⟩ := Sequencer.Standing.fresh sampleStream sampleGenesis
    sampleClient [5] 0 sampleDb ⟨1, 0⟩ rfl rfl rfl rfl rfl le_rfl (Nat.zero_le _)
  exact hstanding.submitBatchTxs (by decide) hcount [5] _ true

theorem failed_save_keeps_queue :
    ∃ t, queuedSequencer.call (.getNextBatch twoByteRequest (unsavedEnv 2)) = t ∧
      (entriesOf t.queue.live).Sublist t.db.queue.entries := by
  obtain ⟨hstanding, hcount⟩ := queuedSequencer_standing
  exact ⟨_, rfl, (calls_keep_bookkeeping [.getNextBatch twoByteRequest
    (unsavedEnv 2)] hstanding hcount (by decide)
    (forall_mem_singleton.mpr ⟨rfl, unsavedEnv_truthful 2⟩) rfl).2⟩

/-- The save fails in the first call: the forced transaction `[1]` is behind the checkpoint
without having been handed out, and `[4]`, which the call had accepted, is neither in the queue
nor on disk any more. -/
theorem failed_save_loses_txs :
    let after := queuedSequencer.getNextBatch twoByteRequest (unsavedEnv 2)
    after.1 = .error .saveFailed ∧
      sampleStream.position queuedSequencer.savedCheckpoint = 0 ∧
      sampleStream.position after.2.checkpoint = 1 ∧
      queuedSequencer.queuedTxs = [[4], [6, 6], []] ∧ after.2.queuedTxs = [[6, 6]] ∧
      after.2.db.queue.batches = [⟨[[6, 6]]⟩] ∧
      ¬ Sequencer.NoTxLost sampleStream queuedSequencer after.2 := by
  intro after
  have hposition : sampleStream.position after.2.checkpoint = 1 := by decide
  have hsaved : sampleStream.position queuedSequencer.savedCheckpoint = 0 := by decide
  refine ⟨by decide, hsaved, hposition, by decide, by decide, by decide, ?_⟩
  obtain ⟨hstanding, hcount⟩ := queuedSequencer_standing
  have hafter := (hstanding.getNextBatch (by decide) hcount twoByteRequest (unsavedEnv 2) rfl
    (unsavedEnv_truthful 2)).1
  rw [hstanding.noTxLost_iff hafter.placed rfl hafter.backed.entries]
  rintro ⟨hle, -⟩
  exact absurd hle (by decide)

/-- The small chain's sequencer past the forced transactions, with a transaction in its queue
that never fits. -/
def heldSequencer : Sequencer :=
  (((new sampleGenesis sampleClient [5] 0
    { sampleDb with checkpoint := some ⟨3, 0⟩ }).setDAHeight 3).submitBatchTxs [5]
      ⟨[[6, 6, 6]]⟩ true).2

/-- A save that fails there loses nothing: no forced transaction is due, and the mempool
transaction has been put back. -/
theorem nothing_lost_iff_harmless_on_sample :
    (heldSequencer.getNextBatch twoByteRequest (unsavedEnv 3)).1 = .error .saveFailed ∧
      Sequencer.NoTxLost sampleStream heldSequencer
        (heldSequencer.getNextBatch twoByteRequest (unsavedEnv 3)).2 := by
  have hres : (heldSequencer.getNextBatch twoByteRequest (unsavedEnv 3)).1 =
      .error .saveFailed := by decide
  obtain ⟨hfresh, hcount⟩ := Sequencer.Standing.fresh sampleStream sampleGenesis sampleClient
    [5] 0 { sampleDb with checkpoint := some ⟨3, 0⟩ } ⟨3, 0⟩ rfl rfl rfl rfl rfl (by decide)
    (Nat.zero_le _)
  have hstanding : heldSequencer.Standing sampleStream :=
    (hfresh.submitBatchTxs (by decide) hcount [5] _ true).1
  refine ⟨hres, (nothing_lost_iff_harmless sampleStream heldSequencer hstanding twoByteRequest
    (unsavedEnv 3) rfl (unsavedEnv_truthful 3) _ hres (by decide)).mpr ⟨rfl, ?_, ?_⟩⟩
  · intro _
    exact .inl (by decide)
  · intro _
    exact .inr ⟨rfl, by decide⟩

end ChainSdk

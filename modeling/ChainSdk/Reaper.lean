/-
From the mempool of the execution client to the queue of the sequencer: `InjectTx` and `GetTxs` of
`apps/cosmos-exec/executor/executor.go`, `Reaper.SubmitTxs` of `block/internal/reaping/reaper.go`,
and `SubmitBatchTxs` and `GetNextBatch` of the single sequencer.

Between `GetTxs`, which empties the mempool, and the sequencer the transactions are in a local
variable of the round.
-/
import ChainSdk.SequencerMempool
import Mathlib.Data.Finset.Union

namespace ChainSdk

open List

open Sequencer

/-! ## What `GetNextBatch` does to the queue -/

namespace Sequencer

section

variable {s : Sequencer} {req : GetNextBatchRequest} {env : CallEnv}

theorem collect_error_queue {s' : Sequencer}
    {e : SequencerError} (hc : s.collect req env = (.error e, s')) : s'.queue = s.queue := by
  unfold collect at hc
  dsimp only at hc
  split at hc
  · rw [← (Prod.mk.inj hc).2, (fetchIfNeeded_frame s.bootstrap req.maxBytes env).1,
      (bootstrap_frame s).1]
  · exact absurd (Prod.mk.inj hc).1 (by simp)

/-- Where the datastore takes the writes of a call, a queued transaction that the filter does not
remove is handed out or stays queued. -/
theorem getNextBatch_keeps {tx : Tx} (hwritten : env.queueWritten = true)
    (hsaved : env.checkpointSaved = true) (hremove : tx ∉ s.mempoolWith req env .filterRemove)
    (htx : tx ∈ s.queuedTxs) :
    tx ∈ batchOf (s.getNextBatch req env).1 ∨ tx ∈ (s.getNextBatch req env).2.queuedTxs := by
  unfold mempoolWith at hremove
  unfold getNextBatch
  by_cases hid : s.id ≠ req.id
  · rw [if_pos hid]
    exact .inr htx
  rw [if_neg hid] at hremove ⊢
  rcases hc : s.collect req env with ⟨e | c, s'⟩
  · -- nothing has been taken
    right
    dsimp only
    unfold queuedTxs queued
    rwa [collect_error_queue hc]
  rw [hc] at hremove
  have hcollected : (s.collect req env).1 = .ok c := congrArg Prod.fst hc
  obtain ⟨rest, hbefore, -, hafter⟩ := finish_queued hcollected
  rw [hwritten, if_pos rfl] at hafter
  dsimp only at hremove ⊢
  unfold queuedTxs
  rw [hafter, flatMap_append, asBatch_flatMap, mem_append]
  rw [hbefore, mem_append] at htx
  rcases htx with htaken | hbehind
  · -- taken from the queue: the filter's status decides
    have hstatus := (Collected.mempool_partition (collect_mempool hcollected).1).mem_iff.mpr htaken
    rw [mem_append, mem_append] at hstatus
    rcases hstatus with (hemitted | hremoved) | hpostponed
    · left
      have hbatch : tx ∈ c.batchTxs := mem_append_right _ hemitted
      rwa [finish_batch c req env (by simp [hsaved])]
    · exact absurd hremoved hremove
    · exact .inr (.inl hpostponed)
  · exact .inr (.inr hbehind)

theorem getNextBatch_head_le (hhead : s.queue.head ≤ s.queue.queue.length)
    (req : GetNextBatchRequest) (env : CallEnv) :
    (s.getNextBatch req env).2.queue.head ≤ (s.getNextBatch req env).2.queue.queue.length := by
  unfold getNextBatch
  by_cases hid : s.id ≠ req.id
  · rw [if_pos hid]
    exact hhead
  rw [if_neg hid]
  rcases hc : s.collect req env with ⟨e | c, s'⟩
  · rw [collect_error_queue hc]
    exact hhead
  rw [(finish_frame c req env).1]
  have hseq : c.seq.queue.head ≤ c.seq.queue.queue.length := by
    rcases (collect_mempool (congrArg Prod.fst hc)).2 with ⟨-, -, hqueue, -⟩ | ⟨-, -, hqueue, -⟩
    · rw [hqueue]
      exact hhead
    · rw [hqueue]
      exact (s.queue.next_frame s.db.queue env.queueDeleted).2.2.2 hhead
  unfold returnPostponed
  split_ifs
  · exact hseq
  rcases env.queueWritten with _ | _
  · exact hseq
  · obtain ⟨bq', hres, -, -, -, hle⟩ :=
      c.seq.queue.prepend_frame c.seq.db.queue ⟨c.mempoolWith .filterPostpone⟩
    rw [hres]
    exact hle hseq

/-- A submission for this chain that finds room and is written puts its transactions at the back of
the queue. -/
theorem submitBatchTxs_queued (hhead : s.queue.head ≤ s.queue.queue.length)
    (hroom : s.queue.maxQueueSize = 0 ∨ s.queue.size < s.queue.maxQueueSize) (txs : List Tx) :
    (s.submitBatchTxs s.id ⟨txs⟩ true).1 = .ok () ∧
      (s.submitBatchTxs s.id ⟨txs⟩ true).2.queuedTxs = s.queuedTxs ++ txs ∧
      (s.submitBatchTxs s.id ⟨txs⟩ true).2.queue.head ≤
        (s.submitBatchTxs s.id ⟨txs⟩ true).2.queue.queue.length := by
  unfold submitBatchTxs
  rw [if_neg (not_not.mpr rfl)]
  by_cases hempty : txs.length = 0
  · rw [length_eq_zero_iff.mp hempty, append_nil]
    exact ⟨rfl, rfl, hhead⟩
  rw [if_neg hempty]
  have hadd : s.queue.addBatch s.db.queue ⟨txs⟩ true = .ok
      ({ s.queue with
          queue := s.queue.queue ++ [⟨⟨txs⟩, s.queue.nextAddSeq⟩]
          nextAddSeq := uint64Succ s.queue.nextAddSeq },
        s.db.queue.put s.queue.nextAddSeq ⟨txs⟩) := by
    rw [BatchQueue.addBatch, if_neg (by omega)]
    rfl
  rw [hadd]
  refine ⟨rfl, ?_, ?_⟩
  · unfold queuedTxs queued
    rw [BatchQueue.addBatch_live hhead hadd]
    simp only [map_append, map_cons, map_nil, flatMap_append,
      flatMap_cons, flatMap_nil, append_nil]
  · dsimp only
    rw [length_append]
    omega

end

end Sequencer

/-! ## The node -/

/-- Where a call of `SubmitTxs` is, with the transactions it has in its variables. -/
inductive ReaperRound
  | idle
  /-- `GetTxs` has returned. -/
  | reaped (txs : List Tx)
  /-- The transactions already seen have been left out. -/
  | submitting (newTxs : List Tx)
  /-- `SubmitBatchTxs` has returned nil. -/
  | submitted (newTxs : List Tx)

/-- The transactions a round holds. Those the sequencer has taken are no longer held by it. -/
def ReaperRound.txs : ReaperRound → List Tx
  | .idle => []
  | .reaped txs => txs
  | .submitting newTxs => newTxs
  | .submitted _ => []

/-- The components a transaction goes through. -/
structure ReaperNode where
  chainID : Bytes
  hashTx : Tx → Hash
  mempool : List Tx
  sequencer : Sequencer
  /-- The hashes for which `IsTxSeen` holds. -/
  seen : Finset Hash
  round : ReaperRound
  /-- The transactions of all batches handed out so far. -/
  handedOut : List Tx
  /-- The transactions injected so far whose hash had not been seen. -/
  injected : List Tx

inductive ReaperOp
  | injectTx (tx : Tx) (contextDone : Bool)
  /-- A round of `SubmitTxs` begins. -/
  | getTxs (contextDone : Bool)
  | leaveOutSeen
  | submitBatchTxs (written : Bool)
  | setTxsSeen
  /-- `CleanupOldTxs`, or eviction from the cache. -/
  | cleanupTxs (hashes : Finset Hash)
  | getNextBatch (req : GetNextBatchRequest) (env : CallEnv)

inductive InjectError
  | contextDone
  | emptyTx
  deriving DecidableEq

namespace ReaperNode

def new (chainID : Bytes) (hashTx : Tx → Hash) (sequencer : Sequencer) (seen : Finset Hash) :
    ReaperNode :=
  ⟨chainID, hashTx, [], sequencer, seen, .idle, [], []⟩

section

variable (n : ReaperNode)

def injectTx (tx : Tx) (contextDone : Bool) : Except InjectError Hash × ReaperNode :=
  if contextDone then (.error .contextDone, n)
  else if tx.length = 0 then (.error .emptyTx, n)
  else (.ok (n.hashTx tx),
    { n with
      mempool := n.mempool ++ [tx]
      injected := if n.hashTx tx ∈ n.seen then n.injected else n.injected ++ [tx] })

def getTxs (contextDone : Bool) : Option (List Tx) × ReaperNode :=
  if contextDone then (none, n)
  else (some n.mempool, { n with mempool := [] })

def step : ReaperOp → ReaperNode
  | .injectTx tx contextDone => (n.injectTx tx contextDone).2
  | .getTxs contextDone =>
    match n.round with
    | .idle =>
      match n.getTxs contextDone with
      | (none, n) => n
      | (some txs, n) => if txs.length = 0 then n else { n with round := .reaped txs }
    | _ => n
  | .leaveOutSeen =>
    match n.round with
    | .reaped txs =>
      let newTxs := txs.filter (fun tx => decide (n.hashTx tx ∉ n.seen))
      if newTxs.length = 0 then { n with round := .idle }
      else { n with round := .submitting newTxs }
    | _ => n
  | .submitBatchTxs written =>
    match n.round with
    | .submitting newTxs =>
      match n.sequencer.submitBatchTxs n.chainID ⟨newTxs⟩ written with
      -- the error is returned, and with it the round is over
      | (.error _, sequencer) => { n with sequencer := sequencer, round := .idle }
      | (.ok (), sequencer) => { n with sequencer := sequencer, round := .submitted newTxs }
    | _ => n
  | .setTxsSeen =>
    match n.round with
    | .submitted newTxs =>
      { n with seen := n.seen ∪ (newTxs.map n.hashTx).toFinset, round := .idle }
    | _ => n
  | .cleanupTxs hashes => { n with seen := n.seen \ hashes }
  | .getNextBatch req env =>
    { n with
      sequencer := (n.sequencer.getNextBatch req env).2
      handedOut := n.handedOut ++ batchOf (n.sequencer.getNextBatch req env).1 }

/-! ## Where a transaction is -/

def InPlace (tx : Tx) : Prop :=
  tx ∈ n.mempool ∨ tx ∈ n.sequencer.queuedTxs ∨ tx ∈ n.handedOut

/-- No injected transaction is lost: each is in the mempool, in the queue, handed out, or held by
the round in progress. -/
def Accounted : Prop :=
  ∀ tx ∈ n.injected, n.InPlace tx ∨ tx ∈ n.round.txs

/-- The datastore takes the writes of the step, a submission is for the sequencer's chain and finds
room in its queue, and the filter removes only empty transactions. -/
def Delivers : ReaperOp → Prop
  | .submitBatchTxs written => ∀ newTxs, n.round = .submitting newTxs →
      n.sequencer.id = n.chainID ∧ written = true ∧
        (n.sequencer.queue.maxQueueSize = 0 ∨
          n.sequencer.queue.size < n.sequencer.queue.maxQueueSize)
  | .getNextBatch req env => env.queueWritten = true ∧ env.checkpointSaved = true ∧
      ∀ tx ∈ n.sequencer.mempoolWith req env .filterRemove, tx = []
  | _ => True

/-! ## What a step does -/

def HeadInside : Prop :=
  n.sequencer.queue.head ≤ n.sequencer.queue.queue.length

end

inductive Effect (n : ReaperNode) : ReaperOp → ReaperNode → Prop
  | none (op : ReaperOp) : Effect n op n
  | injected (tx : Tx) (hne : tx ≠ []) (contextDone : Bool) : Effect n (.injectTx tx contextDone)
      { n with
        mempool := n.mempool ++ [tx]
        injected := if n.hashTx tx ∈ n.seen then n.injected else n.injected ++ [tx] }
  | reaped (contextDone : Bool) (hround : n.round = .idle) : Effect n (.getTxs contextDone)
      { n with mempool := [], round := .reaped n.mempool }
  | leftOut (txs : List Tx) (hround : n.round = .reaped txs) (round : ReaperRound)
      (htxs : ∀ tx ∈ txs, n.hashTx tx ∉ n.seen → tx ∈ round.txs)
      (hnot : ∀ newTxs, round ≠ .submitted newTxs) :
      Effect n .leaveOutSeen { n with round := round }
  | submitted (newTxs : List Tx) (hround : n.round = .submitting newTxs) (sequencer : Sequencer)
      (hqueued : sequencer.queuedTxs = n.sequencer.queuedTxs ++ newTxs)
      (hhead : sequencer.queue.head ≤ sequencer.queue.queue.length) :
      Effect n (.submitBatchTxs true)
        { n with sequencer := sequencer, round := .submitted newTxs }
  | marked (newTxs : List Tx) (hround : n.round = .submitted newTxs) : Effect n .setTxsSeen
      { n with seen := n.seen ∪ (newTxs.map n.hashTx).toFinset, round := .idle }
  | cleaned (hashes : Finset Hash) :
      Effect n (.cleanupTxs hashes) { n with seen := n.seen \ hashes }
  | handed (req : GetNextBatchRequest) (env : CallEnv)
      (hkeeps : ∀ tx ∈ n.sequencer.queuedTxs, tx ≠ [] →
        tx ∈ batchOf (n.sequencer.getNextBatch req env).1 ∨
          tx ∈ (n.sequencer.getNextBatch req env).2.queuedTxs) : Effect n (.getNextBatch req env)
      { n with
        sequencer := (n.sequencer.getNextBatch req env).2
        handedOut := n.handedOut ++ batchOf (n.sequencer.getNextBatch req env).1 }

variable {n : ReaperNode}

theorem effect_injectTx (tx : Tx) (contextDone : Bool) :
    Effect n (.injectTx tx contextDone) (n.step (.injectTx tx contextDone)) := by
  unfold step injectTx
  dsimp only
  by_cases hdone : contextDone = true
  · rw [if_pos hdone]
    exact .none _
  rw [if_neg hdone]
  by_cases hempty : tx.length = 0
  · rw [if_pos hempty]
    exact .none _
  · rw [if_neg hempty]
    exact .injected tx (fun hnil => hempty (congrArg List.length hnil)) contextDone

theorem effect_getTxs (contextDone : Bool) :
    Effect n (.getTxs contextDone) (n.step (.getTxs contextDone)) := by
  unfold step getTxs
  rcases hround : n.round with _ | txs | newTxs | newTxs
  case idle =>
    cases contextDone with
    | true => exact .none _
    | false =>
      simp only [Bool.false_eq_true, if_false]
      by_cases hempty : n.mempool.length = 0
      · -- the empty mempool has been emptied
        rw [if_pos hempty]
        have hnil : ({ n with mempool := [], round := .idle } : ReaperNode) = n := by
          rw [← length_eq_zero_iff.mp hempty, ← hround]
        rw [hnil]
        exact .none _
      · rw [if_neg hempty]
        exact .reaped false hround
  all_goals exact .none _

theorem effect_leaveOutSeen : Effect n .leaveOutSeen (n.step .leaveOutSeen) := by
  unfold step
  rcases hround : n.round with _ | txs | newTxs | newTxs
  case reaped =>
    have hmem : ∀ tx ∈ txs, n.hashTx tx ∉ n.seen →
        tx ∈ txs.filter (fun tx => decide (n.hashTx tx ∉ n.seen)) := by
      intro tx htx hunseen
      exact mem_filter.mpr ⟨htx, decide_eq_true hunseen⟩
    dsimp only
    split_ifs with hnone
    · rw [length_eq_zero_iff.mp hnone] at hmem
      exact .leftOut txs hround .idle hmem (by simp)
    · exact .leftOut txs hround (.submitting _) hmem (by simp)
  all_goals exact .none _

theorem effect_submitBatchTxs (hhead : n.HeadInside) {written : Bool}
    (hdelivers : n.Delivers (.submitBatchTxs written)) :
    Effect n (.submitBatchTxs written) (n.step (.submitBatchTxs written)) := by
  unfold step
  rcases hround : n.round with _ | txs | newTxs | newTxs
  case submitting =>
    obtain ⟨hid, rfl, hroom⟩ := hdelivers newTxs hround
    dsimp only
    obtain ⟨hok, hqueued, hafter⟩ := submitBatchTxs_queued hhead hroom newTxs
    rw [hid] at hok hqueued hafter
    rcases hres : n.sequencer.submitBatchTxs n.chainID ⟨newTxs⟩ true with ⟨_ | _, seq⟩
    · simp [hres] at hok
    · rw [hres] at hqueued hafter
      exact .submitted newTxs hround seq hqueued hafter
  all_goals exact .none _

theorem effect (hhead : n.HeadInside) {op : ReaperOp} (hdelivers : n.Delivers op) :
    Effect n op (n.step op) := by
  cases op with
  | injectTx tx contextDone => exact effect_injectTx tx contextDone
  | getTxs contextDone => exact effect_getTxs contextDone
  | leaveOutSeen => exact effect_leaveOutSeen
  | submitBatchTxs written => exact effect_submitBatchTxs hhead hdelivers
  | setTxsSeen =>
    unfold step
    rcases hround : n.round with _ | txs | newTxs | newTxs
    case submitted => exact .marked newTxs hround
    all_goals exact .none _
  | cleanupTxs hashes => exact .cleaned hashes
  | getNextBatch req env =>
    obtain ⟨hwritten, hsaved, hremove⟩ := hdelivers
    exact .handed req env (fun tx htx hne =>
      getNextBatch_keeps hwritten hsaved (fun hremoved => hne (hremove tx hremoved)) htx)

theorem Effect.headInside {op : ReaperOp} {n' : ReaperNode} (heffect : Effect n op n')
    (hhead : n.HeadInside) : n'.HeadInside := by
  cases heffect with
  | submitted newTxs hround sequencer hqueued hafter => exact hafter
  | handed req env hkeeps => exact getNextBatch_head_le hhead req env
  | none | injected | reaped | leftOut | marked | cleaned => exact hhead

/-! ## What a step keeps -/

def Delivered (n : ReaperNode) (tx : Tx) : Prop :=
  tx ∈ n.sequencer.queuedTxs ∨ tx ∈ n.handedOut

/-- With what it needs: an injected transaction that has been marked as seen, or is about to be, has
come to the sequencer. -/
structure Held (n : ReaperNode) : Prop where
  hashTx_injective : Function.Injective n.hashTx
  accounted : n.Accounted
  nonempty : ∀ tx ∈ n.injected, tx ≠ []
  seen : ∀ tx ∈ n.injected, n.hashTx tx ∈ n.seen → n.Delivered tx
  submitted : ∀ newTxs, n.round = .submitted newTxs → ∀ tx ∈ newTxs, tx ≠ [] → n.Delivered tx

/-- A step of the sequencer that keeps what has come to it. -/
theorem Held.delivered (h : n.Held) {sequencer : Sequencer} {round : ReaperRound}
    {handedOut : List Tx}
    (hdelivered : ∀ tx, tx ≠ [] → n.Delivered tx →
      tx ∈ sequencer.queuedTxs ∨ tx ∈ handedOut)
    (hround : ∀ tx ∈ n.round.txs, tx ∈ sequencer.queuedTxs ∨ tx ∈ round.txs)
    (hsubmitted : ∀ newTxs, round = .submitted newTxs → ∀ tx ∈ newTxs, tx ≠ [] →
      tx ∈ sequencer.queuedTxs ∨ tx ∈ handedOut) :
    Held { n with sequencer := sequencer, round := round, handedOut := handedOut } := by
  refine ⟨h.hashTx_injective, fun tx htx => ?_, h.nonempty, fun tx htx hseen => ?_, hsubmitted⟩
  · rcases h.accounted tx htx with (hmem | hplace) | hin
    · exact .inl (.inl hmem)
    · exact .inl (.inr (hdelivered tx (h.nonempty tx htx) hplace))
    · rcases hround tx hin with hqueued | hin'
      · exact .inl (.inr (.inl hqueued))
      · exact .inr hin'
  · exact hdelivered tx (h.nonempty tx htx) (h.seen tx htx hseen)

theorem Held.injected (h : n.Held) {tx : Tx} (hne : tx ≠ []) :
    Held { n with
      mempool := n.mempool ++ [tx]
      injected := if n.hashTx tx ∈ n.seen then n.injected else n.injected ++ [tx] } := by
  have hcases : ∀ tx' ∈ (if n.hashTx tx ∈ n.seen then n.injected else n.injected ++ [tx]),
      tx' ∈ n.injected ∨ tx' = tx ∧ n.hashTx tx ∉ n.seen := by
    intro tx' htx'
    split_ifs at htx' with hseen
    · exact .inl htx'
    · simpa [hseen] using htx'
  refine ⟨h.hashTx_injective, fun tx' htx' => ?_, fun tx' htx' => ?_, fun tx' htx' hseen => ?_,
    h.submitted⟩
  · rcases hcases tx' htx' with hold | ⟨rfl, -⟩
    · rcases h.accounted tx' hold with (hmem | hplace) | hround
      · exact .inl (.inl (mem_append_left _ hmem))
      · exact .inl (.inr hplace)
      · exact .inr hround
    · exact .inl (.inl (mem_append_right _ mem_cons_self))
  · rcases hcases tx' htx' with hold | ⟨rfl, -⟩
    · exact h.nonempty tx' hold
    · exact hne
  · rcases hcases tx' htx' with hold | ⟨rfl, hunseen⟩
    · exact h.seen tx' hold hseen
    · exact absurd hseen hunseen

theorem Held.reaped (h : n.Held) (hround : n.round = .idle) :
    Held { n with mempool := [], round := .reaped n.mempool } := by
  refine ⟨h.hashTx_injective, fun tx htx => ?_, h.nonempty, h.seen, by simp⟩
  have hbefore := h.accounted tx htx
  rw [hround] at hbefore
  rcases hbefore with (hmem | hplace) | hnone
  · exact .inr hmem
  · exact .inl (.inr hplace)
  · exact absurd hnone not_mem_nil

/-- A round leaves out only what has been marked as seen. -/
theorem Held.leftOut (h : n.Held) {txs : List Tx} (hround : n.round = .reaped txs)
    {round : ReaperRound} (htxs : ∀ tx ∈ txs, n.hashTx tx ∉ n.seen → tx ∈ round.txs)
    (hnot : ∀ newTxs, round ≠ .submitted newTxs) : Held { n with round := round } := by
  refine ⟨h.hashTx_injective, fun tx htx => ?_, h.nonempty, h.seen,
    fun newTxs hsub => absurd hsub (hnot newTxs)⟩
  by_cases hseen : n.hashTx tx ∈ n.seen
  · exact .inl (.inr (h.seen tx htx hseen))
  · rcases h.accounted tx htx with hplace | hin
    · exact .inl hplace
    · rw [hround] at hin
      exact .inr (htxs tx hin hseen)

theorem Held.marked (h : n.Held) {newTxs : List Tx} (hround : n.round = .submitted newTxs) :
    Held { n with seen := n.seen ∪ (newTxs.map n.hashTx).toFinset, round := .idle } := by
  refine ⟨h.hashTx_injective, fun tx htx => ?_, h.nonempty, fun tx htx hseen => ?_, by simp⟩
  · have hbefore := h.accounted tx htx
    rw [hround] at hbefore
    exact hbefore
  · rcases Finset.mem_union.mp hseen with hold | hnew
    · exact h.seen tx htx hold
    · -- no other transaction has the hash of one that was submitted
      obtain ⟨tx', htx', hhash⟩ := mem_map.mp (mem_toFinset.mp hnew)
      obtain rfl := h.hashTx_injective hhash
      exact h.submitted newTxs hround tx' htx' (h.nonempty tx' htx)

theorem Effect.held {op : ReaperOp} {n' : ReaperNode} (heffect : Effect n op n') (h : n.Held) :
    n'.Held := by
  cases heffect with
  | none => exact h
  | injected tx hne contextDone => exact h.injected hne
  | reaped contextDone hround => exact h.reaped hround
  | leftOut txs hround round htxs hnot => exact h.leftOut hround htxs hnot
  | submitted newTxs hround sequencer hqueued hhead =>
    have hnew : ∀ tx ∈ newTxs, tx ∈ sequencer.queuedTxs := by
      intro tx htx
      rw [hqueued]
      exact mem_append_right _ htx
    apply h.delivered
    · rintro tx - (hold | hhanded)
      · left
        rw [hqueued]
        exact mem_append_left _ hold
      · exact .inr hhanded
    · intro tx htx
      rw [hround] at htx
      exact .inl (hnew tx htx)
    · rintro newTxs' ⟨⟩ tx htx -
      exact .inl (hnew tx htx)
  | marked newTxs hround => exact h.marked hround
  | cleaned hashes =>
    exact ⟨h.hashTx_injective, h.accounted, h.nonempty,
      fun tx htx hseen => h.seen tx htx (Finset.mem_sdiff.mp hseen).1, h.submitted⟩
  | handed req env hkeeps =>
    have hdelivered : ∀ tx, tx ≠ [] → n.Delivered tx →
        (n.step (.getNextBatch req env)).Delivered tx := by
      rintro tx hne (hqueue | hhanded)
      · rcases hkeeps tx hqueue hne with hout | hstays
        · exact .inr (mem_append_right _ hout)
        · exact .inl hstays
      · exact .inr (mem_append_left _ hhanded)
    apply h.delivered hdelivered (fun tx htx => .inr htx)
    exact fun newTxs hround tx htx hne => hdelivered tx hne (h.submitted newTxs hround tx htx hne)

/-! ## Whole runs -/

theorem HeadInside.new (chainID : Bytes) (hashTx : Tx → Hash) (genesis : Genesis)
    (client : Client) (id : Bytes) (maxQueueSize : ℕ) (db : SequencerDb) (seen : Finset Hash) :
    (new chainID hashTx (.new genesis client id maxQueueSize db) seen).HeadInside := by
  unfold HeadInside ReaperNode.new Sequencer.new
  rw [BatchQueue.load_head]
  exact Nat.zero_le _

/-- From the start of a node, through every order of injections, steps of `SubmitTxs`, cleanups and
`GetNextBatch` calls: no injected transaction is ever lost, if hashes do not collide, each
submission finds room in the queue, the datastore takes every write, and the filter removes only
empty transactions. -/
theorem injected_txs_accounted (chainID : Bytes) (hashTx : Tx → Hash) (genesis : Genesis)
    (client : Client) (id : Bytes) (maxQueueSize : ℕ) (db : SequencerDb) (seen : Finset Hash)
    (ops : List ReaperOp) (hhash : Function.Injective hashTx)
    (hdelivers : ∀ p ∈ Runs.steps step
      (new chainID hashTx (.new genesis client id maxQueueSize db) seen) ops, p.1.Delivers p.2) :
    ∀ p ∈ Runs.steps step (new chainID hashTx (.new genesis client id maxQueueSize db) seen) ops,
      (p.1.step p.2).Accounted := by
  have hstep : ∀ n op, HeadInside n ∧ n.Held → n.Delivers op →
      HeadInside (n.step op) ∧ (n.step op).Held := by
    rintro n op ⟨hhead, hheld⟩ hop
    exact ⟨(effect hhead hop).headInside hhead, (effect hhead hop).held hheld⟩
  have hinit : (new chainID hashTx (.new genesis client id maxQueueSize db) seen).Held :=
    ⟨hhash, by simp [Accounted, new], by simp [new], by simp [new], by simp [new]⟩
  have hrun := Runs.steps_invariant step _ Delivers hstep
    ⟨HeadInside.new chainID hashTx genesis client id maxQueueSize db seen, hinit⟩ hdelivers
  intro p hp
  exact (hstep p.1 p.2 (hrun p hp) (hdelivers p hp)).2.accounted

private def wholeRound (written : Bool) : List ReaperOp :=
  [.getTxs false, .leaveOutSeen, .submitBatchTxs written, .setTxsSeen]

private def twoRounds : List ReaperOp :=
  .injectTx [1] false :: wholeRound true ++ .injectTx [2] false :: wholeRound true

/-- With room for one batch in the queue, the second round is refused. Its transaction is nowhere,
and the third round does not find it. -/
theorem tx_lost_on_full_queue :
    let n := (twoRounds ++ wholeRound true).foldl step
      (new [5] id (.new sampleGenesis sampleClient [5] 1 sampleDb) ∅)
    n.injected = [[1], [2]] ∧ n.mempool = [] ∧ n.sequencer.queuedTxs = [[1]] ∧
      n.round.txs = [] ∧ n.handedOut = [] := by
  decide

/-- With room for two batches both transactions are queued, and the next call hands out the
first. -/
theorem injected_txs_accounted_of_two :
    let start := new [5] id (.new sampleGenesis sampleClient [5] 2 sampleDb) ∅
    let ops := twoRounds ++ [.getNextBatch twoByteRequest openEnv]
    (ops.foldl step start).sequencer.queuedTxs = [[2]] ∧
      (ops.foldl step start).handedOut = [[1], [1]] ∧
      ∀ p ∈ Runs.steps step start ops, (p.1.step p.2).Accounted := by
  refine ⟨by decide, by decide, injected_txs_accounted _ _ _ _ _ _ _ _ _
    Function.injective_id ?_⟩
  simp only [twoRounds, wholeRound, cons_append, nil_append, Runs.steps_cons,
    forall_mem_cons]
  exact ⟨trivial, trivial, trivial, fun _ _ => ⟨rfl, rfl, by decide⟩, trivial, trivial, trivial,
    trivial, fun _ _ => ⟨rfl, rfl, by decide⟩, trivial, ⟨rfl, rfl, by decide⟩, by simp⟩

end ReaperNode

end ChainSdk

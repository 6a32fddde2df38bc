/-
The batch queue is a durable double-ended queue.

The queue lives twice: as a slice with a moving head in memory, and as entries under sequence keys
in the datastore.
-/
import ChainSdk.BatchQueue
import ChainSdk.Runs

namespace ChainSdk

open BatchQueue List

/-! ## The ideal deque -/

inductive QueueOp
  | addBatch (batch : Batch)
  | prepend (batch : Batch)
  | next
  /-- The process is killed, and `Load` runs in the next one. -/
  | restart

inductive QueueReply
  | queued (result : Except QueueError Unit)
  | batch (batch : Batch)
  | loaded
  deriving DecidableEq

namespace IdealDeque

/-- The deque after an operation. The size limit applies to `AddBatch` only. -/
def step (maxSize : ℕ) (xs : List Batch) : QueueOp → List Batch
  | .addBatch batch => if 0 < maxSize ∧ maxSize ≤ xs.length then xs else xs ++ [batch]
  | .prepend batch => batch :: xs
  | .next => xs.tail
  | .restart => xs

/-- What the deque answers; an empty one gives the empty batch. -/
def reply (maxSize : ℕ) (xs : List Batch) : QueueOp → QueueReply
  | .addBatch _ => .queued
      (if 0 < maxSize ∧ maxSize ≤ xs.length then .error .queueFull else .ok ())
  | .prepend _ => .queued (.ok ())
  | .next => .batch (xs.head?.getD ⟨[]⟩)
  | .restart => .loaded

end IdealDeque

/-! ## The queue over its datastore -/

structure DurableQueue where
  queue : BatchQueue
  db : QueueDb

namespace DurableQueue

def new (maxSize : ℕ) : DurableQueue := ⟨.new maxSize, ⟨[], []⟩⟩

section

variable (q : DurableQueue)

/-- The queue an `AddBatch` or `Prepend` leaves, which is the old one where it fails. -/
def written (res : Except QueueError (BatchQueue × QueueDb)) : QueueReply × DurableQueue :=
  match res with
  | .ok (queue, db) => (.queued (.ok ()), ⟨queue, db⟩)
  | .error e => (.queued (.error e), q)

def apply : QueueOp → QueueReply × DurableQueue
  | .addBatch batch => q.written (q.queue.addBatch q.db batch true)
  | .prepend batch => q.written (q.queue.prepend q.db batch true)
  | .next =>
    let res := q.queue.next q.db true
    (.batch res.1, ⟨res.2.1, res.2.2⟩)
  | .restart =>
    let res := BatchQueue.load q.queue.maxQueueSize q.db
    (.loaded, ⟨res.1, res.2⟩)

def step (op : QueueOp) : DurableQueue := (q.apply op).2

def reply (op : QueueOp) : QueueReply := (q.apply op).1

def content : List Batch := q.queue.live.map QueuedItem.batch

end

/-- The entries of the datastore are the live items, under keys that increase in queue order, and
the counters stand outside the keys in use. -/
structure Persisted (q : DurableQueue) : Prop where
  entries_eq : q.db.entries = q.queue.live.map (fun item => (item.key, item.batch))
  legacy_eq : q.db.legacy = []
  keys_increasing : (q.queue.live.map (fun item => seqToKey item.key)).Pairwise (· < ·)
  keys_readable : ∀ item ∈ q.queue.live, keyToSeq (seqToKey item.key) = item.key
  prepend_below : ∀ item ∈ q.queue.live, q.queue.nextPrependSeq < item.key
  add_above : ∀ item ∈ q.queue.live, item.key < q.queue.nextAddSeq

end DurableQueue

/-! ## Keys in order -/

/-- The keys increase and lie strictly between the two counters. -/
def KeysBetween (low high : ℕ) (items : List QueuedItem) : Prop :=
  items.Pairwise (fun a b => a.key < b.key) ∧ ∀ item ∈ items, low < item.key ∧ item.key < high

def entriesOf (items : List QueuedItem) : List (ℕ × Batch) :=
  items.map (fun item => (item.key, item.batch))

theorem forall_entriesOf {items : List QueuedItem} {P : ℕ → Prop}
    (h : ∀ item ∈ items, P item.key) : ∀ e ∈ entriesOf items, P e.1 := by
  intro e he
  obtain ⟨item, hmem, rfl⟩ := mem_map.mp he
  exact h item hmem

/-! ## The datastore behind the queue -/

namespace BatchQueue

theorem uint64Succ_eq {a : ℕ} (h : a < 2 ^ 64 - 1) : uint64Succ a = a + 1 :=
  Nat.mod_eq_of_lt (by omega)

theorem uint64Pred_eq {a : ℕ} (hpos : 0 < a) (h : a < 2 ^ 64) : uint64Pred a = a - 1 := by
  unfold uint64Pred
  omega

/-- The datastore has at least what is queued, in the same order, and only keys between the two
counters. It may hold more, where a delete failed. -/
structure Backed (bq : BatchQueue) (db : QueueDb) : Prop where
  head_le : bq.head ≤ bq.queue.length
  entries : (entriesOf bq.live).Sublist db.entries
  sorted : db.entries.Pairwise (fun a b => a.1 < b.1)
  below : ∀ e ∈ db.entries, bq.nextPrependSeq < e.1
  above : ∀ e ∈ db.entries, e.1 < bq.nextAddSeq
  apart : bq.nextPrependSeq < bq.nextAddSeq

section

variable {bq : BatchQueue} {db : QueueDb} {bq' : BatchQueue} {db' : QueueDb} {batch : Batch}
  {written : Bool} (h : bq.Backed db)
include h

theorem Backed.next (deleted : Bool) :
    (bq.next db deleted).2.1.Backed (bq.next db deleted).2.2 := by
  obtain ⟨-, hlive⟩ := bq.next_live db deleted
  obtain ⟨-, hadd, hprepend, hhead⟩ := bq.next_frame db deleted
  have hentries : (bq.next db deleted).2.2.entries.Sublist db.entries ∧
      (entriesOf bq.live.tail).Sublist (bq.next db deleted).2.2.entries := by
    rw [bq.next_db db deleted]
    have hcover := h.entries
    cases hitems : bq.live with
    | nil => exact ⟨List.Sublist.refl _, nil_sublist _⟩
    | cons item items =>
      rw [hitems] at hcover
      have hrest : (entriesOf items).Sublist (entriesOf (item :: items)) :=
        sublist_cons_self _ _
      cases deleted with
      | false => exact ⟨List.Sublist.refl _, hrest.trans hcover⟩
      | true =>
        refine ⟨filter_sublist, ?_⟩
        -- the other items have other keys
        have hkeys := (pairwise_cons.mp (h.sorted.sublist hcover)).1
        have hkeep : (entriesOf (item :: items)).filter (fun e => e.1 ≠ item.key) =
            entriesOf items := by
          rw [entriesOf, map_cons, filter_cons, if_neg (by simp)]
          apply filter_eq_self.mpr
          intro e he
          exact decide_eq_true (Nat.ne_of_gt (hkeys e he))
        have hfiltered := hcover.filter (fun e => decide (e.1 ≠ item.key))
        rw [hkeep] at hfiltered
        exact hfiltered
  refine ⟨hhead h.head_le, ?_, h.sorted.sublist hentries.1, ?_, ?_, ?_⟩
  · rw [hlive]
    exact hentries.2
  · intro e he
    rw [hprepend]
    exact h.below e (hentries.1.subset he)
  · intro e he
    rw [hadd]
    exact h.above e (hentries.1.subset he)
  · rw [hadd, hprepend]
    exact h.apart

/-- A batch that is put back is on disk as well, and the queue stays backed unless the counter
of such batches has run out. -/
theorem Backed.prepend (hpre : bq.prepend db batch written = .ok (bq', db')) :
    (entriesOf bq'.live).Sublist db'.entries ∧
      (0 < bq.nextPrependSeq → bq.nextPrependSeq < 2 ^ 64 → bq'.Backed db' ∧
        bq'.nextPrependSeq + 1 = bq.nextPrependSeq ∧ bq'.nextAddSeq = bq.nextAddSeq) := by
  have hwritten : written = true := by
    cases written with
    | true => rfl
    | false => cases hpre
  obtain ⟨bq'', hres, -, hadd, hcounter, hhead⟩ := bq.prepend_frame db batch
  rw [hwritten, hres] at hpre
  obtain ⟨rfl, rfl⟩ := Prod.mk.inj (Except.ok.inj hpre)
  have hentries : (db.put bq.nextPrependSeq batch).entries =
      (bq.nextPrependSeq, batch) :: db.entries := QueueDb.put_below h.below
  have hcover : (entriesOf bq''.live).Sublist (db.put bq.nextPrependSeq batch).entries := by
    rw [prepend_live h.head_le hres, hentries]
    exact h.entries.cons_cons _
  refine ⟨hcover, fun hpos hlt => ?_⟩
  have hapart := h.apart
  have hpred : bq''.nextPrependSeq = bq.nextPrependSeq - 1 :=
    hcounter.trans (uint64Pred_eq hpos hlt)
  refine ⟨⟨hhead h.head_le, hcover, ?_, ?_, ?_, ?_⟩, by omega, hadd⟩
  · rw [hentries]
    exact pairwise_cons.mpr ⟨fun e he => h.below e he, h.sorted⟩
  · rw [hentries, forall_mem_cons]
    refine ⟨by dsimp only; omega, fun e he => ?_⟩
    have hbelow := h.below e he
    omega
  · rw [hentries, hadd, forall_mem_cons]
    exact ⟨hapart, h.above⟩
  · omega

theorem Backed.addBatch (hlt : bq.nextAddSeq < 2 ^ 64 - 1)
    (hadd : bq.addBatch db batch written = .ok (bq', db')) :
    bq'.Backed db' ∧ bq'.nextPrependSeq = bq.nextPrependSeq ∧
      bq'.nextAddSeq = bq.nextAddSeq + 1 := by
  have hlive := addBatch_live h.head_le hadd
  have hentries : (db.put bq.nextAddSeq batch).entries =
      db.entries ++ [(bq.nextAddSeq, batch)] := QueueDb.put_above h.above
  have hapart := h.apart
  unfold BatchQueue.addBatch at hadd
  split_ifs at hadd
  obtain ⟨rfl, rfl⟩ := Prod.mk.inj (Except.ok.inj hadd)
  have hsucc := uint64Succ_eq hlt
  refine ⟨⟨?_, ?_, ?_, ?_, ?_, ?_⟩, rfl, hsucc⟩
  · show bq.head ≤ (bq.queue ++ [_]).length
    rw [length_append]
    exact h.head_le.trans (Nat.le_add_right _ _)
  · rw [hlive, hentries, entriesOf, map_append]
    exact h.entries.append (List.Sublist.refl _)
  · rw [hentries, pairwise_append]
    refine ⟨h.sorted, pairwise_singleton _ _, fun e he e' he' => ?_⟩
    rw [mem_singleton.mp he']
    exact h.above e he
  · rw [hentries]
    intro e he
    rcases mem_append.mp he with hmem | hmem
    · exact h.below e hmem
    · rw [mem_singleton.mp hmem]
      exact hapart
  · rw [hentries]
    intro e he
    show e.1 < uint64Succ bq.nextAddSeq
    rw [hsucc]
    rcases mem_append.mp he with hmem | hmem
    · have habove := h.above e hmem
      omega
    · rw [mem_singleton.mp hmem]
      exact Nat.lt_succ_self _
  · show bq.nextPrependSeq < uint64Succ bq.nextAddSeq
    omega

end

theorem Backed.keysBetween {bq : BatchQueue} {db : QueueDb} (h : bq.Backed db) :
    KeysBetween bq.nextPrependSeq bq.nextAddSeq bq.live := by
  have hmem : ∀ item ∈ bq.live, (item.key, item.batch) ∈ db.entries :=
    fun item hitem => h.entries.subset (mem_map_of_mem hitem)
  have hsorted := h.sorted.sublist h.entries
  rw [entriesOf, pairwise_map] at hsorted
  exact ⟨hsorted,
    fun item hitem => ⟨h.below _ (hmem item hitem), h.above _ (hmem item hitem)⟩⟩

end BatchQueue

/-! ## The invariant -/

structure QueueInv (maxSize n : ℕ) (q : DurableQueue) : Prop where
  limit_eq : q.queue.maxQueueSize = maxSize
  head_le : q.queue.head ≤ q.queue.queue.length
  entries_eq : q.db.entries = entriesOf q.queue.live
  legacy_eq : q.db.legacy = []
  keys : KeysBetween q.queue.nextPrependSeq q.queue.nextAddSeq q.queue.live
  prepend_lt : q.queue.nextPrependSeq < initialSeqNum
  le_add : initialSeqNum ≤ q.queue.nextAddSeq
  le_prepend : initialSeqNum ≤ q.queue.nextPrependSeq + 1 + n
  add_le : q.queue.nextAddSeq ≤ initialSeqNum + n

namespace QueueInv

variable {maxSize n : ℕ} {q : DurableQueue}

theorem new (maxSize : ℕ) : QueueInv maxSize 0 (.new maxSize) where
  limit_eq := rfl
  head_le := le_rfl
  entries_eq := rfl
  legacy_eq := rfl
  keys := ⟨List.Pairwise.nil, fun _ h => absurd h not_mem_nil⟩
  prepend_lt := by
    simp only [DurableQueue.new, BatchQueue.new, initialSeqNum]
    omega
  le_add := le_rfl
  le_prepend := by
    simp only [DurableQueue.new, BatchQueue.new]
    omega
  add_le := le_rfl

theorem succ (h : QueueInv maxSize n q) : QueueInv maxSize (n + 1) q :=
  { h with
    le_prepend := h.le_prepend.trans (Nat.le_succ _)
    add_le := h.add_le.trans (Nat.le_succ _) }

theorem size_eq (q : DurableQueue) : q.queue.size = q.content.length := by
  rw [DurableQueue.content, length_map, BatchQueue.live, length_drop, BatchQueue.size]

theorem room (h : QueueInv maxSize n q) (hn : n < 2 ^ 62) :
    0 < q.queue.nextPrependSeq ∧ q.queue.nextPrependSeq < q.queue.nextAddSeq ∧
      q.queue.nextAddSeq < 2 ^ 64 - 1 := by
  have hlow := h.le_prepend
  have hhigh := h.add_le
  have hmid := h.prepend_lt.trans_le h.le_add
  unfold initialSeqNum at hlow hhigh
  omega

theorem backed (h : QueueInv maxSize n q) : q.queue.Backed q.db where
  head_le := h.head_le
  entries := by rw [h.entries_eq]
  sorted := by
    rw [h.entries_eq, entriesOf, pairwise_map]
    exact h.keys.1
  below := by
    rw [h.entries_eq]
    exact forall_entriesOf (P := fun key => q.queue.nextPrependSeq < key)
      (fun item hitem => (h.keys.2 item hitem).1)
  above := by
    rw [h.entries_eq]
    exact forall_entriesOf (P := fun key => key < q.queue.nextAddSeq)
      (fun item hitem => (h.keys.2 item hitem).2)
  apart := h.prepend_lt.trans_le h.le_add

/-! ## One operation -/

/-- The answer and the content after an operation are the ideal deque's, and the invariant
holds with the operation counted. -/
def Simulates (maxSize n : ℕ) (q : DurableQueue) (op : QueueOp) : Prop :=
  QueueInv maxSize (n + 1) (q.step op) ∧
    (q.step op).content = IdealDeque.step maxSize q.content op ∧
    q.reply op = IdealDeque.reply maxSize q.content op

theorem addBatch (h : QueueInv maxSize n q) (hn : n < 2 ^ 62) (batch : Batch) :
    Simulates maxSize n q (.addBatch batch) := by
  have hroom := (h.room hn).2.2
  have hlimit : (0 < q.queue.maxQueueSize ∧ q.queue.maxQueueSize ≤ q.queue.size) ↔
      0 < maxSize ∧ maxSize ≤ q.content.length := by
    rw [h.limit_eq, size_eq q]
  unfold Simulates DurableQueue.step DurableQueue.reply DurableQueue.apply IdealDeque.step
    IdealDeque.reply
  dsimp only
  by_cases hfull : 0 < maxSize ∧ maxSize ≤ q.content.length
  · have hres : q.queue.addBatch q.db batch true = .error .queueFull := by
      rw [BatchQueue.addBatch, if_pos (hlimit.mpr hfull)]
    rw [if_pos hfull, if_pos hfull, hres]
    exact ⟨h.succ, rfl, rfl⟩
  · have hres : q.queue.addBatch q.db batch true = .ok
        ({ q.queue with
            queue := q.queue.queue ++ [⟨batch, q.queue.nextAddSeq⟩]
            nextAddSeq := q.queue.nextAddSeq + 1 },
          q.db.put q.queue.nextAddSeq batch) := by
      rw [BatchQueue.addBatch, if_neg (mt hlimit.mp hfull), if_neg (by simp), uint64Succ_eq hroom]
    have hlive := addBatch_live h.head_le hres
    obtain ⟨hbacked, -⟩ := h.backed.addBatch hroom hres
    rw [if_neg hfull, if_neg hfull, hres]
    simp only [DurableQueue.written, DurableQueue.content, hlive]
    refine ⟨⟨h.limit_eq, hbacked.head_le, ?_, h.legacy_eq, hbacked.keysBetween, h.prepend_lt, ?_,
      ?_, ?_⟩, ?_⟩
    · rw [hlive, QueueDb.put_above h.backed.above, h.entries_eq, entriesOf, entriesOf,
        map_append]
      rfl
    · exact h.le_add.trans (Nat.le_succ _)
    · exact h.le_prepend.trans (Nat.le_succ _)
    · exact Nat.succ_le_succ h.add_le
    · simp

theorem prepend (h : QueueInv maxSize n q) (hn : n < 2 ^ 62) (batch : Batch) :
    Simulates maxSize n q (.prepend batch) := by
  obtain ⟨hpos, hlt, hroom⟩ := h.room hn
  obtain ⟨bq', hres, hlimit, -⟩ := q.queue.prepend_frame q.db batch
  have hlive := prepend_live h.head_le hres
  obtain ⟨hbacked, hprepend, hadd⟩ := (h.backed.prepend hres).2 hpos (by omega)
  have hcounter := h.prepend_lt
  have hcount := h.le_prepend
  unfold Simulates DurableQueue.step DurableQueue.reply DurableQueue.apply IdealDeque.step
    IdealDeque.reply
  simp only [hres, DurableQueue.written, DurableQueue.content, hlive]
  refine ⟨⟨hlimit.trans h.limit_eq, hbacked.head_le, ?_, h.legacy_eq, hbacked.keysBetween, ?_, ?_,
    ?_, ?_⟩, ?_⟩
  · rw [hlive, QueueDb.put_below h.backed.below, h.entries_eq, entriesOf, entriesOf, map_cons]
  · dsimp only
    omega
  · rw [hadd]
    exact h.le_add
  · dsimp only
    omega
  · rw [hadd]
    exact h.add_le.trans (Nat.le_succ _)
  · simp

theorem next (h : QueueInv maxSize n q) : Simulates maxSize n q .next := by
  obtain ⟨hbatch, hlive⟩ := q.queue.next_live q.db true
  obtain ⟨hlimit, hadd, hprepend, -⟩ := q.queue.next_frame q.db true
  have hbacked := h.backed.next true
  have hdb := q.queue.next_db q.db true
  unfold Simulates DurableQueue.step DurableQueue.reply DurableQueue.apply IdealDeque.step
    IdealDeque.reply
  simp only [DurableQueue.content, hbatch, hlive, map_tail, List.head?_map, and_true]
  refine ⟨hlimit.trans h.limit_eq, hbacked.head_le, ?_, ?_, hbacked.keysBetween, ?_, ?_, ?_, ?_⟩
  · -- the front item is the one whose key goes
    rw [hdb, hlive]
    cases hitems : q.queue.live with
    | nil =>
      rw [List.head?_nil, tail_nil, h.entries_eq, hitems]
    | cons item items =>
      have hentries : q.db.entries = (item.key, item.batch) :: entriesOf items := by
        rw [h.entries_eq, hitems, entriesOf, entriesOf, map_cons]
      have hkeys := h.keys.1
      rw [hitems, pairwise_cons] at hkeys
      apply QueueDb.delete_first hentries
      exact forall_entriesOf (P := fun key => item.key < key) hkeys.1
  · rw [hdb]
    cases q.queue.live.head? with
    | none | some item => exact h.legacy_eq
  · rw [hprepend]
    exact h.prepend_lt
  · rw [hadd]
    exact h.le_add
  · rw [hprepend]
    exact h.le_prepend.trans (Nat.le_succ _)
  · rw [hadd]
    exact h.add_le.trans (Nat.le_succ _)

/-- What `Load` has rebuilt from the entries it has read, given that their keys are those of
a queue after `n` operations. -/
structure Loaded (maxSize n : ℕ) (bq : BatchQueue) (entries : List (ℕ × Batch)) : Prop where
  limit_eq : bq.maxQueueSize = maxSize
  head_eq : bq.head = 0
  queue_eq : bq.queue = entries.map (fun e => ⟨e.2, e.1⟩)
  between : ∀ e ∈ entries, bq.nextPrependSeq < e.1 ∧ e.1 < bq.nextAddSeq
  prepend_lt : bq.nextPrependSeq < initialSeqNum
  le_add : initialSeqNum ≤ bq.nextAddSeq
  le_prepend : initialSeqNum ≤ bq.nextPrependSeq + 1 + n
  add_le : bq.nextAddSeq ≤ initialSeqNum + n

theorem Loaded.loadEntry {bq : BatchQueue} {entries : List (ℕ × Batch)} {e : ℕ × Batch}
    (h : Loaded maxSize n bq entries) (hn : n < 2 ^ 62) (hlow : initialSeqNum ≤ e.1 + n)
    (hhigh : e.1 < initialSeqNum + n) : Loaded maxSize n (bq.loadEntry e) (entries ++ [e]) := by
  obtain ⟨hlimit, hhead, hqueue, hbetween, hprepend, hadd, hprepend', hadd'⟩ := h
  have hseq : initialSeqNum = 2 ^ 63 := rfl
  have hsucc : uint64Succ e.1 = e.1 + 1 := uint64Succ_eq (by omega)
  have hpred : uint64Pred e.1 = e.1 - 1 := uint64Pred_eq (by omega) (by omega)
  unfold BatchQueue.loadEntry
  refine ⟨hlimit, hhead, ?_, ?_, ?_, ?_, ?_, ?_⟩
  · simp only [hqueue, map_append, map_cons, map_nil]
  · intro e' he'
    dsimp only
    rcases mem_append.mp he' with hmem | hmem
    · have hold := hbetween e' hmem
      split_ifs <;> omega
    · rw [mem_singleton.mp hmem]
      split_ifs <;> omega
  all_goals
    dsimp only
    split_ifs <;> omega

theorem Loaded.foldl (maxSize : ℕ) (hn : n < 2 ^ 62) {entries : List (ℕ × Batch)}
    (hkeys : ∀ e ∈ entries, initialSeqNum ≤ e.1 + n ∧ e.1 < initialSeqNum + n) :
    Loaded maxSize n (entries.foldl BatchQueue.loadEntry (.new maxSize)) entries := by
  induction entries using List.reverseRecOn with
  | nil =>
    have hseq : initialSeqNum = 2 ^ 63 := rfl
    refine ⟨rfl, rfl, rfl, fun e he => absurd he not_mem_nil, ?_, le_rfl, ?_, ?_⟩
    all_goals
      simp only [foldl_nil, BatchQueue.new]
      omega
  | append_singleton entries e ih =>
    rw [foldl_append]
    have hlast := hkeys e (by simp)
    exact (ih (fun e' he' => hkeys e' (by simp [he']))).loadEntry hn hlast.1 hlast.2

section

variable (h : QueueInv maxSize n q) (hn : n < 2 ^ 62)
include h hn

theorem restart :
    Simulates maxSize n q .restart := by
  have hload : Loaded maxSize n (q.db.entries.foldl loadEntry (.new maxSize))
      q.db.entries := by
    apply Loaded.foldl maxSize hn
    rw [h.entries_eq]
    apply forall_entriesOf (P := fun key => initialSeqNum ≤ key + n ∧ key < initialSeqNum + n)
    intro item hitem
    have hbounds := h.keys.2 item hitem
    have hlow := h.le_prepend
    have hhigh := h.add_le
    omega
  have hres : BatchQueue.load q.queue.maxQueueSize q.db =
      (q.db.entries.foldl loadEntry (.new maxSize), q.db) := by
    rw [BatchQueue.load, h.legacy_eq, h.limit_eq, foldl_nil]
  -- the items read back are the live ones
  have hlive : (q.db.entries.foldl loadEntry (.new maxSize)).live = q.queue.live := by
    rw [BatchQueue.live, hload.head_eq, hload.queue_eq, drop_zero, h.entries_eq, entriesOf,
      map_map]
    exact map_id _
  unfold Simulates DurableQueue.step DurableQueue.reply DurableQueue.apply IdealDeque.step
    IdealDeque.reply
  simp only [hres, DurableQueue.content, hlive, and_true]
  refine ⟨hload.limit_eq, ?_, ?_, h.legacy_eq, ⟨?_, ?_⟩, hload.prepend_lt, hload.le_add, ?_, ?_⟩
  · rw [hload.head_eq]
    exact Nat.zero_le _
  · rw [hlive]
    exact h.entries_eq
  · rw [hlive]
    exact h.keys.1
  · rw [hlive]
    intro item hitem
    apply hload.between (item.key, item.batch)
    rw [h.entries_eq]
    exact mem_map_of_mem hitem
  · exact hload.le_prepend.trans (Nat.le_succ _)
  · exact hload.add_le.trans (Nat.le_succ _)

theorem simulates (op : QueueOp) :
    Simulates maxSize n q op := by
  cases op with
  | addBatch batch => exact h.addBatch hn batch
  | prepend batch => exact h.prepend hn batch
  | next => exact h.next
  | restart => exact h.restart hn

theorem persisted : q.Persisted where
  entries_eq := h.entries_eq
  legacy_eq := h.legacy_eq
  keys_increasing := by
    rw [pairwise_map]
    apply h.keys.1.imp_of_mem
    intro a b _ hb hlt
    have hroom := (h.room hn).2.2
    exact seqToKey_lt hlt ((h.keys.2 b hb).2.trans (by omega))
  keys_readable := fun item hitem =>
    keyToSeq_seqToKey ((h.keys.2 item hitem).2.trans (by have := (h.room hn).2.2; omega))
  prepend_below := fun item hitem => (h.keys.2 item hitem).1
  add_above := fun item hitem => (h.keys.2 item hitem).2

end

end QueueInv

/-! ## Whole runs -/

/-- `BatchQueue` refines a durable double-ended queue. For every size limit and fewer than `2 ^ 62`
operations, crashes included, on a datastore that is empty at first and takes every write: all
answers are those of the ideal deque, and queue and datastore end with its content. -/
theorem batchQueue_refines_deque (maxSize : ℕ) (ops : List QueueOp)
    (hops : ops.length < 2 ^ 62) :
    let q := ops.foldl DurableQueue.step (.new maxSize)
    Runs.outputs DurableQueue.step DurableQueue.reply (.new maxSize) ops =
        Runs.outputs (IdealDeque.step maxSize) (IdealDeque.reply maxSize) [] ops ∧
      q.content = ops.foldl (IdealDeque.step maxSize) [] ∧ q.Persisted := by
  intro q
  have hrun := Runs.lockstep DurableQueue.step (IdealDeque.step maxSize) DurableQueue.reply
    (IdealDeque.reply maxSize) (fun n q xs => QueueInv maxSize n q ∧ q.content = xs)
    (fun _ _ => True) ops (n := 0) ⟨QueueInv.new maxSize, rfl⟩ (fun _ _ => trivial) (by
      rintro k q xs op hk - ⟨hinv, rfl⟩
      obtain ⟨hnext, hcontent, hreply⟩ := hinv.simulates (by omega) op
      exact ⟨⟨hnext, hcontent⟩, hreply⟩)
  rw [Nat.zero_add] at hrun
  exact ⟨hrun.2, hrun.1.2, hrun.1.1.persisted hops⟩

/-- A queue with room for one batch: the second is refused, a returned one is taken all the
same, and a crash in between changes nothing. -/
def sampleQueueOps : List QueueOp :=
  [.addBatch ⟨[[1]]⟩, .addBatch ⟨[[2]]⟩, .prepend ⟨[[3]]⟩, .restart, .next, .restart, .next,
    .next]

theorem batchQueue_refines_deque_on_sample :
    sampleQueueOps.length < 2 ^ 62 ∧
      Runs.outputs DurableQueue.step DurableQueue.reply (.new 1) sampleQueueOps =
        [.queued (.ok ()), .queued (.error .queueFull), .queued (.ok ()), .loaded,
          .batch ⟨[[3]]⟩, .loaded, .batch ⟨[[1]]⟩, .batch ⟨[]⟩] ∧
      (sampleQueueOps.foldl DurableQueue.step (.new 1)).Persisted := by
  have hlength : sampleQueueOps.length < 2 ^ 62 := by decide
  obtain ⟨hreplies, -, hpersisted⟩ := batchQueue_refines_deque 1 sampleQueueOps hlength
  refine ⟨hlength, ?_, hpersisted⟩
  decide

end ChainSdk

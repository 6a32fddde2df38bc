/-
`pkg/sequencers/single/queue.go`: the persistent queue of mempool batches.

In memory the queue is a slice with a moving head. Dequeued slots are zeroed and reused by
`Prepend`, and the slice is compacted once more than half of it, and more than 100 slots, are spent.
-/
import ChainSdk.FixedDigits
import ChainSdk.Types
import Mathlib.Data.List.TakeWhile

namespace ChainSdk

open Except FixedDigits List

structure Batch where
  transactions : List Tx
  deriving DecidableEq

def initialSeqNum : ℕ := 2 ^ 63

def uint64Succ (n : ℕ) : ℕ := (n + 1) % 2 ^ 64

def uint64Pred (n : ℕ) : ℕ := (n + 2 ^ 64 - 1) % 2 ^ 64

/-- `seqToKey`, as the characters of the key: the 8 bytes of a `uint64`, big endian, two hex
digits a byte. -/
def seqToKey (seq : ℕ) : List Char := (FixedDigits.digits 16 16 seq).map Nat.digitChar

/-- The digit a hex character of a key stands for. -/
def hexValue (c : Char) : ℕ := if c.toNat < 97 then c.toNat - 48 else c.toNat - 87

def keyToSeq (key : List Char) : ℕ := FixedDigits.value 16 (key.map hexValue)

theorem hexValue_digitChar : ∀ d < 16, hexValue (Nat.digitChar d) = d := by decide

theorem digitChar_lt : ∀ d < 16, ∀ e < 16, d < e → Nat.digitChar d < Nat.digitChar e := by
  decide

theorem seqToKey_lt {seq seq' : ℕ} (hlt : seq < seq') (hseq' : seq' < 2 ^ 64) :
    seqToKey seq < seqToKey seq' := by
  apply map_lt_map
  · intro d hd e he hde
    exact digitChar_lt d (digits_lt_base (by omega) d hd) e
      (digits_lt_base (by omega) e he) hde
  · apply digits_lt_digits
    rw [Nat.mod_eq_of_lt (by omega), Nat.mod_eq_of_lt (by omega)]
    exact hlt

theorem keyToSeq_seqToKey {seq : ℕ} (hseq : seq < 2 ^ 64) : keyToSeq (seqToKey seq) = seq := by
  have hdigits : (seqToKey seq).map hexValue = FixedDigits.digits 16 16 seq := by
    rw [seqToKey, map_map]
    conv_rhs => rw [← map_id (FixedDigits.digits 16 16 seq)]
    apply map_congr_left
    intro d hd
    exact hexValue_digitChar d (digits_lt_base (by omega) d hd)
  rw [keyToSeq, hdigits, value_digits (by omega)]

/-- The datastore under the queue: entries by sequence number, in key order, and the
legacy entries under other names. -/
structure QueueDb where
  entries : List (ℕ × Batch)
  legacy : List (String × Batch)

namespace QueueDb

def put (db : QueueDb) (seq : ℕ) (batch : Batch) : QueueDb :=
  { db with entries := db.entries.takeWhile (fun e => e.1 < seq) ++
      (seq, batch) :: db.entries.filter (fun e => seq < e.1) }

def delete (db : QueueDb) (seq : ℕ) : QueueDb :=
  { db with entries := db.entries.filter (fun e => e.1 ≠ seq) }

section

variable {db : QueueDb} {seq : ℕ} {batch : Batch}

theorem put_above (h : ∀ e ∈ db.entries, e.1 < seq) :
    (db.put seq batch).entries = db.entries ++ [(seq, batch)] := by
  have hbefore : db.entries.takeWhile (fun e => e.1 < seq) = db.entries := by
    simpa using h
  have hafter : db.entries.filter (fun e => seq < e.1) = [] := by
    rw [filter_eq_nil_iff]
    intro e he
    have hlt := h e he
    simp only [decide_eq_true_eq]
    omega
  rw [put, hbefore, hafter]

theorem put_below (h : ∀ e ∈ db.entries, seq < e.1) :
    (db.put seq batch).entries = (seq, batch) :: db.entries := by
  have hbefore : db.entries.takeWhile (fun e => e.1 < seq) = [] := by
    cases hentries : db.entries with
    | nil => rfl
    | cons e es =>
      have hlt := h e (by rw [hentries]; exact mem_cons_self)
      rw [takeWhile_cons, if_neg (by simp only [decide_eq_true_eq]; omega)]
  have hafter : db.entries.filter (fun e => seq < e.1) = db.entries := by
    simpa using h
  rw [put, hbefore, hafter, nil_append]

theorem delete_first {rest : List (ℕ × Batch)}
    (hentries : db.entries = (seq, batch) :: rest) (h : ∀ e ∈ rest, seq < e.1) :
    (db.delete seq).entries = rest := by
  have hrest : rest.filter (fun e => e.1 ≠ seq) = rest := by
    rw [filter_eq_self]
    intro e he
    have hlt := h e he
    simp only [decide_eq_true_eq]
    omega
  rw [delete, hentries, filter_cons, if_neg (by simp), hrest]

end

end QueueDb

structure QueuedItem where
  batch : Batch
  key : ℕ
  deriving DecidableEq

structure BatchQueue where
  queue : List QueuedItem
  head : ℕ
  maxQueueSize : ℕ
  nextAddSeq : ℕ
  nextPrependSeq : ℕ

inductive QueueError
  | queueFull
  | persistFailed
  deriving DecidableEq

namespace BatchQueue

def zeroItem : QueuedItem := ⟨⟨[]⟩, 0⟩

def new (maxSize : ℕ) : BatchQueue where
  queue := []
  head := 0
  maxQueueSize := maxSize
  nextAddSeq := initialSeqNum
  nextPrependSeq := initialSeqNum - 1

section

variable (bq : BatchQueue)

def size : ℕ := bq.queue.length - bq.head

/-- `AddBatch`; `written` says whether the datastore takes the write. -/
def addBatch (db : QueueDb) (batch : Batch) (written : Bool) :
    Except QueueError (BatchQueue × QueueDb) :=
  if 0 < bq.maxQueueSize ∧ bq.maxQueueSize ≤ bq.size then .error .queueFull
  else if !written then .error .persistFailed
  else .ok
    ({ bq with
        queue := bq.queue ++ [⟨batch, bq.nextAddSeq⟩]
        nextAddSeq := uint64Succ bq.nextAddSeq },
      db.put bq.nextAddSeq batch)

/-- `Prepend`. The size limit does not apply, and a free slot before the head is used
when there is one. -/
def prepend (db : QueueDb) (batch : Batch) (written : Bool) :
    Except QueueError (BatchQueue × QueueDb) :=
  let item : QueuedItem := ⟨batch, bq.nextPrependSeq⟩
  if !written then .error .persistFailed
  else
    let bq' := { bq with nextPrependSeq := uint64Pred bq.nextPrependSeq }
    let db' := db.put bq.nextPrependSeq batch
    -- slots before the head are spent, so the last of them can be overwritten
    if 0 < bq.head then
      .ok ({ bq' with head := bq.head - 1, queue := bq.queue.set (bq.head - 1) item }, db')
    else .ok ({ bq' with queue := item :: bq.queue }, db')

/-- The compaction inside `Next`. -/
def compact : BatchQueue :=
  if bq.queue.length / 2 < bq.head ∧ 100 < bq.head then
    { bq with queue := bq.queue.drop bq.head, head := 0 }
  else bq

/-- `Next`. It never fails: an empty queue gives the empty batch, and a datastore that
refuses the delete (`deleted = false`) is only reported. -/
def next (db : QueueDb) (deleted : Bool) : Batch × BatchQueue × QueueDb :=
  match bq.queue[bq.head]? with
  | none => (⟨[]⟩, bq, db)
  | some item =>
    -- the item is gone from memory whether or not its key could be deleted
    let bq' := { bq with queue := bq.queue.set bq.head zeroItem, head := bq.head + 1 }
    (item.batch, bq'.compact, if deleted then db.delete item.key else db)

/-- One entry of the `Load` loop: the sequence counters move past the key. -/
def loadEntry (entry : ℕ × Batch) : BatchQueue :=
  { bq with
    queue := bq.queue ++ [⟨entry.2, entry.1⟩]
    nextAddSeq := if bq.nextAddSeq ≤ entry.1 then uint64Succ entry.1 else bq.nextAddSeq
    nextPrependSeq :=
      if entry.1 ≤ bq.nextPrependSeq then uint64Pred entry.1 else bq.nextPrependSeq }

/-- One legacy entry of `Load`: it is rewritten under the next sequence number and
deleted under its old name. -/
def migrateEntry (s : BatchQueue × QueueDb) (entry : String × Batch) : BatchQueue × QueueDb :=
  ({ s.1 with
      queue := s.1.queue ++ [⟨entry.2, s.1.nextAddSeq⟩]
      nextAddSeq := uint64Succ s.1.nextAddSeq },
    { s.2.put s.1.nextAddSeq entry.2 with
      legacy := s.2.legacy.filter (fun e => e.1 ≠ entry.1) })

def load (maxSize : ℕ) (db : QueueDb) : BatchQueue × QueueDb :=
  db.legacy.foldl migrateEntry (db.entries.foldl loadEntry (new maxSize), db)

theorem foldl_loadEntry (entries : List (ℕ × Batch)) (bq : BatchQueue) :
    (entries.foldl loadEntry bq).queue.map QueuedItem.batch =
        bq.queue.map QueuedItem.batch ++ entries.map Prod.snd ∧
      (entries.foldl loadEntry bq).head = bq.head := by
  induction entries generalizing bq with
  | nil => simp
  | cons e entries ih =>
    rw [foldl_cons, (ih _).1, (ih _).2]
    simp [loadEntry]

theorem foldl_migrateEntry (legacy : List (String × Batch)) (s : BatchQueue × QueueDb) :
    (legacy.foldl migrateEntry s).1.queue.map QueuedItem.batch =
        s.1.queue.map QueuedItem.batch ++ legacy.map Prod.snd ∧
      (legacy.foldl migrateEntry s).1.head = s.1.head := by
  induction legacy generalizing s with
  | nil => simp
  | cons e legacy ih =>
    rw [foldl_cons, (ih _).1, (ih _).2]
    simp [migrateEntry]

theorem load_head (maxSize : ℕ) (db : QueueDb) : (load maxSize db).1.head = 0 := by
  unfold load
  rw [(foldl_migrateEntry _ _).2, (foldl_loadEntry _ _).2]
  rfl

/-! ## The queue as a deque -/

def live : List QueuedItem := bq.queue.drop bq.head

theorem compact_live : bq.compact.live = bq.live := by
  unfold compact
  split_ifs
  · simp only [live, drop_zero]
  · rfl

end

section

variable (bq : BatchQueue) (db : QueueDb) (deleted : Bool)
include bq db deleted

theorem next_live :
    (bq.next db deleted).1 = ((bq.live.head?).map QueuedItem.batch).getD ⟨[]⟩ ∧
      (bq.next db deleted).2.1.live = bq.live.tail := by
  unfold next
  cases hitem : bq.queue[bq.head]? with
  | none =>
    have hspent : bq.queue.length ≤ bq.head := List.getElem?_eq_none_iff.mp hitem
    simp only [live, drop_eq_nil_of_le hspent, List.head?_nil, Option.map_none,
      Option.getD_none, tail_nil, and_self]
  | some item =>
    obtain ⟨hlt, hget⟩ := List.getElem?_eq_some_iff.mp hitem
    have hdrop : bq.live = item :: bq.queue.drop (bq.head + 1) := by
      rw [live, drop_eq_getElem_cons hlt, hget]
    refine ⟨?_, ?_⟩
    · rw [hdrop]
      rfl
    -- the slot that was cleared lies before the new head
    · rw [compact_live, hdrop, tail_cons]
      simp only [live, drop_set, Nat.lt_succ_self, if_true]

theorem next_frame :
    let bq' := (bq.next db deleted).2.1
    bq'.maxQueueSize = bq.maxQueueSize ∧ bq'.nextAddSeq = bq.nextAddSeq ∧
      bq'.nextPrependSeq = bq.nextPrependSeq ∧
      (bq.head ≤ bq.queue.length → bq'.head ≤ bq'.queue.length) := by
  unfold next
  cases hitem : bq.queue[bq.head]? with
  | none => exact ⟨rfl, rfl, rfl, fun h => h⟩
  | some item =>
    obtain ⟨hlt, -⟩ := List.getElem?_eq_some_iff.mp hitem
    dsimp only
    unfold compact
    split_ifs
    · exact ⟨rfl, rfl, rfl, fun _ => Nat.zero_le _⟩
    · refine ⟨rfl, rfl, rfl, fun _ => ?_⟩
      dsimp only
      rw [length_set]
      omega

theorem next_db :
    (bq.next db deleted).2.2 = match bq.live.head? with
      | none => db
      | some item => if deleted then db.delete item.key else db := by
  have hhead : bq.live.head? = bq.queue[bq.head]? := by
    rw [live, List.head?_drop]
  rw [hhead]
  unfold next
  cases bq.queue[bq.head]? with
  | none | some item => rfl

end

section

variable {bq bq' : BatchQueue} {db db' : QueueDb} {batch : Batch} {written : Bool}

theorem addBatch_live (hhead : bq.head ≤ bq.queue.length)
    (hadd : bq.addBatch db batch written = .ok (bq', db')) :
    bq'.live = bq.live ++ [⟨batch, bq.nextAddSeq⟩] := by
  unfold addBatch at hadd
  split_ifs at hadd
  obtain ⟨rfl, -⟩ := Prod.mk.inj (ok.inj hadd)
  simp only [live, drop_append_of_le_length hhead]

theorem prepend_frame (bq : BatchQueue) (db : QueueDb) (batch : Batch) :
    ∃ bq', bq.prepend db batch true = .ok (bq', db.put bq.nextPrependSeq batch) ∧
      bq'.maxQueueSize = bq.maxQueueSize ∧ bq'.nextAddSeq = bq.nextAddSeq ∧
      bq'.nextPrependSeq = uint64Pred bq.nextPrependSeq ∧
      (bq.head ≤ bq.queue.length → bq'.head ≤ bq'.queue.length) := by
  unfold prepend
  rw [if_neg (by simp)]
  split_ifs with hpos
  · refine ⟨_, rfl, rfl, rfl, rfl, fun hle => ?_⟩
    dsimp only
    rw [length_set]
    omega
  · refine ⟨_, rfl, rfl, rfl, rfl, fun hle => ?_⟩
    exact hle.trans (Nat.le_succ _)

theorem prepend_live (hhead : bq.head ≤ bq.queue.length)
    (hpre : bq.prepend db batch written = .ok (bq', db')) :
    bq'.live = ⟨batch, bq.nextPrependSeq⟩ :: bq.live := by
  unfold prepend at hpre
  split_ifs at hpre with hwritten hpos
  · obtain ⟨rfl, -⟩ := Prod.mk.inj (ok.inj hpre)
    have hlt : bq.head - 1 < (bq.queue.set (bq.head - 1)
        ⟨batch, bq.nextPrependSeq⟩).length := by
      rw [length_set]
      omega
    simp only [live]
    rw [drop_eq_getElem_cons hlt, getElem_set_self,
      show bq.head - 1 + 1 = bq.head by omega, drop_set, if_pos (by omega)]
  · obtain ⟨rfl, -⟩ := Prod.mk.inj (ok.inj hpre)
    have hzero : bq.head = 0 := by omega
    simp only [live, hzero, drop_zero]

end

end BatchQueue

end ChainSdk

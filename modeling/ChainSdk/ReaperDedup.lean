/-
What the reaper submits twice: `SubmitTxs` of `block/internal/reaping/reaper.go` over the cache of
transaction hashes of `block/internal/cache/manager.go`.

The rounds and the cleanups take turns in one goroutine. Nothing is evicted from the cache.
-/
import ChainSdk.Runs
import ChainSdk.Types
import Mathlib.Data.Finset.Union

namespace ChainSdk

open List

/-- `DefaultTxCacheRetention`, a day. -/
def defaultTxCacheRetention : Time := 86400000000000

structure TxCache where
  /-- The hashes for which `IsTxSeen` holds. -/
  seen : Finset Hash
  txTimestamps : Hash → Option Time

namespace TxCache

def setTxSeen (now : Time) (m : TxCache) (hash : Hash) : TxCache :=
  ⟨insert hash m.seen, Function.update m.txTimestamps hash (some now)⟩

/-- The hashes `CleanupOldTxs` removes. -/
def isOld (m : TxCache) (now olderThan : Time) (hash : Hash) : Bool :=
  let olderThan := if olderThan ≤ 0 then defaultTxCacheRetention else olderThan
  (m.txTimestamps hash).any fun timestamp => timestamp < now - olderThan

def cleanupOldTxs (m : TxCache) (now olderThan : Time) : TxCache where
  seen := m.seen.filter fun hash => !m.isOld now olderThan hash
  txTimestamps := fun hash => if m.isOld now olderThan hash then none else m.txTimestamps hash

end TxCache

structure DedupNode where
  cache : TxCache
  /-- How many transactions with a hash are in the batches accepted since the hash was removed. -/
  acceptedSince : Hash → ℕ

inductive DedupOp
  /-- A round: what `GetTxs` returns, whether `SubmitBatchTxs` accepts, and when. -/
  | submitTxs (txs : Option (List Tx)) (accepted : Bool) (now : Time)
  | cleanupOldTxs (now olderThan : Time)

namespace DedupNode

variable (hashTx : Tx → Hash)

section

variable (n : DedupNode)

/-- The hashes of the transactions a round submits. -/
def newHashes (txs : List Tx) : List Hash :=
  (txs.map hashTx).filter fun hash => decide (hash ∉ n.cache.seen)

def step : DedupOp → DedupNode
  | .submitTxs (some txs) true now =>
    { cache := (n.newHashes hashTx txs).foldl (TxCache.setTxSeen now) n.cache
      acceptedSince := fun hash => n.acceptedSince hash + (n.newHashes hashTx txs).count hash }
  -- `GetTxs` or `SubmitBatchTxs` has failed
  | .submitTxs _ _ _ => n
  | .cleanupOldTxs now olderThan =>
    { cache := n.cache.cleanupOldTxs now olderThan
      acceptedSince := fun hash =>
        if n.cache.isOld now olderThan hash then 0 else n.acceptedSince hash }

def AtMostOnce : Prop := ∀ hash, n.acceptedSince hash ≤ 1

/-- An accepted round submits no transaction twice. -/
def ListsOnce : DedupOp → Prop
  | .submitTxs (some txs) true _ => (n.newHashes hashTx txs).Nodup
  | _ => True

/-- What was accepted has been marked. -/
def Marked : Prop := ∀ hash, n.acceptedSince hash ≠ 0 → hash ∈ n.cache.seen

end

theorem mem_seen_foldl (now : Time) (hashes : List Hash) (m : TxCache) (hash : Hash) :
    hash ∈ (hashes.foldl (TxCache.setTxSeen now) m).seen ↔ hash ∈ m.seen ∨ hash ∈ hashes := by
  induction hashes generalizing m with
  | nil => simp
  | cons h hashes ih =>
    rw [foldl_cons, ih, TxCache.setTxSeen, Finset.mem_insert, mem_cons]
    tauto

variable {hashTx} {n : DedupNode}

theorem Marked.step (hn : n.Marked) (op : DedupOp) : (n.step hashTx op).Marked := by
  intro hash hcount
  rcases op with ⟨_ | txs, _ | _, now⟩ | ⟨now, olderThan⟩
  case submitTxs.some.true =>
    rw [DedupNode.step, mem_seen_foldl]
    by_cases hnew : hash ∈ n.newHashes hashTx txs
    · exact .inr hnew
    · refine .inl (hn hash fun hzero => hcount ?_)
      show n.acceptedSince hash + _ = 0
      rw [hzero, count_eq_zero.mpr hnew]
  case cleanupOldTxs =>
    replace hcount : (if n.cache.isOld now olderThan hash then 0 else _) ≠ 0 := hcount
    obtain ⟨hold, hcount⟩ := ite_ne_left_iff.mp hcount
    exact Finset.mem_filter.mpr ⟨hn hash hcount.symm, by simpa using hold⟩
  all_goals exact hn hash hcount

theorem Marked.atMostOnce_iff (hn : n.Marked) (honce : n.AtMostOnce) (op : DedupOp) :
    (n.step hashTx op).AtMostOnce ↔ n.ListsOnce hashTx op := by
  rcases op with ⟨_ | txs, _ | _, now⟩ | ⟨now, olderThan⟩
  case submitTxs.some.true =>
    rw [ListsOnce, nodup_iff_count_le_one]
    constructor
    · exact fun h hash => le_trans (Nat.le_add_left _ _) (h hash)
    · intro hcount hash
      show n.acceptedSince hash + _ ≤ 1
      by_cases hzero : n.acceptedSince hash = 0
      · rw [hzero, Nat.zero_add]
        exact hcount hash
      -- accepted before, so it has been seen and is not submitted
      have hnot : hash ∉ n.newHashes hashTx txs := by
        simp [newHashes, hn hash hzero]
      rw [count_eq_zero.mpr hnot]
      exact honce hash
  case cleanupOldTxs =>
    refine iff_of_true (fun hash => ?_) trivial
    show (if _ then 0 else _) ≤ 1
    split_ifs
    · exact Nat.zero_le 1
    · exact honce hash
  all_goals exact iff_of_true honce trivial

/-- Over every sequence of rounds and cleanups, from any cache: each transaction is in the accepted
batches at most once between two removals of its hash, if and only if no accepted round was given a
transaction it had not seen twice. -/
theorem submitted_at_most_once_iff (hashTx : Tx → Hash) (cache : TxCache) (ops : List DedupOp) :
    (∀ p ∈ Runs.steps (step hashTx) ⟨cache, fun _ => 0⟩ ops, (p.1.step hashTx p.2).AtMostOnce) ↔
      ∀ p ∈ Runs.steps (step hashTx) ⟨cache, fun _ => 0⟩ ops, p.1.ListsOnce hashTx p.2 := by
  apply Runs.steps_safe_iff (step hashTx) Marked AtMostOnce (fun _ _ => True) (ListsOnce hashTx)
  · exact fun n op hn _ => hn.step op
  · exact fun n op hn _ honce => hn.atMostOnce_iff honce op
  · exact fun hash hcount => absurd rfl hcount
  · exact fun hash => Nat.zero_le 1
  · exact fun _ _ => trivial

/-- A transaction that `GetTxs` lists twice is submitted twice. -/
theorem repeated_tx_submitted_twice :
    (step id ⟨⟨∅, fun _ => none⟩, fun _ => 0⟩ (.submitTxs (some [[1], [1]]) true 5)).acceptedSince
      [1] = 2 := by
  decide

end DedupNode

end ChainSdk

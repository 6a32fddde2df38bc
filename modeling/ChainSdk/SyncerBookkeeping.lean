/-
What the forced-inclusion check keeps of the blocks it is called for, against those blocks.

Bytes and hashes are assigned to a DA height, not added to it, so that of several blocks at one
height only the last is kept, and pruning a height forgets its hashes wherever else they were
posted.
-/
import ChainSdk.SyncerVerdicts
import Mathlib.Algebra.BigOperators.Group.Finset.Basic

namespace ChainSdk

open Function List

namespace Syncer

/-- A call of the check, made after other blocks have led to its last state. -/
def callWith (s : Syncer) (c : State × VerifyCall) : Syncer :=
  { s with lastState := c.1 }.afterCall c.2

/-- The distinct blocks of the calls at a DA height. -/
def blocksAt (calls : List (State × VerifyCall)) (h : ℕ) : Finset Data :=
  ((calls.filter (fun c => c.2.daHeight = h)).map (fun c => c.2.data)).toFinset

def trueBytes (calls : List (State × VerifyCall)) (h : ℕ) : ℕ :=
  ∑ data ∈ blocksAt calls h, blockBytes data.txs

structure Exact (calls : List (State × VerifyCall)) (s : Syncer) : Prop where
  bytes_eq : ∀ h, s.lastCheckedEpochEnd < h → s.daBlockBytes h = trueBytes calls h
  mem_byHeight : ∀ h, s.lastCheckedEpochEnd < h → ∀ x, x ∈ s.seenBlockTxsByHeight h ↔
    ∃ data ∈ blocksAt calls h, x ∈ data.txs.map s.hashTx
  mem_seen : ∀ x, x ∈ s.seenBlockTxs ↔ ∃ h, s.lastCheckedEpochEnd < h ∧
    ∃ data ∈ blocksAt calls h, x ∈ data.txs.map s.hashTx

/-- No transaction hash is posted at two DA heights. -/
def Apart (codec : Codec) (calls : List (State × VerifyCall)) : Prop :=
  ∀ c ∈ calls, ∀ c' ∈ calls, c.2.daHeight ≠ c'.2.daHeight →
    ∀ x ∈ c.2.data.txs.map codec.sha256, x ∉ c'.2.data.txs.map codec.sha256

/-- Nothing is noted at the cursor itself, where the next pruning begins. -/
structure Keeps (codec : Codec) (calls : List (State × VerifyCall)) (s : Syncer) : Prop
    extends Exact calls s where
  codec_eq : s.codec = codec
  byHeight_cursor : s.seenBlockTxsByHeight s.lastCheckedEpochEnd = []

section

variable {codec : Codec} {calls : List (State × VerifyCall)} {s : Syncer}

theorem mem_blocksAt {h : ℕ} {data : Data} :
    data ∈ blocksAt calls h ↔ ∃ c ∈ calls, c.2.daHeight = h ∧ c.2.data = data := by
  simp [blocksAt, and_assoc]

theorem blocksAt_append {c : State × VerifyCall}
    (hone : ∀ c' ∈ calls, c'.2.daHeight = c.2.daHeight → c'.2.data = c.2.data) (h : ℕ) :
    blocksAt (calls ++ [c]) h = if h = c.2.daHeight then {c.2.data} else blocksAt calls h := by
  ext data
  split_ifs with hh
  · subst hh
    rw [mem_blocksAt, Finset.mem_singleton]
    constructor
    · rintro ⟨c', hc', hheight, rfl⟩
      rcases mem_append.mp hc' with hold | hnew
      · exact hone c' hold hheight
      · rw [mem_singleton.mp hnew]
    · rintro rfl
      exact ⟨c, by simp, rfl, rfl⟩
  · rw [mem_blocksAt, mem_blocksAt]
    constructor
    · rintro ⟨c', hc', hheight, hdata⟩
      rcases mem_append.mp hc' with hold | hnew
      · exact ⟨c', hold, hheight, hdata⟩
      · rw [mem_singleton.mp hnew] at hheight
        exact absurd hheight.symm hh
    · rintro ⟨c', hc', hrest⟩
      exact ⟨c', mem_append_left _ hc', hrest⟩

theorem Keeps.record (hs : s.Keeps codec calls) {c : State × VerifyCall}
    (habove : s.lastCheckedEpochEnd < c.2.daHeight)
    (hone : ∀ c' ∈ calls, c'.2.daHeight = c.2.daHeight → c'.2.data = c.2.data) :
    (s.record c.2.daHeight c.2.data.txs).Keeps codec (calls ++ [c]) := by
  have hat := blocksAt_append hone
  have hhash : (s.record c.2.daHeight c.2.data.txs).hashTx = s.hashTx := rfl
  refine ⟨⟨fun h hh => ?_, fun h hh x => ?_, fun x => ?_⟩, hs.codec_eq, ?_⟩
  · unfold trueBytes
    rw [hat]
    by_cases heq : h = c.2.daHeight
    · rw [if_pos heq, Finset.sum_singleton, heq]
      exact update_self ..
    · rw [if_neg heq]
      exact (update_of_ne heq ..).trans (hs.bytes_eq h hh)
  · rw [hat, hhash]
    by_cases heq : h = c.2.daHeight
    · rw [if_pos heq, heq]
      simp [Syncer.record]
    · rw [if_neg heq, ← hs.mem_byHeight h hh]
      simp [Syncer.record, heq]
  · rw [hhash]
    refine Finset.mem_union.trans ?_
    rw [hs.mem_seen, mem_toFinset]
    constructor
    · rintro (⟨h, hh, data, hdata, hx⟩ | hx)
      -- an older block at this height is this block
      · refine ⟨h, hh, data, ?_, hx⟩
        rw [hat]
        split_ifs with heq
        · obtain ⟨c', hc', hheight, rfl⟩ := mem_blocksAt.mp hdata
          exact Finset.mem_singleton.mpr (hone c' hc' (hheight.trans heq))
        · exact hdata
      · exact ⟨c.2.daHeight, habove, c.2.data, by rw [hat, if_pos rfl]; simp, hx⟩
    · rintro ⟨h, hh, data, hdata, hx⟩
      rw [hat] at hdata
      split_ifs at hdata with heq
      · rw [Finset.mem_singleton.mp hdata] at hx
        exact .inr hx
      · exact .inl ⟨h, hh, data, hdata, hx⟩
  · exact (update_of_ne habove.ne ..).trans hs.byHeight_cursor

theorem Keeps.passEpoch (hs : s.Keeps codec calls) (hapart : Apart codec calls) (e : ℕ) :
    (s.passEpoch e).Keeps codec calls := by
  rcases s.passEpoch_cases e with ⟨-, heq⟩ | ⟨hlt, hpruned, hcursor⟩
  · rw [heq]
    exact hs
  have hhash : (s.passEpoch e).hashTx = codec.sha256 := by
    unfold hashTx
    rw [hpruned.codec_eq, hs.codec_eq]
  have hhash' : s.hashTx = codec.sha256 := by
    unfold hashTx
    rw [hs.codec_eq]
  have hseen := hs.mem_seen
  have hbyHeight := hs.mem_byHeight
  rw [hhash'] at hseen hbyHeight
  refine ⟨⟨?_, ?_, ?_⟩, hpruned.codec_eq.trans hs.codec_eq, ?_⟩
  · rw [hcursor]
    intro h hh
    rw [hpruned.bytes_eq, if_neg (by omega)]
    exact hs.bytes_eq h (by omega)
  · rw [hcursor, hhash]
    intro h hh
    rw [hpruned.byHeight_eq, if_neg (by omega)]
    exact hbyHeight h (by omega)
  · rw [hcursor, hhash]
    intro x
    rw [hpruned.mem_seen, hseen]
    constructor
    · rintro ⟨⟨h, hh, hposted⟩, hkept⟩
      refine ⟨h, ?_, hposted⟩
      by_contra hle
      exact hkept h hh.le (by omega) ((hbyHeight h hh x).mpr hposted)
    · rintro ⟨h, hh, data, hdata, hx⟩
      refine ⟨⟨h, by omega, data, hdata, hx⟩, fun h' hge hle hnoted => ?_⟩
      rcases hge.lt_or_eq with hgt | rfl
      -- its hash would have been posted at a pruned height as well
      · obtain ⟨data', hdata', hx'⟩ := (hbyHeight h' hgt x).mp hnoted
        obtain ⟨c, hc, rfl, rfl⟩ := mem_blocksAt.mp hdata
        obtain ⟨c', hc', rfl, rfl⟩ := mem_blocksAt.mp hdata'
        exact hapart c hc c' hc' (by omega) x hx hx'
      · rw [hs.byHeight_cursor] at hnoted
        exact absurd hnoted not_mem_nil
  · rw [hcursor, hpruned.byHeight_eq, if_pos ⟨hlt.le, Nat.lt_succ_self e⟩]

theorem passEpoch_fiRetriever (s : Syncer) (e : ℕ) :
    (s.passEpoch e).fiRetriever = s.fiRetriever := by
  unfold passEpoch
  split_ifs
  · unfold pruneUpTo
    dsimp only
    exact List.foldlRecOn (motive := fun t : Syncer => t.fiRetriever = s.fiRetriever) _ _ rfl
      (fun _ h _ _ => h)
  · rfl

theorem Keeps.callWith (hs : s.Keeps codec calls) (hsize : s.epochSize ≠ 0)
    (hretriever : s.fiRetriever ≠ none) {c : State × VerifyCall}
    (habove : s.lastCheckedEpochEnd < c.2.daHeight)
    (hone : ∀ c' ∈ calls, c'.2.daHeight = c.2.daHeight → c'.2.data = c.2.data)
    (hapart : Apart codec (calls ++ [c])) :
    (s.callWith c).Keeps codec (calls ++ [c]) ∧ (s.callWith c).fiRetriever ≠ none ∧
      (s.callWith c).lastCheckedEpochEnd < c.2.daHeight := by
  refine verify_induct (P := fun t => t.Keeps codec (calls ++ [c]) ∧ t.fiRetriever ≠ none ∧
    t.lastCheckedEpochEnd < c.2.daHeight) ?_ ?_ ?_ ?_
  · rintro (hnone | hzero)
    · exact absurd hnone hretriever
    · exact absurd hzero hsize
  · have hs' : { s with lastState := c.1 }.Keeps codec calls :=
      ⟨⟨hs.bytes_eq, hs.mem_byHeight, hs.mem_seen⟩, hs.codec_eq, hs.byHeight_cursor⟩
    exact ⟨hs'.record habove hone, hretriever, habove⟩
  · rintro t e ⟨ht, hsome, hcursor⟩ hlt
    refine ⟨ht.passEpoch hapart e, (passEpoch_fiRetriever t e).trans_ne hsome, ?_⟩
    rcases t.passEpoch_cases e with ⟨-, heq⟩ | ⟨-, -, hmoved⟩
    · rw [heq]
      exact hcursor
    · rw [hmoved]
      exact hlt
  · rintro t r ⟨ht, -, hcursor⟩
    exact ⟨⟨⟨ht.bytes_eq, ht.mem_byHeight, ht.mem_seen⟩, ht.codec_eq, ht.byHeight_cursor⟩,
      by simp, hcursor⟩

end

theorem callWith_epochSize (s : Syncer) (c : State × VerifyCall) :
    (s.callWith c).epochSize = s.epochSize :=
  congrArg (·.daEpochForcedInclusion)
    (verify_sameChain { s with lastState := c.1 } c.2.env c.2.daHeight c.2.data).genesis_eq

end Syncer

open Syncer in
/-- For every start of the syncer on a chain with forced inclusion, and all calls at DA heights that
do not fall and are above the first cursor: if the calls at one DA height are for one block, and no
transaction hash is posted at two, the notes above the cursor are exact, and so are the grace
periods there. -/
theorem bookkeeping_exact (genesis : Genesis) (hsize : 0 < genesis.daEpochForcedInclusion)
    (codec : Codec) (client : Client) (state : State) (calls : List (State × VerifyCall))
    (hmono : calls.Pairwise (fun c c' => c.2.daHeight ≤ c'.2.daHeight))
    (habove : ∀ c ∈ calls, initialCheckedEpochEnd genesis state.daHeight < c.2.daHeight)
    (hone : ∀ c ∈ calls, ∀ c' ∈ calls, c.2.daHeight = c'.2.daHeight → c.2.data = c'.2.data)
    (hapart : Apart codec calls) (s : Syncer)
    (hs : s = calls.foldl callWith (ofState genesis codec client state)) :
    s.Exact calls ∧ ∀ epochStart epochEnd, s.lastCheckedEpochEnd < epochStart →
      gracePeriodForEpoch s.daBlockBytes epochStart epochEnd =
        gracePeriodForEpoch (trueBytes calls) epochStart epochEnd := by
  have hrun : s.Keeps codec calls ∧ s.fiRetriever ≠ none ∧
      s.epochSize = genesis.daEpochForcedInclusion ∧
      ∀ d, initialCheckedEpochEnd genesis state.daHeight < d →
        (∀ c ∈ calls, c.2.daHeight ≤ d) → s.lastCheckedEpochEnd < d := by
    induction calls using List.reverseRecOn generalizing s with
    | nil =>
      subst hs
      exact ⟨⟨⟨fun h _ => by rfl, fun h _ x => by simp [ofState, blocksAt],
        fun x => by simp [ofState, blocksAt]⟩, rfl, rfl⟩, by simp [ofState], rfl, fun d hd _ => hd⟩
    | append_singleton calls c ih =>
      rw [foldl_append] at hs
      obtain ⟨hbefore, -, hlast⟩ := pairwise_append.mp hmono
      obtain ⟨hkeeps, hretriever, hepoch, hcursor⟩ := ih hbefore
        (fun c' hc' => habove c' (mem_append_left _ hc'))
        (fun c' hc' c'' hc'' => hone c' (mem_append_left _ hc') c''
          (mem_append_left _ hc''))
        (fun c' hc' c'' hc'' => hapart c' (mem_append_left _ hc') c''
          (mem_append_left _ hc'')) _ rfl
      have hlt := hcursor c.2.daHeight (habove c (by simp)) (fun c' hc' => hlast c' hc' c (by simp))
      subst hs
      obtain ⟨hkeeps', hretriever', hcursor'⟩ := hkeeps.callWith (by omega) hretriever hlt
        (fun c' hc' => hone c' (mem_append_left _ hc') c (by simp)) hapart
      exact ⟨hkeeps', hretriever', (callWith_epochSize _ c).trans hepoch,
        fun d _ hd => hcursor'.trans_le (hd c (by simp))⟩
  refine ⟨hrun.1.toExact, fun epochStart epochEnd hlt => gracePeriodForEpoch_congr ?_⟩
  exact fun h hge _ => hrun.1.bytes_eq h (hlt.trans_le hge)

private def callAt (daHeight : ℕ) (txs : List Tx) : State × VerifyCall :=
  (smallSyncer.lastState, ⟨plainEnv (fun _ => []), daHeight, ⟨none, txs⟩⟩)

open Syncer in
theorem bookkeeping_exact_of_two :
    Exact [callAt 2 [[1]], callAt 5 [[2]]]
      ([callAt 2 [[1]], callAt 5 [[2]]].foldl callWith smallSyncer) :=
  (bookkeeping_exact smallGenesis (by decide) plainCodec forcedClient smallSyncer.lastState
    [callAt 2 [[1]], callAt 5 [[2]]] (by decide) (by decide) (by decide)
    (by unfold Apart; decide) _ rfl).1

open Syncer in
/-- Of two blocks at DA height 1 the first is neither counted nor listed. A transaction that is
posted at 2 and again at 5 is no longer seen when 2 has been pruned. -/
theorem notes_lost_to_other_blocks :
    (∃ s, s = [callAt 1 [[1]], callAt 1 [[2]]].foldl callWith smallSyncer ∧
      s.lastCheckedEpochEnd = 0 ∧ s.daBlockBytes 1 = 1 ∧ s.seenBlockTxsByHeight 1 = [[2]] ∧
      trueBytes [callAt 1 [[1]], callAt 1 [[2]]] 1 = 2) ∧
    ∃ s, s = [callAt 2 [[1]], callAt 5 [[1]]].foldl callWith smallSyncer ∧
      s.lastCheckedEpochEnd = 2 ∧ s.seenBlockTxs = ∅ ∧ s.seenBlockTxsByHeight 5 = [[1]] :=
  ⟨⟨_, rfl, by decide +kernel⟩, _, rfl, by decide +kernel⟩

end ChainSdk

/-
The notes of the forced-inclusion check, told as history.

`Tracks hist s` ties the three maps of a syncer to the blocks `hist` it has noted: what is seen
comes from those blocks, what is in them and only above the cursor is still seen, and the byte
counts above the cursor are theirs.
-/
import ChainSdk.SyncerForcedInclusion

namespace ChainSdk

open Function List Syncer

structure PostedBlock where
  daHeight : ℕ
  txs : List Tx
  deriving DecidableEq

def notedBytes (hist : List PostedBlock) : ℕ → ℕ :=
  hist.foldl (fun f b => update f b.daHeight (blockBytes b.txs)) (fun _ => 0)

theorem notedBytes_append_singleton (hist : List PostedBlock) (b : PostedBlock) :
    notedBytes (hist ++ [b]) =
      update (notedBytes hist) b.daHeight (blockBytes b.txs) := by
  unfold notedBytes
  rw [foldl_append, foldl_cons, foldl_nil]

theorem notedBytes_append_of_ne (hist later : List PostedBlock) {h : ℕ}
    (hne : ∀ b ∈ later, b.daHeight ≠ h) : notedBytes (hist ++ later) h = notedBytes hist h := by
  induction later using List.reverseRecOn with
  | nil => rw [append_nil]
  | append_singleton later b ih =>
    rw [← append_assoc, notedBytes_append_singleton,
      update_of_ne (hne b (by simp)).symm]
    exact ih (fun b' hb' => hne b' (by simp [hb']))

theorem gracePeriodForEpoch_congr {f g : ℕ → ℕ} {a b : ℕ} (hsame : ∀ h, a ≤ h → h ≤ b → f h = g h) :
    gracePeriodForEpoch f a b = gracePeriodForEpoch g a b := by
  unfold gracePeriodForEpoch
  split_ifs with hempty
  · rfl
  have hbytes : (List.range' a (b - a + 1)).map f = (List.range' a (b - a + 1)).map g := by
    refine map_congr_left (fun h hh => ?_)
    rw [mem_range'_1] at hh
    exact hsame h hh.1 (by omega)
  dsimp only
  rw [hbytes]

/-! ## Epoch ends -/

def epochEndAt (genesis : Genesis) (k : ℕ) : ℕ :=
  genesis.daStartHeight + (k + 1) * genesis.daEpochForcedInclusion - 1

def epochStartAt (genesis : Genesis) (k : ℕ) : ℕ :=
  genesis.daStartHeight + k * genesis.daEpochForcedInclusion

theorem epochStartAt_mono (genesis : Genesis) : Monotone (epochStartAt genesis) :=
  fun _ _ hle => Nat.add_le_add_left (Nat.mul_le_mul_right _ hle) _

def epochTxs (da : ℕ → List Blob) (genesis : Genesis) (k : ℕ) : List Tx :=
  Ranges.between da (epochStartAt genesis k) (epochEndAt genesis k + 1)

section

variable {genesis : Genesis}

section

variable (hsize : 0 < genesis.daEpochForcedInclusion)
include hsize

section

variable (k : ℕ)

theorem epochEndAt_succ :
    epochEndAt genesis (k + 1) = epochEndAt genesis k + genesis.daEpochForcedInclusion := by
  have hpos : 0 < (k + 1) * genesis.daEpochForcedInclusion :=
    Nat.mul_pos (Nat.succ_pos k) hsize
  unfold epochEndAt
  rw [Nat.add_mul (k + 1)]
  omega

theorem epochEndAt_eq_start :
    epochEndAt genesis k - (genesis.daEpochForcedInclusion - 1) = epochStartAt genesis k := by
  unfold epochEndAt epochStartAt
  rw [Nat.add_mul]
  omega

theorem epochStartAt_succ : epochStartAt genesis (k + 1) = epochEndAt genesis k + 1 := by
  have hpos : 0 < (k + 1) * genesis.daEpochForcedInclusion :=
    Nat.mul_pos (Nat.succ_pos k) hsize
  unfold epochEndAt epochStartAt
  omega

theorem epochStartAt_le_end : epochStartAt genesis k ≤ epochEndAt genesis k := by
  unfold epochEndAt epochStartAt
  rw [Nat.add_mul]
  omega

theorem epochEndAt_strictMono :
    StrictMono (epochEndAt genesis) := by
  refine strictMono_nat_of_lt_succ (fun k => ?_)
  rw [epochEndAt_succ hsize]
  omega

theorem epochEnd_epochEndAt :
    epochEnd genesis.daStartHeight genesis.daEpochForcedInclusion (epochEndAt genesis k) =
      epochEndAt genesis k :=
  epochEnd_of_multiple hsize k

theorem start_le_epochEndAt : genesis.daStartHeight ≤ epochEndAt genesis k :=
  (Nat.le_add_right _ _).trans (epochStartAt_le_end hsize k)

theorem epochStart_epochEndAt :
    epochStart genesis.daStartHeight genesis.daEpochForcedInclusion (epochEndAt genesis k) =
      epochStartAt genesis k := by
  have hlen := epochEnd_eq_start_add hsize (start_le_epochEndAt hsize k)
  rw [epochEnd_epochEndAt hsize] at hlen
  have hstart := epochEndAt_eq_start hsize k
  omega

end

theorem graceBoundary_congr {f g : ℕ → ℕ} {k : ℕ}
    (hsame : ∀ h, epochStartAt genesis k ≤ h → h ≤ epochEndAt genesis k → f h = g h) :
    graceBoundary genesis.daEpochForcedInclusion f (epochEndAt genesis k) =
      graceBoundary genesis.daEpochForcedInclusion g (epochEndAt genesis k) := by
  unfold graceBoundary
  rw [epochEndAt_eq_start hsize, gracePeriodForEpoch_congr hsame]

end

theorem epochEnd_add_size_le_graceBoundary (size : ℕ) (bytes : ℕ → ℕ) (e : ℕ) :
    e + size ≤ graceBoundary size bytes e := by
  have hgrace : 1 ≤ gracePeriodForEpoch bytes (e - (size - 1)) e := by
    unfold gracePeriodForEpoch baseGracePeriodEpochs
    by_cases hempty : e < e - (size - 1)
    · rw [if_pos hempty]
    · rw [if_neg hempty]
      exact le_min (Nat.le_add_right _ _) (by decide)
  have hmul := Nat.mul_le_mul_right size hgrace
  unfold graceBoundary
  omega

end

/-! ## Pruning -/

namespace Syncer

structure PrunedFrom (s s' : Syncer) (a b : ℕ) : Prop where
  genesis_eq : s'.genesis = s.genesis
  codec_eq : s'.codec = s.codec
  lastState_eq : s'.lastState = s.lastState
  mem_seen : ∀ x, x ∈ s'.seenBlockTxs ↔
    x ∈ s.seenBlockTxs ∧ ∀ h, a ≤ h → h < b → x ∉ s.seenBlockTxsByHeight h
  byHeight_eq : ∀ h, s'.seenBlockTxsByHeight h =
    if a ≤ h ∧ h < b then [] else s.seenBlockTxsByHeight h
  bytes_eq : ∀ h, s'.daBlockBytes h = if a ≤ h ∧ h < b then 0 else s.daBlockBytes h

section

variable (s : Syncer)

theorem PrunedFrom.refl (a : ℕ) : PrunedFrom s s a a where
  genesis_eq := rfl
  codec_eq := rfl
  lastState_eq := rfl
  mem_seen := fun x => ⟨fun hx => ⟨hx, fun h hge hlt => by omega⟩, fun hx => hx.1⟩
  byHeight_eq := fun h => by rw [if_neg (by omega)]
  bytes_eq := fun h => by rw [if_neg (by omega)]

theorem PrunedFrom.pruneHeight {s s' : Syncer} {a b : ℕ} (hpruned : PrunedFrom s s' a b)
    (hle : a ≤ b) : PrunedFrom s (s'.pruneHeight b) a (b + 1) := by
  have hnoted := hpruned.byHeight_eq b
  rw [if_neg (by omega)] at hnoted
  unfold Syncer.pruneHeight
  refine ⟨hpruned.genesis_eq, hpruned.codec_eq, hpruned.lastState_eq, fun x => ?_,
    fun h => ?_, fun h => ?_⟩
  · rw [Finset.mem_sdiff, mem_toFinset, hpruned.mem_seen, hnoted]
    constructor
    -- the new round adds the height's own notes to those no longer seen
    · rintro ⟨⟨hx, hbelow⟩, hlast⟩
      refine ⟨hx, fun h hge hlt => ?_⟩
      by_cases hh : h = b
      · rw [hh]
        exact hlast
      · exact hbelow h hge (by omega)
    · rintro ⟨hx, hall⟩
      exact ⟨⟨hx, fun h hge hlt => hall h hge (by omega)⟩, hall b hle (by omega)⟩
  · dsimp only
    by_cases hh : h = b
    · rw [hh, update_self, if_pos ⟨hle, by omega⟩]
    · rw [update_of_ne hh, hpruned.byHeight_eq]
      exact if_congr ⟨fun hlt => ⟨hlt.1, by omega⟩, fun hlt => ⟨hlt.1, by omega⟩⟩ rfl rfl
  · dsimp only
    by_cases hh : h = b
    · rw [hh, update_self, if_pos ⟨hle, by omega⟩]
    · rw [update_of_ne hh, hpruned.bytes_eq]
      exact if_congr ⟨fun hlt => ⟨hlt.1, by omega⟩, fun hlt => ⟨hlt.1, by omega⟩⟩ rfl rfl

theorem foldl_pruneHeight (a n : ℕ) :
    PrunedFrom s ((List.range' a n).foldl pruneHeight s) a (a + n) := by
  induction n with
  | zero => exact .refl s a
  | succ n ih =>
    rw [List.range'_1_concat, foldl_append, foldl_cons, foldl_nil, ← Nat.add_assoc]
    exact ih.pruneHeight (Nat.le_add_right a n)

theorem passEpoch_cases (epochEnd : ℕ) :
    epochEnd ≤ s.lastCheckedEpochEnd ∧ s.passEpoch epochEnd = s ∨
      s.lastCheckedEpochEnd < epochEnd ∧
        PrunedFrom s (s.passEpoch epochEnd) s.lastCheckedEpochEnd (epochEnd + 1) ∧
        (s.passEpoch epochEnd).lastCheckedEpochEnd = epochEnd := by
  unfold passEpoch
  by_cases hlt : s.lastCheckedEpochEnd < epochEnd
  -- `pruneUpTo` starts at the cursor itself, which is pruned a second time
  · rw [if_pos hlt]
    have hfold := foldl_pruneHeight s s.lastCheckedEpochEnd
      (epochEnd + 1 - s.lastCheckedEpochEnd)
    rw [show s.lastCheckedEpochEnd + (epochEnd + 1 - s.lastCheckedEpochEnd) = epochEnd + 1 by
      omega] at hfold
    exact .inr ⟨hlt, ⟨hfold.genesis_eq, hfold.codec_eq, hfold.lastState_eq, hfold.mem_seen,
      hfold.byHeight_eq, hfold.bytes_eq⟩, rfl⟩
  · rw [if_neg hlt]
    exact .inl ⟨Nat.not_lt.mp hlt, rfl⟩

/-! ## The notes as history -/

/-- The notes of a height have not been pruned. -/
def Unpruned (h : ℕ) : Prop :=
  s.lastCheckedEpochEnd = 0 ∨ s.lastCheckedEpochEnd < h

end

structure Tracks (hist : List PostedBlock) (s : Syncer) : Prop where
  seen_of_posted : ∀ b ∈ hist, ∀ tx ∈ b.txs,
    (∀ b' ∈ hist, tx ∈ b'.txs → s.Unpruned b'.daHeight) → s.hashTx tx ∈ s.seenBlockTxs
  posted_of_seen : ∀ x ∈ s.seenBlockTxs, ∃ b ∈ hist, ∃ tx ∈ b.txs, s.hashTx tx = x
  noted_at : ∀ h, ∀ x ∈ s.seenBlockTxsByHeight h,
    ∃ b ∈ hist, b.daHeight = h ∧ ∃ tx ∈ b.txs, s.hashTx tx = x
  bytes_eq : ∀ h, s.Unpruned h → s.daBlockBytes h = notedBytes hist h

theorem Tracks.record {hist : List PostedBlock} {s : Syncer} (htracks : Tracks hist s)
    (daHeight : ℕ) (txs : List Tx) :
    Tracks (hist ++ [⟨daHeight, txs⟩]) (s.record daHeight txs) where
  seen_of_posted := by
    intro b hb tx htx hunpruned
    refine Finset.mem_union.mpr ?_
    -- a transaction of an older block is still seen, one of the new block has just been added
    rcases mem_append.mp hb with hold | hnew
    · left
      exact htracks.seen_of_posted b hold tx htx
        (fun b' hb' htx' => hunpruned b' (mem_append_left _ hb') htx')
    · right
      obtain rfl := mem_singleton.mp hnew
      exact mem_toFinset.mpr (mem_map_of_mem htx)
  posted_of_seen := by
    intro x hx
    rcases Finset.mem_union.mp hx with hold | hnew
    · obtain ⟨b, hb, tx, htx, heq⟩ := htracks.posted_of_seen x hold
      exact ⟨b, mem_append_left _ hb, tx, htx, heq⟩
    · obtain ⟨tx, htx, heq⟩ := mem_map.mp (mem_toFinset.mp hnew)
      exact ⟨⟨daHeight, txs⟩, mem_append_right _ mem_cons_self, tx, htx, heq⟩
  noted_at := by
    intro h x hx
    by_cases hh : h = daHeight
    · subst hh
      have hx' : x ∈ txs.map s.hashTx := by
        unfold Syncer.record at hx
        dsimp only at hx
        rwa [update_self] at hx
      obtain ⟨tx, htx, heq⟩ := mem_map.mp hx'
      exact ⟨⟨h, txs⟩, mem_append_right _ mem_cons_self, rfl, tx, htx, heq⟩
    · unfold Syncer.record at hx
      dsimp only at hx
      rw [update_of_ne hh] at hx
      obtain ⟨b, hb, hheight, hrest⟩ := htracks.noted_at h x hx
      exact ⟨b, mem_append_left _ hb, hheight, hrest⟩
  bytes_eq := by
    intro h hunpruned
    rw [notedBytes_append_singleton]
    unfold Syncer.record
    dsimp only
    by_cases hh : h = daHeight
    · rw [hh, update_self, update_self]
    · rw [update_of_ne hh, update_of_ne hh]
      exact htracks.bytes_eq h hunpruned

/-- Passing an epoch keeps the history. Where hashing does not collide, what pruning forgets
was posted at a pruned height. -/
theorem Tracks.passEpoch {hist : List PostedBlock} {s : Syncer} (htracks : Tracks hist s)
    (hsha : Function.Injective s.codec.sha256) (epochEnd : ℕ) :
    Tracks hist (s.passEpoch epochEnd) := by
  rcases s.passEpoch_cases epochEnd with ⟨-, heq⟩ | ⟨hlt, hpruned, hcursor⟩
  · rw [heq]
    exact htracks
  have hhash : (s.passEpoch epochEnd).hashTx = s.hashTx := by
    unfold hashTx
    rw [hpruned.codec_eq]
  have hunpruned : ∀ h, (s.passEpoch epochEnd).Unpruned h ↔ epochEnd < h := by
    intro h
    unfold Unpruned
    omega
  refine ⟨?_, ?_, ?_, ?_⟩
  · intro b hb tx htx habove
    rw [hhash, hpruned.mem_seen]
    refine ⟨htracks.seen_of_posted b hb tx htx (fun b' hb' htx' => .inr ?_), ?_⟩
    · have hheight := (hunpruned _).mp (habove b' hb' htx')
      omega
    · intro h hge hle hnoted
      -- were it pruned, a transaction with the same hash would have been posted at a pruned
      -- height, and that is the same transaction
      obtain ⟨b', hb', rfl, tx', htx', hcollide⟩ := htracks.noted_at h _ hnoted
      obtain rfl : tx' = tx := hsha hcollide
      have hheight := (hunpruned _).mp (habove b' hb' htx')
      omega
  · intro x hx
    rw [hhash]
    exact htracks.posted_of_seen x ((hpruned.mem_seen x).mp hx).1
  · intro h x hx
    rw [hpruned.byHeight_eq] at hx
    rw [hhash]
    by_cases hin : s.lastCheckedEpochEnd ≤ h ∧ h < epochEnd + 1
    · rw [if_pos hin] at hx
      exact absurd hx not_mem_nil
    · rw [if_neg hin] at hx
      exact htracks.noted_at h x hx
  · intro h habove
    have hheight := (hunpruned h).mp habove
    rw [hpruned.bytes_eq, if_neg (by omega)]
    exact htracks.bytes_eq h (.inr (by omega))

/-! ## One round of the loop over epochs -/

/-- `looked` is what a round looks up of the transactions it retrieved. -/
def LooksUp (env : VerifyEnv) (maxGas : ℕ) (txs looked : List Tx) : Prop :=
  txs = [] ∧ looked = [] ∨
    ∃ statuses, env.filter.filterTxs txs defaultMaxBlobSize maxGas true = .ok statuses ∧
      looked = accepted txs statuses

section

variable {env : VerifyEnv} {maxGas daHeight : ℕ} {scan : EpochScan}

theorem checkEpoch_next {scan' : EpochScan}
    (h : checkEpoch env maxGas daHeight scan = .next scan') :
    graceBoundary scan.syncer.epochSize scan.syncer.daBlockBytes scan.epochEnd < daHeight ∧
      ∃ event looked, (scan.retriever.retrieveForcedIncludedTxs (env.retrieval scan.epochEnd)
          scan.epochEnd).1 = .ok event ∧ LooksUp env maxGas event.txs looked ∧
        scan' =
          { syncer := scan.syncer.passEpoch scan.epochEnd
            retriever := (scan.retriever.retrieveForcedIncludedTxs
              (env.retrieval scan.epochEnd) scan.epochEnd).2
            epochEnd := scan.epochEnd + scan.syncer.epochSize
            maliciousCount := scan.maliciousCount + (scan.syncer.unseen looked).length
            compared := scan.compared ++ looked } := by
  unfold checkEpoch at h
  dsimp only at h
  split_ifs at h with hboundary
  refine ⟨Nat.not_le.mp hboundary, ?_⟩
  -- every failed retrieval leaves the loop
  rcases hres : (scan.retriever.retrieveForcedIncludedTxs (env.retrieval scan.epochEnd)
    scan.epochEnd).1 with e | event
  · rw [hres] at h
    cases e <;> exact absurd h (by simp)
  rw [hres] at h
  dsimp only at h
  by_cases hempty : event.txs.length = 0
  · rw [if_pos hempty] at h
    obtain rfl := Loops.Outcome.next.inj h
    refine ⟨event, [], rfl, .inl ⟨length_eq_zero_iff.mp hempty, rfl⟩, ?_⟩
    simp [unseen]
  · rw [if_neg hempty] at h
    rcases hfilter : env.filter.filterTxs event.txs defaultMaxBlobSize maxGas true with
      e | statuses
    · simp [hfilter] at h
    · rw [hfilter] at h
      obtain rfl := Loops.Outcome.next.inj h
      exact ⟨event, _, rfl, .inr ⟨statuses, hfilter, rfl⟩, rfl⟩

/-- A round that leaves changes nothing. It is at a boundary not passed yet, or something
outside has failed, which is no accusation. -/
theorem checkEpoch_done {r : ScanResult} (h : checkEpoch env maxGas daHeight scan = .done r) :
    r.syncer = scan.syncer ∧ r.compared = scan.compared ∧
      (r.retriever = scan.retriever ∨ r.retriever = (scan.retriever.retrieveForcedIncludedTxs
        (env.retrieval scan.epochEnd) scan.epochEnd).2) ∧
      (daHeight ≤ graceBoundary scan.syncer.epochSize scan.syncer.daBlockBytes scan.epochEnd ∧
          r.verdict = .ok scan.maliciousCount ∨
        (scan.retriever.retrieveForcedIncludedTxs (env.retrieval scan.epochEnd)
            scan.epochEnd).1 = .error .forceInclusionNotConfigured ∧ r.verdict = .ok 0 ∨
        (∃ e, (scan.retriever.retrieveForcedIncludedTxs (env.retrieval scan.epochEnd)
            scan.epochEnd).1 = .error e ∧ r.verdict = .error (.retrieve scan.epochEnd e)) ∨
        ∃ event e, graceBoundary scan.syncer.epochSize scan.syncer.daBlockBytes scan.epochEnd <
            daHeight ∧
          (scan.retriever.retrieveForcedIncludedTxs (env.retrieval scan.epochEnd)
            scan.epochEnd).1 = .ok event ∧ event.txs ≠ [] ∧
          env.filter.filterTxs event.txs defaultMaxBlobSize maxGas true = .error e ∧
          r.verdict = .error (.filter e)) := by
  unfold checkEpoch at h
  dsimp only at h
  split_ifs at h with hboundary
  · obtain rfl := Loops.Outcome.done.inj h
    exact ⟨rfl, rfl, .inl rfl, .inl ⟨hboundary, rfl⟩⟩
  rcases hres : (scan.retriever.retrieveForcedIncludedTxs (env.retrieval scan.epochEnd)
    scan.epochEnd).1 with e | event
  · rw [hres] at h
    by_cases hconf : e = .forceInclusionNotConfigured
    · subst hconf
      obtain rfl := Loops.Outcome.done.inj h
      exact ⟨rfl, rfl, .inr rfl, .inr (.inl ⟨rfl, rfl⟩)⟩
    have hr : r = ⟨.error (.retrieve scan.epochEnd e), scan.syncer,
        (scan.retriever.retrieveForcedIncludedTxs (env.retrieval scan.epochEnd)
          scan.epochEnd).2, scan.compared⟩ := by
      cases e with
      | forceInclusionNotConfigured => exact absurd rfl hconf
      | beforeStartHeight _ _ | heightFromFuture _ | failedHeight _ _ =>
        exact (Loops.Outcome.done.inj h).symm
    subst hr
    exact ⟨rfl, rfl, .inr rfl, .inr (.inr (.inl ⟨e, rfl, rfl⟩))⟩
  · rw [hres] at h
    dsimp only at h
    split_ifs at h with hempty
    rcases hfilter : env.filter.filterTxs event.txs defaultMaxBlobSize maxGas true with
      e | statuses
    · rw [hfilter] at h
      obtain rfl := Loops.Outcome.done.inj h
      exact ⟨rfl, rfl, .inr rfl, .inr (.inr (.inr ⟨event, e,
        Nat.not_le.mp hboundary, rfl, fun hnil => hempty (by rw [hnil]; rfl), hfilter,
        rfl⟩))⟩
    · simp [hfilter] at h

end

/-! ## The cursor -/

/-- The cursor of a syncer that looks at epoch `k` next: at the end of the epoch before, or
still at `0`. -/
def CursorBefore (genesis : Genesis) (s : Syncer) (k : ℕ) : Prop :=
  s.lastCheckedEpochEnd = 0 ∨
    ∃ j, k = j + 1 ∧ s.lastCheckedEpochEnd = epochEndAt genesis j

section

variable {genesis : Genesis} {s : Syncer} {k : ℕ}

theorem CursorBefore.unpruned {h : ℕ}
    (hcursor : CursorBefore genesis s k) (hsize : 0 < genesis.daEpochForcedInclusion)
    (hle : epochStartAt genesis k ≤ h) : s.Unpruned h := by
  rcases hcursor with hzero | ⟨j, rfl, heq⟩
  · exact .inl hzero
  · rw [epochStartAt_succ hsize] at hle
    right
    omega

theorem CursorBefore.passEpoch
    (hcursor : CursorBefore genesis s k) (hsize : 0 < genesis.daEpochForcedInclusion) :
    CursorBefore genesis (s.passEpoch (epochEndAt genesis k)) (k + 1) := by
  rcases s.passEpoch_cases (epochEndAt genesis k) with ⟨hle, heq⟩ | ⟨-, -, hmoved⟩
  · -- the cursor is at the epoch's end already only if both are `0`
    rw [heq]
    rcases hcursor with hzero | ⟨j, rfl, hj⟩
    · exact .inl hzero
    · rw [epochEndAt_succ hsize] at hle
      omega
  · exact .inr ⟨k, rfl, hmoved⟩

theorem epochEndAt_zero (genesis : Genesis) :
    genesis.daStartHeight + genesis.daEpochForcedInclusion - 1 = epochEndAt genesis 0 := by
  unfold epochEndAt
  rw [Nat.one_mul]

theorem startEpochEnd_eq (hgenesis : s.genesis = genesis)
    (hsize : 0 < genesis.daEpochForcedInclusion)
    (hcursor : s.lastCheckedEpochEnd = 0 ∨ ∃ j, s.lastCheckedEpochEnd = epochEndAt genesis j) :
    ∃ k, s.startEpochEnd = epochEndAt genesis k ∧ CursorBefore genesis s k := by
  unfold startEpochEnd epochSize
  rw [hgenesis]
  rw [epochEndAt_zero]
  rcases hcursor with hzero | ⟨j, hj⟩
  · rw [if_pos (.inl hzero)]
    exact ⟨0, rfl, .inl hzero⟩
  by_cases hzero : s.lastCheckedEpochEnd = 0
  · rw [if_pos (.inl hzero)]
    exact ⟨0, rfl, .inl hzero⟩
  · have hle := (epochEndAt_strictMono hsize).monotone (Nat.zero_le j)
    rw [if_neg (by omega), hj, ← epochEndAt_succ hsize]
    exact ⟨j + 1, rfl, .inr ⟨j, rfl, hj⟩⟩

theorem CursorBefore.startEpochEnd_le {j : ℕ}
    (hcursor : CursorBefore genesis s j) (hgenesis : s.genesis = genesis)
    (hsize : 0 < genesis.daEpochForcedInclusion) (hjk : j ≤ k) :
    s.startEpochEnd ≤ epochEndAt genesis k := by
  have hmono := (epochEndAt_strictMono hsize).monotone
  unfold startEpochEnd epochSize
  rw [hgenesis]
  dsimp only
  split_ifs with hbefore
  · rw [epochEndAt_zero]
    exact hmono (Nat.zero_le k)
  · rcases hcursor with hzero | ⟨i, rfl, hi⟩
    · exact absurd (.inl hzero) hbefore
    · rw [hi, ← epochEndAt_succ hsize]
      exact hmono hjk

end

theorem initialCheckedEpochEnd_eq (genesis : Genesis) (daHeight : ℕ) :
    initialCheckedEpochEnd genesis daHeight = 0 ∨
      ∃ j, initialCheckedEpochEnd genesis daHeight = epochEndAt genesis j := by
  unfold initialCheckedEpochEnd
  dsimp only
  split_ifs with hended
  · refine .inr ⟨(daHeight - (genesis.daStartHeight + genesis.daEpochForcedInclusion - 1)) /
      genesis.daEpochForcedInclusion, ?_⟩
    unfold epochEndAt
    rw [Nat.add_mul]
    omega
  · exact .inl rfl

end Syncer

end ChainSdk

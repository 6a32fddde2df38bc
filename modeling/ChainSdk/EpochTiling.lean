/-
The ways in which epochs are computed agree: from the number of an epoch in `types/epoch.go`, by
steps from one end to the next in `VerifyForcedInclusionTxs`, and from the heights that have passed
in `initializeState`.
-/
import ChainSdk.SyncerRestart

namespace ChainSdk

open ForcedInclusionRetriever Syncer

/-- First height, last height and number of the epoch a DA height of the chain lies in. -/
def Genesis.epochOf (genesis : Genesis) (d : ℕ) : ℕ × ℕ × ℕ :=
  calculateEpochBoundaries d genesis.daStartHeight genesis.daEpochForcedInclusion

section

variable {genesis : Genesis} {d : ℕ} (hsize : 0 < genesis.daEpochForcedInclusion)

section

variable (hd : genesis.daStartHeight ≤ d)
include hsize hd

theorem epochOf_eq :
    genesis.epochOf d =
      (epochStartAt genesis ((d - genesis.daStartHeight) / genesis.daEpochForcedInclusion),
        epochEndAt genesis ((d - genesis.daStartHeight) / genesis.daEpochForcedInclusion),
        (d - genesis.daStartHeight) / genesis.daEpochForcedInclusion + 1) := by
  simp [Genesis.epochOf, calculateEpochBoundaries, calculateEpochNumber, Nat.not_lt.mpr hd,
    hsize.ne', epochStartAt, epochEndAt]

/-- The ends that are stepped through are the heights at the end of their epoch. -/
theorem exists_epochEndAt_iff :
    (∃ k, d = epochEndAt genesis k) ↔ d = (genesis.epochOf d).2.1 := by
  constructor
  · rintro ⟨k, rfl⟩
    exact (epochEnd_epochEndAt hsize k).symm
  · rw [epochOf_eq hsize hd]
    exact fun hend => ⟨_, hend⟩

end

include hsize

theorem initialCheckedEpochEnd_isGreatest (d : ℕ) :
    IsGreatest {e | e ≤ d ∧ ∃ k, e = epochEndAt genesis k}
        (initialCheckedEpochEnd genesis d) ∨
      initialCheckedEpochEnd genesis d = 0 ∧ ∀ k, d < epochEndAt genesis k := by
  by_cases hended : epochEndAt genesis 0 ≤ d
  · have hlast := epochEndAt_le_initial hsize hended
    refine .inl ⟨⟨?_, ?_⟩, fun e ⟨hle, k, hk⟩ => ?_⟩
    · unfold initialCheckedEpochEnd
      dsimp only
      split_ifs
      · have hmul := Nat.div_mul_le_self (d - (genesis.daStartHeight +
          genesis.daEpochForcedInclusion - 1)) genesis.daEpochForcedInclusion
        omega
      · exact Nat.zero_le d
    · rcases initialCheckedEpochEnd_eq genesis d with hzero | hend
      · exact ⟨0, by omega⟩
      · exact hend
    · rw [hk] at hle ⊢
      exact epochEndAt_le_initial hsize hle
  · have hbefore (k : ℕ) : d < epochEndAt genesis k :=
      (Nat.not_le.mp hended).trans_le ((epochEndAt_strictMono hsize).monotone (Nat.zero_le k))
    have hfirst := hbefore 0
    rw [← epochEndAt_zero] at hfirst
    refine .inr ⟨?_, hbefore⟩
    unfold initialCheckedEpochEnd
    exact if_neg (by omega)

end

/-- The epochs of all components tile the DA heights from the start on. An epoch holds its height
and is as long as configured, and nothing that is computed for it or for the next one overflows. Its
boundaries and its number determine each other, and the next one begins where it ends. The ends that
are stepped through are the heights at which a whole epoch is retrieved, and a check resumes at the
last of them. -/
theorem epochs_tile (genesis : Genesis) (hsize : 1 ≤ genesis.daEpochForcedInclusion)
    (daHeight : ℕ) (hle : genesis.daStartHeight ≤ daHeight)
    (hfits : daHeight + 2 * genesis.daEpochForcedInclusion < 2 ^ 64) :
    let e := genesis.epochOf daHeight
    (e.1 ≤ daHeight ∧ daHeight ≤ e.2.1 ∧ e.2.1 - e.1 + 1 = genesis.daEpochForcedInclusion ∧
        e.2.2 = (daHeight - genesis.daStartHeight) / genesis.daEpochForcedInclusion + 1) ∧
      genesis.daStartHeight + (e.2.2 + 1) * genesis.daEpochForcedInclusion < 2 ^ 64 ∧
      (∀ h, genesis.daStartHeight ≤ h → h + 2 * genesis.daEpochForcedInclusion < 2 ^ 64 →
        (((genesis.epochOf h).1, (genesis.epochOf h).2.1) = (e.1, e.2.1) ↔
          (genesis.epochOf h).2.2 = e.2.2)) ∧
      ((genesis.epochOf (e.2.1 + 1)).1 = e.2.1 + 1 ∧
        (genesis.epochOf (e.2.1 + 1)).2.2 = e.2.2 + 1) ∧
      (∀ (r : ForcedInclusionRetriever) (env : RetrieveEnv), r.client.hasForcedNamespace = true →
        r.daStartHeight = genesis.daStartHeight →
        r.daEpochSize = genesis.daEpochForcedInclusion →
        (∀ h ∈ r.heights daHeight, (r.blockAt env daHeight h).isSome) →
        ((∃ event, (r.retrieveForcedIncludedTxs env daHeight).1 = .ok event ∧
            event.startDaHeight = e.1 ∧ event.endDaHeight = e.2.1) ↔
          ∃ k, daHeight = epochEndAt genesis k)) ∧
      ∀ (codec : Codec) (client : Client) (state : State),
        let last := (ofState genesis codec client state).lastCheckedEpochEnd
        IsGreatest {e | e ≤ state.daHeight ∧ ∃ k, e = epochEndAt genesis k} last ∨
          last = 0 ∧ ∀ k, state.daHeight < epochEndAt genesis k := by
  intro e
  have hlow : e.1 ≤ daHeight := epochStart_le hsize hle
  have hhigh : daHeight ≤ e.2.1 := le_epochEnd hsize hle
  have hlen : e.2.1 + 1 = e.1 + genesis.daEpochForcedInclusion := epochEnd_eq_start_add hsize hle
  obtain ⟨k, hk, he⟩ : ∃ k,
      k = (daHeight - genesis.daStartHeight) / genesis.daEpochForcedInclusion ∧
      e = (epochStartAt genesis k, epochEndAt genesis k, k + 1) := ⟨_, rfl, epochOf_eq hsize hle⟩
  have hnext : epochEndAt genesis k + 1 = epochStartAt genesis (k + 1) :=
    (epochStartAt_succ hsize k).symm
  refine ⟨⟨hlow, hhigh, by omega, ?_⟩, ?_, fun h hh _ => ?_, ?_, ?_, ?_⟩
  · rw [he, hk]
  · rw [he] at hlow ⊢
    unfold epochStartAt at hlow
    simp only [Nat.add_mul]
    omega
  · rw [epochOf_eq hsize hh, he, Prod.mk.injEq]
    constructor
    · exact fun hsame => congrArg Nat.succ ((epochEndAt_strictMono hsize).injective hsame.2)
    · intro hnum
      rw [Nat.succ_injective hnum]
      exact ⟨rfl, rfl⟩
  · have hquot : (epochEndAt genesis k + 1 - genesis.daStartHeight) /
        genesis.daEpochForcedInclusion = k + 1 := by
      rw [hnext, epochStartAt, Nat.add_sub_cancel_left, Nat.mul_div_cancel _ hsize]
    rw [he, epochOf_eq hsize (by rw [hnext]; exact Nat.le_add_right _ _), hquot]
    exact ⟨hnext.symm, rfl⟩
  · intro r env hns hstart hepoch hall
    have hlast : r.lastHeight daHeight = e.2.1 := by
      rw [lastHeight, hstart, hepoch]
      rfl
    have hfirst : r.firstHeight daHeight = e.1 := by
      rw [firstHeight, hstart, hepoch]
      rfl
    rw [exists_epochEndAt_iff hsize hle]
    constructor
    · rintro ⟨event, hres, -, hend⟩
      exact (retrieve_endDaHeight hres).symm.trans hend
    · intro hend
      obtain ⟨timestamp, hres⟩ := retrieve_of_complete hns
        (hstart ▸ hle) (hend.trans hlast.symm) hall
      exact ⟨_, hres, hfirst, hend⟩
  · exact fun codec client state => initialCheckedEpochEnd_isGreatest hsize state.daHeight

theorem epochs_tile_of_three :
    let genesis : Genesis := ⟨"chain", 0, 1, [7], 10, 3⟩
    genesis.epochOf 14 = (13, 15, 2) ∧ (genesis.epochOf (15 + 1)).1 = 15 + 1 :=
  ⟨rfl, (epochs_tile ⟨"chain", 0, 1, [7], 10, 3⟩ (by decide) 14 (by decide)
    (by decide)).2.2.2.1.1⟩

end ChainSdk

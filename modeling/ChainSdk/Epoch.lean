/-
`types/epoch.go`: the deterministic partition of DA heights into epochs.

Epoch `k` (counted from 1) of a chain with start height `s` and epoch size `n` is the interval `[s +
(k-1)·n, s + k·n - 1]`.
-/
import Mathlib.Tactic.Ring

namespace ChainSdk

/-! ## The two functions of the source -/

def calculateEpochNumber (daHeight daStartHeight daEpochSize : ℕ) : ℕ :=
  if daHeight < daStartHeight then 0
  else if daEpochSize = 0 then 1
  else (daHeight - daStartHeight) / daEpochSize + 1

/-- First height, last height and number of the epoch a DA height lies in, both
boundaries inclusive. -/
def calculateEpochBoundaries (daHeight daStartHeight daEpochSize : ℕ) : ℕ × ℕ × ℕ :=
  let epochNum := calculateEpochNumber daHeight daStartHeight daEpochSize
  if daEpochSize = 0 then (daStartHeight, daStartHeight, epochNum)
  else if daHeight < daStartHeight then
    (daStartHeight, daStartHeight + daEpochSize - 1, epochNum)
  else
    (daStartHeight + (epochNum - 1) * daEpochSize,
      daStartHeight + epochNum * daEpochSize - 1, epochNum)

def epochStart (start size d : ℕ) : ℕ := (calculateEpochBoundaries d start size).1

def epochEnd (start size d : ℕ) : ℕ := (calculateEpochBoundaries d start size).2.1

/-! ## Where a height sits in its epoch -/

section

variable {start size d : ℕ}

section

variable (hsize : 0 < size) (hd : start ≤ d)
include hsize hd

theorem epochStart_eq :
    epochStart start size d = start + (d - start) / size * size := by
  simp [epochStart, calculateEpochBoundaries, calculateEpochNumber, Nat.not_lt.mpr hd, hsize.ne']

theorem epochEnd_eq :
    epochEnd start size d = start + ((d - start) / size + 1) * size - 1 := by
  simp [epochEnd, calculateEpochBoundaries, calculateEpochNumber, Nat.not_lt.mpr hd, hsize.ne']

theorem epochEnd_eq_start_add :
    epochEnd start size d + 1 = epochStart start size d + size := by
  rw [epochStart_eq hsize hd, epochEnd_eq hsize hd, Nat.add_mul]
  omega

theorem start_le_epochStart :
    start ≤ epochStart start size d := by
  rw [epochStart_eq hsize hd]
  exact Nat.le_add_right _ _

private theorem epoch_decompose :
    epochStart start size d + (d - start) % size = d := by
  have h := Nat.div_add_mod (d - start) size
  rw [Nat.mul_comm] at h
  rw [epochStart_eq hsize hd]
  omega

theorem epochStart_le :
    epochStart start size d ≤ d := by
  have h := epoch_decompose hsize hd
  omega

theorem le_epochEnd :
    d ≤ epochEnd start size d := by
  have h := epoch_decompose hsize hd
  have hlen := epochEnd_eq_start_add hsize hd
  have hmod := Nat.mod_lt (d - start) hsize
  omega

/-! ## Stepping to the next height -/

theorem epochStart_succ_of_ne_end (hne : d ≠ epochEnd start size d) :
    epochStart start size (d + 1) = epochStart start size d := by
  have hdec := epoch_decompose hsize hd
  have hlen := epochEnd_eq_start_add hsize hd
  have hlt : (d - start) % size + 1 < size := by
    have hmod := Nat.mod_lt (d - start) hsize
    omega
  have hq : (d + 1 - start) / size = (d - start) / size := by
    rw [show d + 1 - start = d - start + 1 by omega, Nat.succ_div]
    have hnd : ¬ size ∣ d - start + 1 := by
      intro hdvd
      have h0 := Nat.mod_eq_zero_of_dvd hdvd
      rw [Nat.add_mod, Nat.mod_eq_of_lt (a := 1) (by omega), Nat.mod_eq_of_lt hlt] at h0
      omega
    rw [if_neg hnd, Nat.add_zero]
  rw [epochStart_eq hsize (by omega), epochStart_eq hsize hd, hq]

theorem epochStart_succ_of_end (hend : d = epochEnd start size d) :
    epochStart start size (d + 1) = d + 1 := by
  have hdec := epoch_decompose hsize hd
  have hlen := epochEnd_eq_start_add hsize hd
  have hq : (d + 1 - start) / size = (d - start) / size + 1 := by
    rw [show d + 1 - start = d - start + 1 by omega, Nat.succ_div]
    have hdvd : size ∣ d - start + 1 := by
      refine ⟨(d - start) / size + 1, ?_⟩
      have h := Nat.div_add_mod (d - start) size
      rw [Nat.mul_add]
      omega
    rw [if_pos hdvd]
  have hs := epochStart_eq hsize hd
  rw [epochStart_eq hsize (by omega), hq, Nat.add_mul]
  omega

end

theorem epochEnd_of_multiple (hsize : 0 < size) (k : ℕ) :
    epochEnd start size (start + (k + 1) * size - 1) = start + (k + 1) * size - 1 := by
  have hpos : 0 < (k + 1) * size := Nat.mul_pos (Nat.succ_pos k) hsize
  have hle : start ≤ start + (k + 1) * size - 1 := by omega
  have hq : (start + (k + 1) * size - 1 - start) / size = k := by
    rw [show start + (k + 1) * size - 1 - start = (size - 1) + k * size by
      rw [Nat.add_mul] at *; omega]
    rw [Nat.add_mul_div_right _ _ hsize, Nat.div_eq_of_lt (by omega), Nat.zero_add]
  rw [epochEnd_eq hsize hle, hq]

end

end ChainSdk

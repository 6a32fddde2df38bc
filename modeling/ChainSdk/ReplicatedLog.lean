/-
Replicas of a deterministic state machine that apply one log in order.

A replica is its state and how many entries it has applied. It is in step with the log if the state
is what those entries make of the initial one.
-/
import Mathlib.Data.List.Basic

namespace ReplicatedLog

open List

variable {S E : Type*}

def stateAt (step : S → E → S) (init : S) (log : List E) (k : ℕ) : S :=
  (log.take k).foldl step init

structure Replica (S : Type*) where
  state : S
  applied : ℕ

variable (step : S → E → S) (init : S)

structure Replica.InStep (log : List E) (r : Replica S) : Prop where
  applied_le : r.applied ≤ log.length
  state_eq : r.state = stateAt step init log r.applied

def Replica.applyNext (log : List E) (r : Replica S) : Replica S :=
  match log[r.applied]? with
  | none => r
  | some entry => ⟨step r.state entry, r.applied + 1⟩

def Replica.caughtUp (log : List E) : Replica S :=
  ⟨stateAt step init log log.length, log.length⟩

variable {step init} {log : List E} {r : Replica S}

theorem stateAt_append {more : List E} {k : ℕ} (hk : k ≤ log.length) :
    stateAt step init (log ++ more) k = stateAt step init log k := by
  unfold stateAt
  rw [take_append_of_le_length hk]

theorem stateAt_succ {k : ℕ} {entry : E} (hentry : log[k]? = some entry) :
    stateAt step init log (k + 1) = step (stateAt step init log k) entry := by
  unfold stateAt
  rw [take_add_one, hentry, foldl_append]
  rfl

theorem stateAt_concat (entry : E) :
    stateAt step init (log ++ [entry]) (log.length + 1) =
      step (stateAt step init log log.length) entry := by
  rw [stateAt_succ List.getElem?_concat_length, stateAt_append (Nat.le_refl _)]

theorem Replica.InStep.append (hr : r.InStep step init log) (more : List E) :
    r.InStep step init (log ++ more) where
  applied_le := by
    rw [length_append]
    exact Nat.le_add_right_of_le hr.applied_le
  state_eq := hr.state_eq.trans (stateAt_append hr.applied_le).symm

theorem Replica.InStep.applyNext (hr : r.InStep step init log) :
    (r.applyNext step log).InStep step init log := by
  unfold Replica.applyNext
  rcases hentry : log[r.applied]? with _ | entry
  · exact hr
  · refine ⟨(List.getElem?_eq_some_iff.mp hentry).1, ?_⟩
    rw [stateAt_succ hentry, hr.state_eq]

theorem Replica.InStep.caughtUp : (Replica.caughtUp step init log).InStep step init log :=
  ⟨Nat.le_refl _, rfl⟩

theorem Replica.InStep.update {ι : Type*} [DecidableEq ι] {replicas : ι → Replica S}
    (hreplicas : ∀ i, (replicas i).InStep step init log) (i : ι) (hr : r.InStep step init log) :
    ∀ j, (Function.update replicas i r j).InStep step init log := by
  intro j
  rw [Function.update_apply]
  split_ifs
  · exact hr
  · exact hreplicas j

end ReplicatedLog

/-
The times of accepted headers as the unsigned nanosecond counts a header carries.

`ValidateBasic` and `AssertValidSequence` compare them as `time.Time`, after a conversion to
`int64`.
-/
import ChainSdk.SignedBlocks

namespace ChainSdk

open List

/-- The headers are accepted one after another, each at its wall clock and with the state root its
block leads to. -/
def State.Accepts (c : Codec) : State → Bool → List (Time × Header × Hash) → Prop
  | _, _, [] => True
  | s, mismatchSeen, (now, header, stateRoot) :: rest =>
    header.validateBasic now = .ok () ∧ (s.assertValidSequence mismatchSeen header).1 = .ok () ∧
      Accepts c (s.nextState c header stateRoot) (s.assertValidSequence mismatchSeen header).2 rest

theorem timeOfUint64_of_lt {n : ℕ} (h : n < 2 ^ 63) : timeOfUint64 n = n := by
  unfold timeOfUint64
  rw [Nat.mod_eq_of_lt (by omega), if_pos h]

def Header.TimeWithin (header : Header) (now : Time) : Prop :=
  header.time ≠ 0 ∧ (header.time : ℤ) ≤ now + maxClockDrift

theorem Header.timeWithin_of_validateBasic {header : Header} {now : Time}
    (h : header.validateBasic now = .ok ()) (hsmall : header.time < 2 ^ 63) :
    header.TimeWithin now := by
  unfold validateBasic at h
  split_ifs at h with _ hzero hfuture
  rw [timeOfUint64_of_lt hsmall] at hfuture
  exact ⟨hzero, Int.not_lt.mp hfuture⟩

/-- From a state whose last header has been accepted: as long as no header carries a count of
`2 ^ 63` or more, the counts never decrease, none is zero, and each is at most the drift above the
clock it was accepted at. -/
theorem accepted_times_ordered (c : Codec) (hsha : ∀ bz, c.sha256 bz ≠ []) (s : State)
    (mismatchSeen : Bool) (now : Time) (last : Header) (accepted : List (Time × Header × Hash))
    (hhash : s.lastHeaderHash ≠ []) (htime : s.lastBlockTime = timeOfUint64 last.time)
    (hlast : last.validateBasic now = .ok ()) (haccepts : s.Accepts c mismatchSeen accepted)
    (hsmall : last.time < 2 ^ 63) (hsmalls : ∀ a ∈ accepted, a.2.1.time < 2 ^ 63) :
    (last.time :: accepted.map fun a => a.2.1.time).IsChain (· ≤ ·) ∧ last.TimeWithin now ∧
      ∀ a ∈ accepted, a.2.1.TimeWithin a.1 := by
  induction accepted generalizing s mismatchSeen now last with
  | nil => exact ⟨.singleton _, last.timeWithin_of_validateBasic hlast hsmall, by simp⟩
  | cons a accepted ih =>
    obtain ⟨now', header, stateRoot⟩ := a
    obtain ⟨hbasic, hsequence, hrest⟩ := haccepts
    rw [forall_mem_cons] at hsmalls
    have hnext : (s.nextState c header stateRoot).lastHeaderHash ≠ [] := by
      show c.headerHash header ≠ []
      unfold Codec.headerHash
      split_ifs
      · exact hsha _
      · exact hsha _
    obtain ⟨hchain, hwithin, hwithins⟩ := ih _ _ now' header hnext rfl hbasic hrest hsmalls.1
      hsmalls.2
    have hle := (State.assertValidSequence_ok hsequence hhash).2.1
    rw [htime, timeOfUint64_of_lt hsmall, timeOfUint64_of_lt hsmalls.1] at hle
    refine ⟨?_, last.timeWithin_of_validateBasic hlast hsmall, ?_⟩
    · exact .cons_cons (by exact_mod_cast hle) hchain
    · exact forall_mem_cons.mpr ⟨hwithin, hwithins⟩

def clockHeader (height time : ℕ) : Header :=
  ⟨height, time, "chain", ⟨0, 0⟩, [1], [], [], [], [7], none⟩

def timedState (time : ℕ) : State := ⟨⟨0, 0⟩, "chain", 1, 1, timeOfUint64 time, [1], 0, []⟩

theorem accepted_times_of_two :
    (clockHeader 1 4).time ≤ (clockHeader 2 5).time ∧ (clockHeader 2 5).TimeWithin 10 := by
  let c : Codec := ⟨fun _ => [], fun _ => [], fun _ => [], fun _ => [1]⟩
  obtain ⟨hchain, -, hwithin⟩ := accepted_times_ordered c (fun _ => cons_ne_nil _ _)
    (timedState 4) false 10 (clockHeader 1 4) [(10, clockHeader 2 5, [])] (cons_ne_nil _ _) rfl
    (by decide) ⟨by decide, by decide, trivial⟩ (by decide) (by decide)
  exact ⟨(isChain_cons_cons.mp hchain).1, hwithin _ mem_cons_self⟩

/-- A count of `2 ^ 63` is accepted, as a time long before the clock, and after it a count of
five. -/
theorem wrapped_time_accepted :
    (clockHeader 1 (2 ^ 63)).validateBasic 10 = .ok () ∧
      ((timedState (2 ^ 63)).assertValidSequence false (clockHeader 2 5)).1 = .ok () ∧
      (clockHeader 2 5).validateBasic 10 = .ok () ∧
      ¬ (clockHeader 1 (2 ^ 63)).TimeWithin 10 ∧
      (clockHeader 2 5).time < (clockHeader 1 (2 ^ 63)).time := by
  refine ⟨by decide, by decide, by decide, fun h => ?_, by decide⟩
  exact absurd h.2 (by decide)

end ChainSdk

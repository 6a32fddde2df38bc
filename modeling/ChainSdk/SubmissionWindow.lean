/-
The window `submitToDA` works with: which items each `Submit` call carries, and which of them are
handed to `postSubmit`.

The window is two slices, the items and their marshalled forms, and each is cut on its own. It loses
its front to an acknowledgement and its back to a halving, so it always begins right after what has
been acknowledged.
-/
import ChainSdk.DaSubmitter
import Mathlib.Algebra.Order.BigOperators.Group.List

namespace ChainSdk

open Except List

namespace DaSubmitter

variable {α : Type}

/-- `limitBatchBySize` on the two slices: the loop counts the items that fit, and both are cut
there. -/
def limitSlices (maxBytes : ℕ) (items : List α) (marshaled : List Blob) :
    Except SubmitError (List α × List Blob) :=
  (limitBatchBySize maxBytes (items.zip marshaled)).map fun batch =>
    (items.take batch.length, marshaled.take batch.length)

/-- The cut of `marshaled` in the body of the loop, next to that of the items in `onReply`. -/
def cutMarshaled (items : List α) (marshaled : List Blob) (res : ResultSubmit) : List Blob :=
  match res.code with
  | .success => marshaled.drop res.submittedCount
  | .tooBig => marshaled.take (if items.length / 2 = 0 then 1 else items.length / 2)
  | _ => marshaled

/-- One `Submit` call: the items of the window, the blobs it carries, and the reply. -/
structure Round (α : Type) where
  items : List α
  blobs : List Blob
  reply : ResultSubmit

/-- What is handed to `postSubmit`. -/
def Round.posted (round : Round α) : List α := (onReply round.items round.reply).submitted

/-- The `Submit` calls of a submission, and its result. -/
structure Submission (α : Type) where
  rounds : List (Round α)
  result : Except (Option SubmitError) Unit

/-- The retry loop, with the attempts left. An attempt fails before `Submit` if the context has
ended or the options cannot be merged; otherwise DA answers to the blobs it is sent. -/
def submitLoop (attempts : ℕ → List Blob → Except SubmitError ResultSubmit) :
    ℕ → ℕ → List α → List Blob → Submission α
  | 0, _, _, _ => ⟨[], .error none⟩
  | left + 1, attempt, items, marshaled =>
    match attempts attempt marshaled with
    | .error e => ⟨[], .error (some e)⟩
    | .ok res =>
      match (onReply items res).next with
      | .error result => ⟨[⟨items, marshaled, res⟩], result.mapError some⟩
      | .ok rest =>
        let s := submitLoop attempts left (attempt + 1) rest (cutMarshaled items marshaled res)
        ⟨⟨items, marshaled, res⟩ :: s.rounds, s.result⟩

def submitToDA (maxBytes maxAttempts : ℕ)
    (attempts : ℕ → List Blob → Except SubmitError ResultSubmit) (items : List α)
    (marshaled : List Blob) : Submission α :=
  if items.length ≠ marshaled.length then
    ⟨[], .error (some (.lengthMismatch items.length marshaled.length))⟩
  else if marshaled.length = 0 then submitLoop attempts maxAttempts 0 items marshaled
  else
    match limitSlices maxBytes items marshaled with
    | .error e => ⟨[], .error (some e)⟩
    | .ok batch => submitLoop attempts maxAttempts 0 batch.1 batch.2

theorem onReply_spec {window : List α} {res : ResultSubmit} (hne : window ≠ [])
    (hcount : res.submittedCount ≤ window.length) :
    (onReply window res).submitted <+: window ∧
      (∀ rest, (onReply window res).next = .ok rest →
        rest ≠ [] ∧ (onReply window res).submitted ++ rest <+: window) ∧
      ((onReply window res).next = .error (.ok ()) → (onReply window res).submitted = window) := by
  have hpos := length_pos_iff.mpr hne
  unfold onReply
  split
  · refine ⟨ take_prefix _ _, fun rest hrest => ?_, fun hdone => ?_⟩
    · dsimp only at hrest
      split_ifs at hrest with hall
      rw [← ok.inj hrest, take_append_drop]
      exact ⟨ne_nil_of_length_pos (by rw [length_drop]; omega), prefix_refl _⟩
    · dsimp only at hdone
      split_ifs at hdone with hall
      rw [hall, take_length]
  · refine ⟨ nil_prefix, fun rest hrest => ?_, fun hdone => ?_⟩
    · dsimp only at hrest
      split_ifs at hrest
      all_goals
        rw [← ok.inj hrest]
        exact ⟨ne_nil_of_length_pos (by rw [length_take]; omega), take_prefix _ _⟩
    · dsimp only at hdone
      split_ifs at hdone
      exact absurd hdone (by simp)
  · exact ⟨ nil_prefix, by simp, by simp⟩
  · refine ⟨ nil_prefix, fun rest hrest => ?_, by simp⟩
    rw [← ok.inj hrest]
    exact ⟨hne, prefix_refl _⟩

/-- `blobs` are the marshalled forms of a window of `n` items that starts at index `start`. -/
def Aligned (marshaled : List Blob) (start n : ℕ) (blobs : List Blob) : Prop :=
  blobs = (marshaled.drop start).take n

/-- The two slices are cut at the same places. -/
theorem Aligned.cut {marshaled blobs : List Blob} {start : ℕ} {window rest : List α}
    {res : ResultSubmit} (h : Aligned marshaled start window.length blobs)
    (hcount : res.submittedCount ≤ window.length) (hrest : (onReply window res).next = .ok rest) :
    Aligned marshaled (start + (onReply window res).submitted.length) rest.length
      (cutMarshaled window blobs res) := by
  unfold Aligned at h ⊢
  unfold onReply at hrest ⊢
  unfold cutMarshaled
  rcases hcode : res.code <;> simp only [hcode] at hrest ⊢
  case success =>
    split_ifs at hrest
    rw [← ok.inj hrest, h, length_take, length_drop, min_eq_left hcount, drop_take,
      drop_drop]
  case tooBig =>
    by_cases hone : window.length = 1
    · rw [if_pos hone] at hrest
      cases hrest
    · rw [if_neg hone] at hrest
      rw [← ok.inj hrest, h, take_take, length_take, length_nil, Nat.add_zero]
  case contextCanceled => cases hrest
  all_goals
    rw [← ok.inj hrest]
    exact h

theorem cutMarshaled_sublist (window : List α) (blobs : List Blob) (res : ResultSubmit) :
    (cutMarshaled window blobs res).Sublist blobs := by
  unfold cutMarshaled
  split
  · exact drop_sublist _ _
  · exact take_sublist _ _
  · exact Sublist.refl _

def blobsSize (blobs : List Blob) : ℕ := (blobs.map List.length).sum

/-- A submission goes through the items from front to back, `acked` of them being acknowledged
when it starts. -/
structure Submission.GoesThrough (attempts : ℕ → List Blob → Except SubmitError ResultSubmit)
    (items : List α) (marshaled : List Blob) (acked : List α) (attempt maxBytes : ℕ)
    (s : Submission α) : Prop where
  posted : acked ++ s.rounds.flatMap Round.posted <+: items
  windows : ∀ pre round post, s.rounds = pre ++ round :: post → round.items ≠ [] ∧
    acked ++ pre.flatMap Round.posted ++ round.items <+: items ∧
    Aligned marshaled (acked ++ pre.flatMap Round.posted).length round.items.length round.blobs ∧
    blobsSize round.blobs ≤ maxBytes ∧
    attempts (attempt + pre.length) round.blobs = .ok round.reply
  done : s.result = .ok () → ∃ pre round, s.rounds = pre ++ [round] ∧ round.posted = round.items

section

variable {items : List α} {marshaled : List Blob} {maxBytes : ℕ}
  {attempts : ℕ → List Blob → Except SubmitError ResultSubmit}

theorem goesThrough_nil {acked : List α} (hacked : acked <+: items) (attempt : ℕ)
    (e : Option SubmitError) :
    Submission.GoesThrough attempts items marshaled acked attempt maxBytes ⟨[], .error e⟩ :=
  ⟨by simpa using hacked, by simp, by simp⟩

theorem submitLoop_goesThrough (left attempt : ℕ) (acked : List α) {window : List α}
    {blobs : List Blob} (hne : window ≠ []) (hwindow : acked ++ window <+: items)
    (haligned : Aligned marshaled acked.length window.length blobs)
    (hsize : blobsSize blobs ≤ maxBytes)
    (hcounts : ∀ round ∈ (submitLoop attempts left attempt window blobs).rounds,
      round.reply.submittedCount ≤ round.items.length) :
    (submitLoop attempts left attempt window blobs).GoesThrough attempts items marshaled acked
        attempt maxBytes ∧
      (submitLoop attempts left attempt window blobs).rounds.length ≤ left := by
  induction left generalizing attempt acked window blobs with
  | zero => exact ⟨goesThrough_nil ((prefix_append _ _).trans hwindow) _ _, le_rfl⟩
  | succ left ih =>
    unfold submitLoop at hcounts ⊢
    rcases hattempt : attempts attempt blobs with e | res
    · exact ⟨goesThrough_nil ((prefix_append _ _).trans hwindow) _ _, Nat.zero_le _⟩
    rw [hattempt] at hcounts
    dsimp only at hcounts ⊢
    have hcount : res.submittedCount ≤ window.length := by
      rcases hnext : (onReply window res).next with result | rest
      all_goals
        rw [hnext] at hcounts
        exact hcounts ⟨window, blobs, res⟩ mem_cons_self
    obtain ⟨hfront, hrest, hdone⟩ := onReply_spec hne hcount
    -- the call of this attempt itself
    have hfirst : window ≠ [] ∧ acked ++ [] ++ window <+: items ∧
        Aligned marshaled (acked ++ []).length window.length blobs ∧ blobsSize blobs ≤ maxBytes ∧
        attempts (attempt + 0) blobs = .ok res := by
      rw [append_nil]
      exact ⟨hne, hwindow, haligned, hsize, hattempt⟩
    rcases hnext : (onReply window res).next with result | rest
    · refine ⟨⟨?_, fun pre round post hsplit => ?_, fun hok => ?_⟩, by simp⟩
      · simpa [Round.posted] using ((prefix_append_right_inj acked).mpr hfront).trans hwindow
      · rcases pre with _ | ⟨first, pre⟩
        · obtain ⟨rfl, -⟩ := cons.inj hsplit
          exact hfirst
        · simp at hsplit
      · rcases result with e | ⟨⟩
        · simp [Except.mapError] at hok
        · exact ⟨[], _, rfl, hdone hnext⟩
    · rw [hnext] at hcounts
      dsimp only at hcounts ⊢
      obtain ⟨hne', hprefix⟩ := hrest rest hnext
      have hwindow' : acked ++ (onReply window res).submitted ++ rest <+: items := by
        rw [append_assoc]
        exact ((prefix_append_right_inj acked).mpr hprefix).trans hwindow
      have haligned' : Aligned marshaled (acked ++ (onReply window res).submitted).length
          rest.length (cutMarshaled window blobs res) := by
        rw [length_append]
        exact haligned.cut hcount hnext
      have hsize' : blobsSize (cutMarshaled window blobs res) ≤ maxBytes :=
        (((cutMarshaled_sublist window blobs res).map List.length).sum_le_sum (by simp)).trans hsize
      obtain ⟨⟨hposted, hwindows, hend⟩, hlength⟩ := ih (attempt + 1) _ hne' hwindow' haligned'
        hsize' fun round hmem => hcounts round (mem_cons_of_mem _ hmem)
      refine ⟨⟨?_, fun pre round post hsplit => ?_, fun hok => ?_⟩, by simpa using hlength⟩
      · simpa [Round.posted] using hposted
      · rcases pre with _ | ⟨first, pre⟩
        · obtain ⟨rfl, -⟩ := cons.inj hsplit
          exact hfirst
        · obtain ⟨rfl, htail⟩ := cons.inj hsplit
          have hround := hwindows pre round post htail
          rw [append_assoc acked] at hround
          rw [length_cons, Nat.add_comm pre.length 1, ← Nat.add_assoc]
          exact hround
      · obtain ⟨pre, round, hrounds, hall⟩ := hend hok
        exact ⟨_ :: pre, round, by rw [hrounds]; rfl, hall⟩

theorem limitSlices_spec {batch : List α × List Blob} (hlength : items.length = marshaled.length)
    (hbatch : limitSlices maxBytes items marshaled = .ok batch) :
    batch.1 ≠ [] ∧ batch.1 <+: items ∧ Aligned marshaled 0 batch.1.length batch.2 ∧
      blobsSize batch.2 ≤ maxBytes := by
  unfold limitSlices at hbatch
  rcases hpairs : limitBatchBySize maxBytes (items.zip marshaled) with e | pairs
  · rw [hpairs] at hbatch
    cases hbatch
  rw [hpairs] at hbatch
  obtain rfl := ok.inj hbatch
  obtain ⟨hne, htake, hsize⟩ := limitBatchBySize_spec hpairs
  have hle : pairs.length ≤ items.length := by
    have hlen := congrArg List.length htake
    rw [length_take, length_zip] at hlen
    omega
  have hcut : (items.take pairs.length).length = pairs.length := by
    rw [length_take, min_eq_left hle]
  have hblobs : pairs.map Prod.snd = marshaled.take pairs.length := by
    conv_lhs => rw [htake]
    rw [map_take, map_snd_zip hlength.ge]
  refine ⟨ne_nil_of_length_pos (hcut ▸ length_pos_iff.mpr hne), take_prefix _ _, ?_, ?_⟩
  · unfold Aligned
    rw [hcut, drop_zero]
  · show ((marshaled.take pairs.length).map List.length).sum ≤ maxBytes
    rw [← hblobs, map_map]
    exact hsize

end

end DaSubmitter

open DaSubmitter in
/-- For every list of items with their marshalled forms, size limit, retry budget and replies that
acknowledge no more than was sent: what is handed to `postSubmit` is a front part of the items. The
`i`-th call carries the marshalled forms of the items right after those acknowledged so far, within
the limit, and goes by the `i`-th reply of DA to them. A submission that returns nil has
acknowledged all of its last window, and the budget bounds the calls. -/
theorem submission_window_correct {α : Type} (items : List α) (marshaled : List Blob)
    (hne : items ≠ []) (hlength : items.length = marshaled.length) (maxBytes maxAttempts : ℕ)
    (attempts : ℕ → List Blob → Except SubmitError ResultSubmit)
    (s : Submission α) (hs : s = submitToDA maxBytes maxAttempts attempts items marshaled)
    (hcounts : ∀ round ∈ s.rounds, round.reply.submittedCount ≤ round.items.length) :
    s.rounds.flatMap Round.posted <+: items ∧
      (∀ pre round post, s.rounds = pre ++ round :: post →
        let start := (pre.flatMap Round.posted).length
        round.items ≠ [] ∧ pre.flatMap Round.posted ++ round.items <+: items ∧
        round.blobs = (marshaled.drop start).take round.items.length ∧
        (round.blobs.map List.length).sum ≤ maxBytes ∧
        attempts pre.length round.blobs = .ok round.reply) ∧
      (s.result = .ok () → s.rounds.flatMap Round.posted ≠ [] ∧
        ∃ pre round, s.rounds = pre ++ [round] ∧ round.posted = round.items) ∧
      s.rounds.length ≤ maxAttempts := by
  unfold submitToDA at hs
  have hlen : marshaled.length ≠ 0 := hlength ▸ (length_pos_iff.mpr hne).ne'
  rw [if_neg (not_not.mpr hlength), if_neg hlen] at hs
  rcases hbatch : limitSlices maxBytes items marshaled with e | batch
  · rw [hbatch] at hs
    subst hs
    exact ⟨ nil_prefix, by simp, by simp, Nat.zero_le _⟩
  rw [hbatch] at hs
  subst hs
  obtain ⟨hbatch_ne, hprefix, haligned, hsize⟩ := limitSlices_spec hlength hbatch
  obtain ⟨⟨hposted, hwindows, hdone⟩, hcalls⟩ :=
    submitLoop_goesThrough maxAttempts 0 [] hbatch_ne hprefix haligned hsize hcounts
  refine ⟨hposted, fun pre round post hsplit => ?_, fun hok => ?_, hcalls⟩
  · have hround := hwindows pre round post hsplit
    rw [Nat.zero_add] at hround
    exact hround
  obtain ⟨pre, round, hrounds, hall⟩ := hdone hok
  refine ⟨fun hnil => ?_, pre, round, hrounds, hall⟩
  refine (hwindows pre round [] hrounds).1 ?_
  rw [← hall]
  exact flatMap_eq_nil_iff.mp hnil round (by rw [hrounds]; simp)

/-- Three items, of which DA takes one, finds two too big, and takes one more: the second call
carries the last two blobs and is told so, the third carries the second blob alone. -/
theorem submission_window_correct_of_three :
    let attempts : ℕ → List Blob → Except SubmitError ResultSubmit := fun i _ =>
      .ok (if i = 1 then ⟨.tooBig, 0, 0⟩ else ⟨.success, 1, 9⟩)
    let s := DaSubmitter.submitToDA 10 5 attempts [1, 2, 3] [[1], [2], [3]]
    s.result = .ok () ∧
      s.rounds.map DaSubmitter.Round.blobs = [[[1], [2], [3]], [[2], [3]], [[2]]] ∧
      s.rounds.flatMap DaSubmitter.Round.posted = [1, 2] ∧
      s.rounds.flatMap DaSubmitter.Round.posted <+: [1, 2, 3] := by
  intro attempts s
  exact ⟨rfl, rfl, rfl, (submission_window_correct (α := ℕ) [1, 2, 3] [[1], [2], [3]] (by simp)
    rfl 10 5 attempts s rfl (by decide)).1⟩

end ChainSdk

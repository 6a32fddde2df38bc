/-
DA failures and the forced transactions of an epoch.

When a DA height of an epoch cannot be read, the retriever does not fail: it answers with an empty
event for the height it was asked about, and notes in a comment that the caller will retry.
-/
import ChainSdk.SequencerOrder

namespace ChainSdk

open BasedSequencer Except ForcedInclusionRetriever Option Sequencer

/-! ## What is asked of one call -/

/-- The last fetch: where it was made and whether it read every height of the epoch. -/
structure FetchRecord where
  daHeight : ℕ
  complete : Bool
  deriving DecidableEq

namespace EpochReader

section

variable (p : EpochReader)

/-- The fetch a call makes, if it makes one. -/
def fetchRecord (env : RetrieveEnv) : Option FetchRecord :=
  if p.needsFetch then
    some ⟨p.checkpoint.daHeight, (p.fiRetriever.heights p.checkpoint.daHeight).all
      (fun h => (p.fiRetriever.blockAt env p.checkpoint.daHeight h).isSome)⟩
  else none

def ReadsEpoch : Prop :=
  p.needsFetch = true ∧ p.fiRetriever.client.hasForcedNamespace = true ∧
    p.fiRetriever.daStartHeight ≤ p.checkpoint.daHeight ∧
    p.checkpoint.daHeight = p.fiRetriever.lastHeight p.checkpoint.daHeight

/-- A failure skips no forced transactions: a call moves the checkpoint past an epoch only if its
fetch, `lastFetch`, read the epoch completely, and after a height that could not be read it stays
and the next call fetches again. -/
def FailureSafe (p p' : EpochReader) (env : RetrieveEnv) (lastFetch : Option FetchRecord) :
    Prop :=
  (∀ e, p.fiRetriever.daStartHeight ≤ e → e = p.fiRetriever.lastHeight e →
      p.checkpoint.daHeight ≤ e → e < p'.checkpoint.daHeight →
      lastFetch = some ⟨e, true⟩) ∧
    (p.ReadsEpoch → (∃ h ∈ p.fiRetriever.heights p.checkpoint.daHeight,
        p.fiRetriever.blockAt env p.checkpoint.daHeight h = none) →
      p'.checkpoint.daHeight = p.checkpoint.daHeight ∧ p'.needsFetch = true)

/-- The call reads an epoch in which some height is answered with an error status, and no
height is still to come. -/
def SilentFailure (env : RetrieveEnv) : Prop :=
  p.ReadsEpoch ∧
    (∃ h ∈ p.fiRetriever.heights p.checkpoint.daHeight,
      p.fiRetriever.FailedAt env p.checkpoint.daHeight h) ∧
    ∀ h ∈ p.fiRetriever.heights p.checkpoint.daHeight,
      ¬ p.fiRetriever.FutureAt env p.checkpoint.daHeight h

end

/-- The sequencer is not told a height above its checkpoint, and a cached epoch comes from
a complete fetch at the checkpoint and is not finished. -/
structure Traced (p : EpochReader) (lastFetch : Option FetchRecord) : Prop where
  daHeight_le : p.daHeight ≤ p.checkpoint.daHeight
  cached_unfinished : p.epochTxs ≠ [] → p.checkpoint.txIndex < p.epochTxs.length
  cached_complete : p.epochTxs ≠ [] → lastFetch = some ⟨p.checkpoint.daHeight, true⟩

/-! ## What a fetch says about the heights it read -/

section

variable {maxBytes : ℕ} {env : RetrieveEnv} {p p' : EpochReader} {taken : List Tx}
  {lastFetch : Option FetchRecord}

theorem retrieve_txs_complete {r : ForcedInclusionRetriever} {d : ℕ}
    {event : ForcedInclusionEvent} (hres : (r.retrieveForcedIncludedTxs env d).1 = .ok event)
    (htxs : event.txs ≠ []) :
    (r.heights d).all (fun h => (r.blockAt env d h).isSome) = true := by
  obtain ⟨hns, hd⟩ := retrieve_ok_guard hres
  by_cases hend : d = r.lastHeight d
  · have hnow := retrieve_ok_no_future hend hres
    rw [List.all_eq_true]
    intro h hh
    -- a failed height would have emptied the event
    refine blockAt_isSome.mpr ⟨hnow h hh, fun hfail => htxs ?_⟩
    obtain ⟨timestamp, hempty⟩ :=
      retrieve_of_failed hns hd hend hnow ⟨h, hh, hfail⟩
    rw [ok.inj (hres.symm.trans hempty)]
  · rw [retrieve_of_ne_end hns hd hend] at hres
    exact absurd (by rw [← ok.inj hres]) htxs

theorem complete_of_not_silent {event : ForcedInclusionEvent} (hreads : p.ReadsEpoch)
    (hres : (p.fiRetriever.retrieveForcedIncludedTxs env p.checkpoint.daHeight).1 = .ok event)
    (hloud : ¬ p.SilentFailure env) :
    ∀ h ∈ p.fiRetriever.heights p.checkpoint.daHeight,
      (p.fiRetriever.blockAt env p.checkpoint.daHeight h).isSome := by
  have hnow := retrieve_ok_no_future hreads.2.2.2 hres
  intro h hh
  refine blockAt_isSome.mpr ⟨hnow h hh, fun hfail => hloud ?_⟩
  exact ⟨hreads, ⟨h, hh, hfail⟩, hnow⟩

/-! ## One call -/

theorem fetchRecord_of_cached (hneeds : p.needsFetch = false) : p.fetchRecord env = none :=
  if_neg (by simp [hneeds])

theorem fetchRecord_of_complete (hneeds : p.needsFetch = true)
    (hall : (p.fiRetriever.heights p.checkpoint.daHeight).all
      (fun h => (p.fiRetriever.blockAt env p.checkpoint.daHeight h).isSome) = true) :
    p.fetchRecord env = some ⟨p.checkpoint.daHeight, true⟩ := by
  rw [fetchRecord, if_pos hneeds, hall]

theorem Traced.epochTxs_of_needsFetch (h : p.Traced lastFetch) (hneeds : p.needsFetch = true) :
    p.epochTxs = [] := by
  by_contra hne
  have hlt := h.cached_unfinished hne
  simp only [needsFetch, decide_eq_true_eq] at hneeds
  omega

theorem Traced.epochTxs_of_served (hneeds : p.needsFetch = false)
    (hact : 0 < p.daHeight ∨ 0 < p.remaining.length) : p.epochTxs ≠ [] := by
  intro hnil
  have hrem : p.remaining = [] := by
    unfold remaining
    rw [hnil, if_neg (by simp)]
  rw [hrem, List.length_nil] at hact
  simp only [needsFetch, hnil, decide_eq_false_iff_not] at hneeds
  exact hneeds ⟨by omega, .inl rfl⟩

section

variable (h : p.Traced lastFetch) (hstep : Step maxBytes env p p' taken)
include h hstep

theorem Traced.step :
    p'.Traced ((p.fetchRecord env).or lastFetch) := by
  cases hstep with
  | idle hneeds hnone =>
    rw [fetchRecord_of_cached hneeds]
    exact h
  | notFetched e hneeds hres =>
    have hnil := h.epochTxs_of_needsFetch hneeds
    exact ⟨h.daHeight_le, fun hne => absurd hnil hne, fun hne => absurd hnil hne⟩
  | notConfigured hneeds hres =>
    exact ⟨h.daHeight_le, fun hne => absurd rfl hne, fun hne => absurd rfl hne⟩
  | fetchedNothing _ event hneeds hres htake hzero hnone =>
    -- a fetch at height 0 needs a positive DA height, which is not above the checkpoint
    have hend := retrieve_endDaHeight hres
    have hle := h.daHeight_le
    simp only [needsFetch, decide_eq_true_eq] at hneeds
    omega
  | fetched p₁ event n hneeds hres htake hact hn =>
    unfold advance
    split_ifs with hdone
    · exact ⟨le_rfl, fun hne => absurd rfl hne, fun hne => absurd rfl hne⟩
    refine ⟨?_, fun _ => by simpa using hdone, fun hne => ?_⟩
    · rw [htake]
      exact h.daHeight_le
    · have htxs : event.txs ≠ [] := by
        intro hnil
        rw [htake, takeEpoch, hnil] at hne
        exact hne rfl
      rw [fetchRecord_of_complete hneeds (retrieve_txs_complete hres htxs), htake]
      rfl
  | served n hneeds hact hn =>
    rw [fetchRecord_of_cached hneeds]
    unfold advance
    split_ifs with hdone
    · exact ⟨le_rfl, fun hne => absurd rfl hne, fun hne => absurd rfl hne⟩
    · exact ⟨h.daHeight_le, fun _ => by simpa using hdone, fun hne => h.cached_complete hne⟩

theorem checkpoint_of_silent (hsilent : p.SilentFailure env) :
    p'.checkpoint.daHeight = p.checkpoint.daHeight + 1 := by
  obtain ⟨⟨hneeds, hns, hd, hend⟩, hfail, hnow⟩ := hsilent
  obtain ⟨timestamp, hempty⟩ :=
    retrieve_of_failed hns hd hend hnow hfail
  cases hstep with
  | idle hno hnone | served n hno hact hn =>
    rw [hno] at hneeds
    cases hneeds
  | notFetched e _ hres | notConfigured _ hres =>
    rw [hempty] at hres
    cases hres
  | fetchedNothing _ event _ hres htake hzero hnone =>
    have hat := retrieve_endDaHeight hres
    have hle := h.daHeight_le
    simp only [needsFetch, decide_eq_true_eq] at hneeds
    omega
  | fetched p₁ event n _ hres htake hact hn =>
    obtain rfl := ok.inj (hres.symm.trans hempty)
    have hnil : p₁.epochTxs = [] := by rw [htake]; rfl
    unfold advance
    rw [if_pos (by rw [hnil]; exact Nat.zero_le _)]

theorem Traced.failureSafe_iff :
    p.FailureSafe p' env ((p.fetchRecord env).or lastFetch) ↔ ¬ p.SilentFailure env := by
  constructor
  · rintro ⟨-, hstays⟩ hsilent
    -- a silent failure moves the checkpoint although a height has not been read
    have hmoved := checkpoint_of_silent h hstep hsilent
    obtain ⟨hreads, ⟨k, hk, hfail⟩, -⟩ := hsilent
    have hnone : p.fiRetriever.blockAt env p.checkpoint.daHeight k = none := by
      rw [← not_isSome_iff_eq_none, blockAt_isSome]
      exact fun hboth => hboth.2 hfail
    have hsame := (hstays hreads ⟨k, hk, hnone⟩).1
    omega
  · intro hloud
    cases hstep with
    | idle hneeds hnone =>
      refine ⟨fun e _ _ hle hlt => by omega, fun hreads => ?_⟩
      rw [hreads.1] at hneeds
      cases hneeds
    | notFetched e hneeds hres =>
      exact ⟨fun e _ _ hle hlt => absurd hlt (Nat.not_lt.mpr hle), fun _ _ => ⟨rfl, hneeds⟩⟩
    | notConfigured hneeds hres =>
      refine ⟨fun e _ _ hle hlt => absurd hlt (Nat.not_lt.mpr hle), fun _ _ => ⟨rfl, ?_⟩⟩
      simp only [needsFetch, decide_eq_true_eq] at hneeds ⊢
      exact ⟨hneeds.1, .inl rfl⟩
    | fetchedNothing _ event hneeds hres htake hzero hnone =>
      have hend := retrieve_endDaHeight hres
      have hle := h.daHeight_le
      simp only [needsFetch, decide_eq_true_eq] at hneeds
      omega
    | fetched p₁ event n hneeds hres htake hact hn =>
      have hend := retrieve_endDaHeight hres
      obtain ⟨hns, hd⟩ := retrieve_ok_guard hres
      have hcp : p₁.checkpoint = p.checkpoint := by rw [htake]; rfl
      refine ⟨fun e _ he hle hlt => ?_, fun hreads hmissing => ?_⟩
      · -- the checkpoint moves by one height at most, so the epoch ends where it stands
        have hnext : (p₁.advance event.endDaHeight n).checkpoint.daHeight ≤
            p.checkpoint.daHeight + 1 := by
          unfold advance
          split_ifs
          · exact hend ▸ le_rfl
          · exact hcp ▸ Nat.le_succ _
        obtain rfl : e = p.checkpoint.daHeight := by omega
        have hall := complete_of_not_silent ⟨hneeds, hns, hd, he⟩ hres hloud
        rw [fetchRecord_of_complete hneeds (List.all_eq_true.mpr hall), some_or]
      · obtain ⟨k, hk, hnone⟩ := hmissing
        have hsome := complete_of_not_silent hreads hres hloud k hk
        rw [hnone] at hsome
        cases hsome
    | served n hneeds hact hn =>
      refine ⟨fun e _ he hle hlt => ?_, fun hreads => ?_⟩
      · have hbelow := h.daHeight_le
        have hnext : (p.advance p.daHeight n).checkpoint.daHeight ≤
            p.checkpoint.daHeight + 1 := by
          unfold advance
          split_ifs
          · exact Nat.succ_le_succ hbelow
          · exact Nat.le_succ _
        obtain rfl : e = p.checkpoint.daHeight := by omega
        rw [fetchRecord_of_cached hneeds]
        exact h.cached_complete (Traced.epochTxs_of_served hneeds hact)
      · rw [hreads.1] at hneeds
        cases hneeds

end

end

end EpochReader

/-! ## Runs of the two sequencers -/

namespace Sequencer

def callRecord (s : Sequencer) : SequencerCall → Option FetchRecord
  | .getNextBatch req env =>
    if s.id ≠ req.id then none
    else s.bootstrap.toEpochReader.fetchRecord env.retrieval
  | .submitBatchTxs _ _ _ => none

variable (t : Sequencer × Option FetchRecord)

def tracedCall (c : SequencerCall) : Sequencer × Option FetchRecord :=
  (t.1.call c, (t.1.callRecord c).or t.2)

theorem bootstrap_of_le {s : Sequencer} (h : s.daHeight ≤ s.checkpoint.daHeight) :
    s.bootstrap = s := by
  unfold bootstrap
  rw [if_neg (by omega)]

theorem tracedCall_traced (c : SequencerCall) (h : t.1.toEpochReader.Traced t.2) :
    (tracedCall t c).1.toEpochReader.Traced (tracedCall t c).2 := by
  cases c with
  | submitBatchTxs id batch written =>
    simp only [tracedCall, call]
    rw [submitBatchTxs_toEpochReader]
    exact h
  | getNextBatch req env =>
    by_cases hid : t.1.id = req.id
    · have hstep := t.1.getNextBatch_step req env hid
      simp only [tracedCall, callRecord, hid, ne_eq]
      rw [bootstrap_of_le h.daHeight_le] at hstep ⊢
      exact h.step hstep
    · simp only [tracedCall, call, callRecord, getNextBatch, hid, ne_eq, not_false_eq_true,
        if_true, none_or]
      exact h

end Sequencer

namespace BasedSequencer

variable (t : BasedSequencer × Option FetchRecord)

def tracedCall (c : GetNextBatchRequest × CallEnv) : BasedSequencer × Option FetchRecord :=
  ((t.1.getNextBatch c.1 c.2).2, (t.1.toEpochReader.fetchRecord c.2.retrieval).or t.2)

theorem tracedCall_traced (c : GetNextBatchRequest × CallEnv) (h : t.1.toEpochReader.Traced t.2) :
    (tracedCall t c).1.toEpochReader.Traced (tracedCall t c).2 :=
  h.step (t.1.getNextBatch_step c.1 c.2)

end BasedSequencer

/-- A DA retrieval failure skips no forced transactions, except silently. In every run of a
new sequencer of either kind, over any replies whatsoever, a call that the
sequencer accepts is `FailureSafe` exactly when it does not read an epoch in which some
height is answered with an error status and no height is still to come. -/
theorem da_failure_safe_iff_not_silent (genesis : Genesis) (client : Client) :
    (∀ (id : Bytes) (maxQueueSize : ℕ) (db : SequencerDb) (calls : List SequencerCall),
      let s := Sequencer.new genesis client id maxQueueSize db
      s.daHeight ≤ s.checkpoint.daHeight →
        ∀ t req env, (t, .getNextBatch req env) ∈ Runs.steps Sequencer.tracedCall (s, none) calls →
          t.1.id = req.id →
          (t.1.toEpochReader.FailureSafe (t.1.getNextBatch req env).2.toEpochReader
              env.retrieval (Sequencer.tracedCall t (.getNextBatch req env)).2 ↔
            ¬ t.1.toEpochReader.SilentFailure env.retrieval)) ∧
      (∀ (saved : Option Checkpoint) (lastState : Option StoredState)
        (calls : List (GetNextBatchRequest × CallEnv)),
        let s := BasedSequencer.new genesis client saved lastState
        s.daHeight ≤ s.checkpoint.daHeight →
          ∀ t req env, (t, req, env) ∈ Runs.steps BasedSequencer.tracedCall (s, none) calls →
            (t.1.toEpochReader.FailureSafe (t.1.getNextBatch req env).2.toEpochReader
                env.retrieval (tracedCall t (req, env)).2 ↔
              ¬ t.1.toEpochReader.SilentFailure env.retrieval)) := by
  constructor
  · intro id maxQueueSize db calls s hle t req env hmem hid
    have hnew : s.toEpochReader.Traced none :=
      ⟨hle, fun hne => absurd rfl hne, fun hne => absurd rfl hne⟩
    have ht : t.1.toEpochReader.Traced t.2 :=
      Runs.steps_invariant Sequencer.tracedCall (fun t => t.1.toEpochReader.Traced t.2)
        (fun _ _ => True) (fun t c h _ => tracedCall_traced t c h) hnew
        (fun _ _ => trivial) _ hmem
    have hstep := t.1.getNextBatch_step req env hid
    rw [bootstrap_of_le ht.daHeight_le] at hstep
    have hiff := ht.failureSafe_iff hstep
    simp only [Sequencer.tracedCall, Sequencer.callRecord, hid, ne_eq, not_true_eq_false, if_false]
    rw [bootstrap_of_le ht.daHeight_le]
    exact hiff
  · intro saved lastState calls s hle t req env hmem
    have hnew : s.toEpochReader.Traced none :=
      ⟨hle, fun hne => absurd rfl hne, fun hne => absurd rfl hne⟩
    have ht : t.1.toEpochReader.Traced t.2 :=
      Runs.steps_invariant BasedSequencer.tracedCall (fun t => t.1.toEpochReader.Traced t.2)
        (fun _ _ => True) (fun t c h _ => tracedCall_traced t c h) hnew
        (fun _ _ => trivial) _ hmem
    exact ht.failureSafe_iff (t.1.getNextBatch_step req env)

def failingReply (h : ℕ) : ResultRetrieve :=
  if h = 1 then ⟨.error, "unavailable", 0, []⟩ else repliesUpTo sampleDa 2 h

def failingEnv : CallEnv := sampleEnv failingReply

def SampleSafe (env : CallEnv) : Prop :=
  sampleSequencer.toEpochReader.FailureSafe
    (sampleSequencer.getNextBatch sampleRequest env).2.toEpochReader env.retrieval
    (tracedCall (sampleSequencer, none) (.getNextBatch sampleRequest env)).2

def SampleBasedSafe (env : CallEnv) : Prop :=
  sampleBasedSequencer.toEpochReader.FailureSafe
    (sampleBasedSequencer.getNextBatch sampleRequest env).2.toEpochReader env.retrieval
    (tracedCall (sampleBasedSequencer, none) (sampleRequest, env)).2

/-- On the small chain: DA height 1 cannot be read, and both sequencers move their
checkpoint to height 2, past the forced transaction `[1]`. -/
theorem da_failure_skips_epoch :
    (sampleSequencer.getNextBatch sampleRequest failingEnv).2.checkpoint = ⟨2, 0⟩ ∧
      sampleSequencer.forcedConsumed sampleRequest failingEnv = [] ∧
      ¬ SampleSafe failingEnv ∧
      (sampleBasedSequencer.getNextBatch sampleRequest failingEnv).2.checkpoint = ⟨2, 0⟩ ∧
      ¬ SampleBasedSafe failingEnv := by
  refine ⟨by decide, by decide, ?_, by decide, ?_⟩
  · intro hsafe
    exact absurd (hsafe.1 1 (by decide) (by decide) (by decide) (by decide)) (by decide)
  · intro hsafe
    exact absurd (hsafe.1 1 (by decide) (by decide) (by decide) (by decide)) (by decide)

theorem da_failure_safe_on_sample : SampleSafe openEnv ∧ SampleBasedSafe openEnv := by
  obtain ⟨hsingle, hbased⟩ := da_failure_safe_iff_not_silent sampleGenesis sampleClient
  refine ⟨(hsingle [5] 0 sampleDb [.getNextBatch sampleRequest openEnv] (by decide)
    (sampleSequencer, none) sampleRequest openEnv (by simp [sampleSequencer]) rfl).mpr ?_,
    (hbased none none [(sampleRequest, openEnv)] (by decide) (sampleBasedSequencer, none)
      sampleRequest openEnv (by simp [sampleBasedSequencer])).mpr ?_⟩
  · rintro ⟨-, ⟨h, hh, hfail⟩, -⟩
    revert hfail
    revert h
    decide
  · rintro ⟨-, ⟨h, hh, hfail⟩, -⟩
    revert hfail
    revert h
    decide

end ChainSdk

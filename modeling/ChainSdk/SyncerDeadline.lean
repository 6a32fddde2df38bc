/-
A proposer who misses a deadline and the forced-inclusion check.

The first block posted after the grace boundary of an epoch should expose every forced transaction
of the epoch that is in no block up to the boundary.
-/
import ChainSdk.SyncerSoundness

namespace ChainSdk

open List Syncer

/-- The filter marks every forced transaction OK. -/
def TxFilter.AcceptsForced (f : TxFilter) : Prop :=
  ∀ txs maxBytes maxGas, f.filterTxs txs maxBytes maxGas true =
    .ok (txs.map fun _ => .filterOK)

/-- A block from DA whose check can retrieve every epoch and filter it. -/
structure SyncEvent.FromDa (da : ℕ → List Blob) (ev : SyncEvent) : Prop where
  validated : ev.validated = true
  source : ev.source = .sourceDA
  truthful : ev.env.Truthful da
  succeeds : ev.env.Succeeds
  accepts : ev.env.filter.AcceptsForced

namespace Syncer

variable {da : ℕ → List Blob} {genesis : Genesis} {codec : Codec} {client : Client}

section

variable {env : VerifyEnv} {hist : List PostedBlock} {s : Syncer} {daHeight k : ℕ} {data : Data}
  {tx : Tx}

theorem accepted_all (txs : List Tx) : accepted txs (txs.map fun _ => .filterOK) = txs := by
  unfold accepted
  induction txs with
  | nil => rfl
  | cons tx txs ih =>
    rw [map_cons, zip_cons_cons, filter_cons, if_pos (decide_eq_true rfl),
      map_cons, ih]

theorem LooksUp.eq_of_accepts {maxGas : ℕ} {txs looked : List Tx}
    (hlooks : LooksUp env maxGas txs looked) (haccepts : env.filter.AcceptsForced) :
    looked = txs := by
  rcases hlooks with ⟨rfl, rfl⟩ | ⟨statuses, hfilter, rfl⟩
  · rfl
  · rw [haccepts] at hfilter
    rw [← Except.ok.inj hfilter]
    exact accepted_all txs

/-! ## Before the deadline -/

theorem SyncerInv.verify_startEpochEnd_le (hset : ForcedInclusionSetting da genesis codec client)
    (hinv : SyncerInv da genesis codec client hist s) (henv : env.Truthful da)
    (hbefore : s.startEpochEnd ≤ epochEndAt genesis k)
    (hintime : daHeight ≤ graceBoundary genesis.daEpochForcedInclusion
      (notedBytes (hist ++ [⟨daHeight, data.txs⟩])) (epochEndAt genesis k)) :
    (s.verifyForcedInclusionTxs env daHeight data).syncer.startEpochEnd ≤
      epochEndAt genesis k := by
  have hsize := hset.epochSize_pos
  rcases hinv.verify_cases hset henv daHeight data with
    ⟨heq, -⟩ | ⟨info, r, res, -, hr, -, -, hres, heq⟩
  · rw [heq]
    exact hbefore
  rw [heq]
  obtain ⟨j, hstart, hscan⟩ := (hinv.record daHeight data.txs).scan hsize hr
  have hjk : j ≤ k := (epochEndAt_strictMono hsize).le_iff_le.mp (hstart.ge.trans hbefore)
  -- the loop never goes round at epoch `k`, so it stays at or before it
  refine Loops.iterate_invariant (checkEpoch env info.maxGas daHeight)
    (fun scan => ∃ j ≤ k, ScanInv da genesis codec client
      (hist ++ [⟨daHeight, data.txs⟩]) j scan)
    (fun res => res.syncer.startEpochEnd ≤ epochEndAt genesis k) ?_ ?_ ⟨j, hjk, hscan⟩ hres
  · rintro scan scan' ⟨j, hjk, hj⟩ hround
    obtain ⟨hboundary, -⟩ := checkEpoch_next hround
    rw [hj.boundary_eq hsize] at hboundary
    have hne : j ≠ k := by
      rintro rfl
      omega
    exact ⟨j + 1, by omega, hj.next hset henv hround⟩
  · rintro scan res ⟨j, hjk, hj⟩ hround
    obtain ⟨hsyncer, -⟩ := checkEpoch_done hround
    rw [hsyncer]
    exact hj.cursor.startEpochEnd_le hj.genesis_eq hsize hjk

/-! ## At the first block after it -/

theorem Tracks.not_seen (htracks : Tracks hist s) (hsha : Function.Injective s.codec.sha256)
    (hmissing : ∀ b ∈ hist, tx ∉ b.txs) : s.hashTx tx ∉ s.seenBlockTxs := by
  intro hseen
  obtain ⟨b, hb, tx', htx', heq⟩ := htracks.posted_of_seen _ hseen
  obtain rfl : tx' = tx := hsha heq
  exact hmissing b hb htx'

/-- A check that can reach epoch `k`, and finds one of its transactions in no noted block,
accuses. -/
theorem SyncerInv.verify_accuses (hset : ForcedInclusionSetting da genesis codec client)
    (hinv : SyncerInv da genesis codec client hist s)
    (henv : env.Truthful da) (hsucc : env.Succeeds) (haccepts : env.filter.AcceptsForced)
    (hinfo : ∃ info, env.executionInfo = .ok info) (hheight : s.lastState.daHeight ≤ daHeight)
    (hbefore : s.startEpochEnd ≤ epochEndAt genesis k)
    (hlate : ∀ j ≤ k, graceBoundary genesis.daEpochForcedInclusion
      (notedBytes (hist ++ [⟨daHeight, data.txs⟩])) (epochEndAt genesis j) < daHeight)
    (hforced : tx ∈ epochTxs da genesis k)
    (hmissing : ∀ b ∈ hist ++ [⟨daHeight, data.txs⟩], tx ∉ b.txs) :
    ∃ n, (s.verifyForcedInclusionTxs env daHeight data).result =
      .error (.maliciousProposer n) := by
  have hsize := hset.epochSize_pos
  have hstarted : genesis.daStartHeight ≤ daHeight :=
    (start_le_epochEndAt hsize k).trans
      ((Nat.le_add_right _ _).trans (hlate k le_rfl).le)
  rcases hinv.verify_cases hset henv daHeight data with
    ⟨-, -, hearly⟩ | ⟨info, r, res, -, hr, -, -, hres, heq⟩
  · obtain ⟨info, hinfo⟩ := hinfo
    rcases hearly with hlt | hlt | ⟨e, herr⟩
    · omega
    · omega
    · simp [hinfo] at herr
  rw [heq]
  obtain ⟨j, hstart, hscan⟩ := (hinv.record daHeight data.txs).scan hsize hr
  have hjk : j ≤ k := (epochEndAt_strictMono hsize).le_iff_le.mp (hstart.ge.trans hbefore)
  suffices hcount : ∃ n, 0 < n ∧ res.verdict = .ok n by
    obtain ⟨n, hpos, hverdict⟩ := hcount
    exact (ScanResult.malicious_iff hverdict).mpr hpos
  -- the loop has not got past epoch `k`, or something has been counted
  refine Loops.iterate_invariant (checkEpoch env info.maxGas daHeight)
    (fun scan => ∃ j, ScanInv da genesis codec client (hist ++ [⟨daHeight, data.txs⟩]) j scan ∧
      (j ≤ k ∨ 0 < scan.maliciousCount))
    (fun res => ∃ n, 0 < n ∧ res.verdict = .ok n) ?_ ?_ ⟨j, hscan, .inl hjk⟩ hres
  · rintro scan scan' ⟨j, hj, hprogress⟩ hround
    refine ⟨j + 1, hj.next hset henv hround, ?_⟩
    obtain ⟨-, looked, hlooks, hcount, -⟩ := hj.next_looks hset henv
      (fun h _ _ => hsucc.answers _ h) hround
    rw [hcount]
    rcases hprogress with hle | hpos
    · by_cases hjk : j = k
      -- at epoch `k` the transaction is looked up and not found
      · subst hjk
        right
        rw [hlooks.eq_of_accepts haccepts]
        have hnot := hj.tracks.not_seen (by rw [hj.codec_eq]; exact hset.sha256_injective)
          hmissing
        have hmem : tx ∈ scan.syncer.unseen (epochTxs da genesis j) :=
          mem_filter.mpr ⟨hforced, decide_eq_true hnot⟩
        have hlen := length_pos_of_mem hmem
        omega
      · left
        omega
    · right
      omega
  · rintro scan res ⟨j, hj, hprogress⟩ hround
    rcases hj.done_verdict hset henv hsucc hround with ⟨hboundary, hverdict⟩ | ⟨-, -, e, herr, -⟩
    · rcases hprogress with hle | hpos
      · have hpassed := hlate j hle
        omega
      · exact ⟨_, hpos, hverdict⟩
    · rw [haccepts] at herr
      simp at herr

end

end Syncer

/-! ## Whole runs -/

theorem mem_daBlocks {events : List SyncEvent} {b : PostedBlock} :
    b ∈ daBlocks events ↔ ∃ ev ∈ events, ev.validated = true ∧ ev.source = .sourceDA ∧
      b = ⟨ev.daHeight, ev.data.txs⟩ := by
  unfold daBlocks SyncEvent.noted
  rw [mem_flatMap]
  constructor
  · rintro ⟨ev, hev, hb⟩
    split_ifs at hb with hboth
    · exact ⟨ev, hev, hboth.1, hboth.2, mem_singleton.mp hb⟩
    · exact absurd hb not_mem_nil
  · rintro ⟨ev, hev, hvalid, hsource, rfl⟩
    refine ⟨ev, hev, ?_⟩
    rw [if_pos ⟨hvalid, hsource⟩]
    exact mem_singleton.mpr rfl

section

variable {da : ℕ → List Blob} {genesis : Genesis} {codec : Codec} {client : Client}

theorem before_deadline (hset : ForcedInclusionSetting da genesis codec client) {s₀ : Syncer}
    (hinv₀ : SyncerInv da genesis codec client [] s₀) {events : List SyncEvent}
    (hfromDa : ∀ e ∈ events, e.FromDa da) (horder : InDaOrder events) {k : ℕ}
    (hcursor : s₀.startEpochEnd ≤ epochEndAt genesis k) (pre post : List SyncEvent)
    (hsplit : events = pre ++ post) (hintime : ∀ e ∈ pre, e.daHeight ≤ deadline genesis events k) :
    SyncerInv da genesis codec client (daBlocks pre) (pre.foldl step s₀) ∧
      (pre.foldl step s₀).startEpochEnd ≤ epochEndAt genesis k := by
  induction pre using List.reverseRecOn generalizing post with
  | nil => exact ⟨hinv₀, hcursor⟩
  | append_singleton pre ev ih =>
    obtain ⟨hinv, hbefore⟩ := ih (ev :: post) (by rw [hsplit, append_assoc]; rfl)
      (fun e he => hintime e (mem_append_left _ he))
    have hev : ev.FromDa da := hfromDa ev (by rw [hsplit]; simp)
    have hsplit' : events = pre ++ ev :: post := by rw [hsplit, append_assoc]; rfl
    rw [foldl_append, foldl_cons, daBlocks_append, daBlocks_cons]
    refine ⟨?_, ?_⟩
    · have hstep := hinv.step hset hev.truthful
      rwa [show daBlocks ([] : List SyncEvent) = [] from rfl, append_nil]
    · have hle : ev.daHeight ≤ graceBoundary genesis.daEpochForcedInclusion
          (notedBytes (daBlocks pre ++ [⟨ev.daHeight, ev.data.txs⟩]))
          (epochEndAt genesis k) := by
        -- above the epoch's end the deadline is settled; below it the event is in time anyway
        by_cases hended : epochEndAt genesis k < ev.daHeight
        · rw [hsplit'] at horder hintime
          rw [← deadline_eq horder hev.validated hev.source hset.epochSize_pos hended]
          exact hintime ev (by simp)
        · exact (Nat.not_lt.mp hended).trans (Nat.le_add_right _ _)
      have hverify := hinv.verify_startEpochEnd_le hset hev.truthful hbefore hle
      obtain ⟨state, heq⟩ := step_eq (s := pre.foldl step s₀) hev.validated
        hev.source
      rw [heq]
      exact hverify

theorem run_daHeight_le {s₀ : Syncer} {events : List SyncEvent} {bound : ℕ}
    (hstart : s₀.lastState.daHeight ≤ bound) (hbound : ∀ e ∈ events, e.daHeight ≤ bound) :
    (events.foldl step s₀).lastState.daHeight ≤ bound :=
  Runs.foldl_invariant step (fun s => s.lastState.daHeight ≤ bound)
    (fun _ e => e.daHeight ≤ bound)
    (fun s e hle he => (s.step_daHeight_le e).trans (max_le hle he)) hstart
    (Runs.steps_of_forall hbound)

end

/-- In a run of blocks from DA, let a forced transaction of epoch `k` be in no block posted
up to the epoch's deadline. The first block posted later makes the syncer accuse the
proposer, if that block does not contain the transaction, the deadlines of all earlier epochs
have passed too, the epoch is above the cursor of the start, and the execution client answers
at that check. -/
theorem missed_deadline_accused (da : ℕ → List Blob) (genesis : Genesis) (codec : Codec)
    (client : Client) (inp : StartInput) (s₀ : Syncer) (pre : List SyncEvent)
    (ev : SyncEvent) (k : ℕ) (tx : Tx) (hset : ForcedInclusionSetting da genesis codec client)
    (hstart : initializeState genesis codec client inp none = .ok s₀)
    (hfromDa : ∀ e ∈ pre ++ [ev], e.FromDa da) (horder : InDaOrder (pre ++ [ev]))
    (hforced : tx ∈ epochTxs da genesis k)
    (hmissed : ∀ b ∈ daBlocks (pre ++ [ev]), b.daHeight ≤ deadline genesis (pre ++ [ev]) k →
      tx ∉ b.txs) (hfirst : ∀ e ∈ pre, e.daHeight ≤ deadline genesis (pre ++ [ev]) k)
    (hlate : deadline genesis (pre ++ [ev]) k < ev.daHeight) (hwithout : tx ∉ ev.data.txs)
    (hearlier : ∀ j < k, deadline genesis (pre ++ [ev]) j < ev.daHeight)
    (hcursor : s₀.startEpochEnd ≤ epochEndAt genesis k)
    (hinfo : ∃ info, ev.env.executionInfo = .ok info) :
    (pre.foldl step s₀).Accuses ev := by
  obtain ⟨state, hload, rfl⟩ := initializeState_ok hstart
  have hev : ev.FromDa da := hfromDa ev (by simp)
  have hinv₀ : SyncerInv da genesis codec client []
      (ofState genesis codec client state) := SyncerInv.ofState state
  have hsplit : daBlocks (pre ++ [ev]) = daBlocks pre ++ [⟨ev.daHeight, ev.data.txs⟩] := by
    rw [daBlocks_split hev.validated hev.source]
    exact append_nil _
  obtain ⟨hinv, hbefore⟩ := before_deadline hset hinv₀ hfromDa horder hcursor pre [ev] rfl hfirst
  -- no block before this one is above it, so the check is not skipped
  have hgenesis : (ofState genesis codec client state).lastState.daHeight ≤
      ev.daHeight := by
    have hstate : state.daHeight = genesis.daStartHeight := by
      unfold loadState at hload
      rcases hinit : inp.initChain with e | root
      · simp [hinit] at hload
      · rw [hinit] at hload
        rw [← Except.ok.inj hload]
    have hle := start_le_epochEndAt hset.epochSize_pos k
    have hgrace : epochEndAt genesis k ≤ deadline genesis (pre ++ [ev]) k :=
      Nat.le_add_right _ _
    calc (ofState genesis codec client state).lastState.daHeight
        = genesis.daStartHeight := hstate
      _ ≤ ev.daHeight := by omega
  have hheight := run_daHeight_le hgenesis (fun e he => (hfirst e he).trans hlate.le)
  rw [accuses_iff hev.validated hev.source]
  refine hinv.verify_accuses hset hev.truthful hev.succeeds hev.accepts hinfo hheight hbefore
    (fun j hjk => ?_) hforced (fun b hb => ?_)
  · have hpassed : deadline genesis (pre ++ [ev]) j < ev.daHeight := by
      rcases hjk.lt_or_eq with hlt | rfl
      · exact hearlier j hlt
      · exact hlate
    unfold deadline at hpassed
    rwa [hsplit] at hpassed
  · rcases mem_append.mp hb with hold | hnew
    · obtain ⟨e, he, -, -, rfl⟩ := mem_daBlocks.mp hold
      exact hmissed _ (by rw [hsplit]; exact hb) (hfirst e he)
    · rw [mem_singleton.mp hnew]
      exact hwithout

/-! ## On the small chain -/

theorem daBlock_fromDa (da : ℕ → List Blob) (daHeight : ℕ) (txs : List Tx) :
    (daBlock da daHeight txs).FromDa da where
  validated := rfl
  source := rfl
  truthful := plainEnv_truthful da
  succeeds := fun _ _ => .inl rfl
  accepts := fun _ _ _ => rfl

/-- Epochs of one DA height, from height 1 on. -/
private def unitGenesis : Genesis := { smallGenesis with daEpochForcedInclusion := 1 }

/-- A start without a stored state counts the first epoch as checked. The transaction forced at
height 1 has its deadline at 2, is in no block, and the block at 3 is not accused. -/
theorem missed_deadline_unnoticed :
    ForcedInclusionSetting (forcedAt 1 [1]) unitGenesis plainCodec forcedClient ∧
      (daBlock (forcedAt 1 [1]) 3 []).FromDa (forcedAt 1 [1]) ∧
      [1] ∈ epochTxs (forcedAt 1 [1]) unitGenesis 0 ∧
      deadline unitGenesis [daBlock (forcedAt 1 [1]) 3 []] 0 = 2 ∧
      ∃ s, initializeState unitGenesis plainCodec forcedClient plainStart none = .ok s ∧
        s.lastCheckedEpochEnd = 1 ∧ ¬ s.Accuses (daBlock (forcedAt 1 [1]) 3 []) := by
  refine ⟨{ smallSetting 1 [1] (by decide) with epochSize_pos := by decide },
    daBlock_fromDa _ _ _, by decide, by decide, _, rfl, by decide, ?_⟩
  rintro ⟨n, hres⟩
  have hok : ((ofState unitGenesis plainCodec forcedClient
      smallSyncer.lastState).trySyncNextBlock (daBlock (forcedAt 1 [1]) 3 [])).1 = .ok () := by
    decide +kernel
  exact absurd (hok.symm.trans hres) (by simp)

/-- The second epoch ends at height 4 and has its deadline at 6. A block at 5 is in time, and the
first block after the deadline, at 7, is accused. -/
theorem missed_deadline_accused_on_small :
    let da := forcedAt 3 [1]
    deadline smallGenesis [daBlock da 5 [[2]], daBlock da 7 [[3]]] 1 = 6 ∧
      (smallSyncer.step (daBlock da 5 [[2]])).Accuses (daBlock da 7 [[3]]) := by
  refine ⟨by decide, missed_deadline_accused (forcedAt 3 [1]) smallGenesis plainCodec
    forcedClient plainStart smallSyncer [daBlock (forcedAt 3 [1]) 5 [[2]]]
    (daBlock (forcedAt 3 [1]) 7 [[3]]) 1 [1] (smallSetting 3 [1] (by decide)) rfl ?_
    (by unfold InDaOrder; decide) (by decide) (by decide) (by decide) (by decide) (by decide)
    (by decide) (by decide) ⟨_, rfl⟩⟩
  simp only [cons_append, nil_append, forall_mem_cons]
  exact ⟨daBlock_fromDa _ _ _, daBlock_fromDa _ _ _, by simp⟩

end ChainSdk

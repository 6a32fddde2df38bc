/-
What the forced-inclusion check has looked at when its cursor has moved on.

An epoch the cursor has passed should have been checked: each of its transactions that fits into a
block and that the filter does not remove has been looked up.
-/
import ChainSdk.SyncerDeadline

namespace ChainSdk

open List Syncer

/-! ## What is to be compared, and what is -/

/-- The transactions of an epoch that a check has to compare: those that fit into a block
and are not marked for removal. -/
def VerifyEnv.mustCompare (env : VerifyEnv) (txs : List Tx) : List Tx :=
  match env.executionInfo with
  | .error _ => txs.filter (fun tx => decide (tx.length ≤ defaultMaxBlobSize))
  | .ok info =>
    match env.filter.filterTxs txs defaultMaxBlobSize info.maxGas true with
    | .error _ => txs.filter (fun tx => decide (tx.length ≤ defaultMaxBlobSize))
    | .ok statuses => ((txs.zip statuses).filter (fun p =>
      decide (p.2 ≠ .filterRemove ∧ p.1.length ≤ defaultMaxBlobSize))).map Prod.fst

/-- Of these transactions the filter postpones none that fits into a block. -/
def VerifyEnv.PostponesNone (env : VerifyEnv) (txs : List Tx) : Prop :=
  ∀ info statuses, env.executionInfo = .ok info →
    env.filter.filterTxs txs defaultMaxBlobSize info.maxGas true = .ok statuses →
      ∀ p ∈ txs.zip statuses, p.2 = .filterPostpone → defaultMaxBlobSize < p.1.length

/-- No height of the epoch is answered with an error status, and none of its transactions that fit
into a block is postponed. -/
structure VerifyEnv.Compares (da : ℕ → List Blob) (genesis : Genesis) (env : VerifyEnv) (k : ℕ) :
    Prop where
  answers : ∀ h, epochStartAt genesis k ≤ h → h ≤ epochEndAt genesis k →
    (env.retrieval (epochEndAt genesis k)).AnswersAt h
  postpones : env.PostponesNone (epochTxs da genesis k)

/-- The epochs a check reads: from the cursor on, as long as the grace period is over. -/
def Syncer.Reads (s : Syncer) (daHeight : ℕ) (txs : List Tx) (k : ℕ) : Prop :=
  s.startEpochEnd ≤ epochEndAt s.genesis k ∧
    ∀ j ≤ k, s.startEpochEnd ≤ epochEndAt s.genesis j →
      graceBoundary s.genesis.daEpochForcedInclusion (s.record daHeight txs).daBlockBytes
        (epochEndAt s.genesis j) < daHeight

def Syncer.checks (s : Syncer) (ev : SyncEvent) : List (VerifyEnv × List Tx) :=
  if ev.validated = true ∧ ev.source = .sourceDA then
    [(ev.env, (s.verifyForcedInclusionTxs ev.env ev.daHeight ev.data).compared)]
  else []

/-- Some check has compared all it had to of epoch `k`. -/
def ComparedIn (da : ℕ → List Blob) (genesis : Genesis) (log : List (VerifyEnv × List Tx))
    (k : ℕ) : Prop :=
  ∃ check ∈ log, ∀ tx ∈ check.1.mustCompare (epochTxs da genesis k), tx ∈ check.2

theorem ComparedIn.append {da : ℕ → List Blob} {genesis : Genesis}
    {log : List (VerifyEnv × List Tx)} {k : ℕ} (hlog : ComparedIn da genesis log k)
    (more : List (VerifyEnv × List Tx)) : ComparedIn da genesis (log ++ more) k := by
  obtain ⟨check, hmem, hall⟩ := hlog
  exact ⟨check, mem_append_left _ hmem, hall⟩

theorem Syncer.LooksUp.mustCompare {env : VerifyEnv} {info : ExecutionInfo}
    {txs looked : List Tx} (hlooks : Syncer.LooksUp env info.maxGas txs looked)
    (hinfo : env.executionInfo = .ok info) (hpostpone : env.PostponesNone txs) :
    ∀ tx ∈ env.mustCompare txs, tx ∈ looked := by
  unfold VerifyEnv.mustCompare
  rw [hinfo]
  dsimp only
  rcases hlooks with ⟨rfl, rfl⟩ | ⟨statuses, hfilter, rfl⟩
  · intro tx htx
    split at htx
    · exact absurd htx not_mem_nil
    · exact absurd htx not_mem_nil
  · rw [hfilter]
    unfold accepted
    intro tx htx
    rw [mem_map] at htx ⊢
    obtain ⟨p, hp, heq⟩ := htx
    obtain ⟨hmem, hkept⟩ := mem_filter.mp hp
    obtain ⟨hnot, hfits⟩ := of_decide_eq_true hkept
    refine ⟨p, mem_filter.mpr ⟨hmem, decide_eq_true ?_⟩, heq⟩
    -- of the three statuses, removal is excluded and a postponed one does not fit
    rcases hstatus : p.2 with _ | _ | _
    · rfl
    · exact absurd hstatus hnot
    · have hlarge := hpostpone info statuses hinfo hfilter p hmem hstatus
      omega

/-! ## One check -/

namespace Syncer

variable {da : ℕ → List Blob} {genesis : Genesis} {codec : Codec} {client : Client}
  {hist : List PostedBlock} {log : List (VerifyEnv × List Tx)} {from₀ : ℕ}

/-- Every epoch between where the run began and where the check resumes has been compared. -/
def Covers (da : ℕ → List Blob) (genesis : Genesis) (from₀ : ℕ)
    (log : List (VerifyEnv × List Tx)) (s : Syncer) : Prop :=
  ∀ k, from₀ < epochEndAt genesis k → epochEndAt genesis k < s.startEpochEnd →
    ComparedIn da genesis log k

section

variable {s : Syncer} (hset : ForcedInclusionSetting da genesis codec client)
  (hinv : SyncerInv da genesis codec client hist s) (hcovers : Covers da genesis from₀ log s)
include hset hinv hcovers

theorem Covers.verify {env : VerifyEnv} (henv : env.Truthful da) {daHeight : ℕ} {data : Data}
    (hreads : ∀ k, s.Reads daHeight data.txs k → env.Compares da genesis k) :
    Covers da genesis from₀
      (log ++ [(env, (s.verifyForcedInclusionTxs env daHeight data).compared)])
      (s.verifyForcedInclusionTxs env daHeight data).syncer := by
  have hsize := hset.epochSize_pos
  rcases hinv.verify_cases hset henv daHeight data with
    ⟨heq, -⟩ | ⟨info, r, res, hinfo, hr, -, -, hres, heq⟩
  · rw [heq]
    intro k hfrom hbelow
    exact (hcovers k hfrom hbelow).append _
  rw [heq]
  obtain ⟨j, hstart, hscan⟩ := (hinv.record daHeight data.txs).scan hsize hr
  have hindex : ∀ {i}, s.startEpochEnd ≤ epochEndAt genesis i → j ≤ i := fun hle =>
    (epochEndAt_strictMono hsize).le_iff_le.mp (hstart.ge.trans hle)
  have hboundary : ∀ i, j ≤ i → graceBoundary genesis.daEpochForcedInclusion
      (s.record daHeight data.txs).daBlockBytes (epochEndAt genesis i) =
        graceBoundary genesis.daEpochForcedInclusion
          (notedBytes (hist ++ [⟨daHeight, data.txs⟩])) (epochEndAt genesis i) :=
    fun i hi => graceBoundary_congr hsize (fun h hge _ => hscan.tracks.bytes_eq h
      (hscan.cursor.unpruned hsize ((epochStartAt_mono genesis hi).trans hge)))
  -- the epochs before the loop's own are compared, before this check or in it, and those from the
  -- cursor on were due
  refine Loops.iterate_invariant (checkEpoch env info.maxGas daHeight)
    (fun scan => ∃ j, ScanInv da genesis codec client (hist ++ [⟨daHeight, data.txs⟩]) j scan ∧
      (∀ k < j, from₀ < epochEndAt genesis k → ComparedIn da genesis log k ∨
        ∀ tx ∈ env.mustCompare (epochTxs da genesis k), tx ∈ scan.compared) ∧
      s.startEpochEnd ≤ epochEndAt genesis j ∧
      ∀ i < j, s.startEpochEnd ≤ epochEndAt genesis i →
        graceBoundary genesis.daEpochForcedInclusion (s.record daHeight data.txs).daBlockBytes
          (epochEndAt genesis i) < daHeight)
    (fun res => Covers da genesis from₀ (log ++ [(env, res.compared)])
      { res.syncer with fiRetriever := some res.retriever }) ?_ ?_
    ⟨j, hscan, fun k hk hfrom => .inl (hcovers k hfrom ?_), hstart.le, fun i hi hfrom => ?_⟩ hres
  · rintro scan scan' ⟨i, hi, hbefore, hfrom', hdue⟩ hround
    obtain ⟨hover, -⟩ := checkEpoch_next hround
    rw [hi.boundary_eq hsize, ← hboundary i (hindex hfrom')] at hover
    have hdue' : ∀ i' < i + 1, s.startEpochEnd ≤ epochEndAt genesis i' →
        graceBoundary genesis.daEpochForcedInclusion (s.record daHeight data.txs).daBlockBytes
          (epochEndAt genesis i') < daHeight := by
      intro i' hi' hle
      rcases Nat.lt_succ_iff_lt_or_eq.mp hi' with hlt | rfl
      · exact hdue i' hlt hle
      · exact hover
    have hcompares : env.Compares da genesis i := by
      apply hreads i
      unfold Reads
      rw [hinv.genesis_eq]
      exact ⟨hfrom', fun j hji hle => hdue' j (Nat.lt_succ_of_le hji) hle⟩
    obtain ⟨-, looked, hlooks, -, hcompared⟩ := hi.next_looks hset henv hcompares.answers hround
    refine ⟨i + 1, hi.next hset henv hround, fun k hk hfrom => ?_,
      hfrom'.trans (epochEndAt_strictMono hsize (Nat.lt_succ_self i)).le, hdue'⟩
    rw [hcompared]
    rcases Nat.lt_succ_iff_lt_or_eq.mp hk with hlt | rfl
    · rcases hbefore k hlt hfrom with hold | hnow
      · exact .inl hold
      · exact .inr (fun tx htx => mem_append_left _ (hnow tx htx))
    · right
      exact fun tx htx =>
        mem_append_right _ (hlooks.mustCompare hinfo hcompares.postpones tx htx)
  · rintro scan res ⟨j, hj, hbefore, -⟩ hround k hfrom hbelow
    obtain ⟨hsyncer, hcompared, -⟩ := checkEpoch_done hround
    have hstart : scan.syncer.startEpochEnd ≤ epochEndAt genesis j :=
      hj.cursor.startEpochEnd_le hj.genesis_eq hsize le_rfl
    have hlt : epochEndAt genesis k < epochEndAt genesis j := by
      rw [hsyncer] at hbelow
      exact lt_of_lt_of_le hbelow hstart
    have hkj := (epochEndAt_strictMono hsize).lt_iff_lt.mp hlt
    rcases hbefore k hkj hfrom with hold | hnow
    · exact hold.append _
    · refine ⟨(env, res.compared), mem_append_right _ mem_cons_self, ?_⟩
      rw [hcompared]
      exact hnow
  · have hlt := (epochEndAt_strictMono hsize) hk
    rw [← hstart] at hlt
    exact hlt
  · exact absurd hi (Nat.not_lt.mpr (hindex hfrom))

theorem Covers.step {ev : SyncEvent} (henv : ev.env.Truthful da)
    (hreads : ev.validated = true → ev.source = .sourceDA →
      ∀ k, s.Reads ev.daHeight ev.data.txs k → ev.env.Compares da genesis k) :
    Covers da genesis from₀ (log ++ s.checks ev) (s.step ev) := by
  unfold checks
  by_cases hda : ev.validated = true ∧ ev.source = .sourceDA
  · rw [if_pos hda]
    have hverify := hcovers.verify hset hinv henv (hreads hda.1 hda.2)
    obtain ⟨state, heq⟩ := step_eq (s := s) hda.1 hda.2
    rw [heq]
    exact hverify
  · -- without a check the cursor stays where it is
    rw [if_neg hda, append_nil]
    have hcursor : (s.step ev).startEpochEnd = s.startEpochEnd := by
      unfold Syncer.step
      rcases s.trySyncNextBlock_unchecked hda with ⟨heq, -⟩ | heq
      · rw [heq]
      · rw [heq, applyEvent_eq]
        rfl
    intro k hfrom hbelow
    rw [hcursor] at hbelow
    exact hcovers k hfrom hbelow

end

end Syncer

/-! ## Whole runs -/

/-- In every run of checks, every epoch the cursor has moved past since the start was compared in
full by some check, if in the epochs a check reads no height is answered with an error status and no
transaction that fits into a block is postponed. -/
theorem passed_epochs_compared (da : ℕ → List Blob) (genesis : Genesis) (codec : Codec)
    (client : Client) (inp : StartInput) (stored : Option State) (s₀ : Syncer)
    (events : List SyncEvent) (hset : ForcedInclusionSetting da genesis codec client)
    (hstart : initializeState genesis codec client inp stored = .ok s₀)
    (henv : ∀ ev ∈ events, ev.env.Truthful da)
    (hreads : ∀ p ∈ Runs.steps step s₀ events, p.2.validated = true →
      p.2.source = .sourceDA → ∀ k, p.1.Reads p.2.daHeight p.2.data.txs k →
        p.2.env.Compares da genesis k) :
    ∀ k, s₀.lastCheckedEpochEnd < epochEndAt genesis k →
      epochEndAt genesis k ≤ (events.foldl step s₀).lastCheckedEpochEnd →
      ComparedIn da genesis (Runs.outputs step checks s₀ events).flatten k := by
  obtain ⟨state, -, rfl⟩ := initializeState_ok hstart
  have hinv₀ : SyncerInv da genesis codec client []
      (ofState genesis codec client state) := SyncerInv.ofState state
  -- at the start there is nothing to cover
  have hcovers₀ : Syncer.Covers da genesis
      (ofState genesis codec client state).lastCheckedEpochEnd []
      (ofState genesis codec client state) := by
    intro k hfrom hbelow
    have hle := hinv₀.no_end_between hset.epochSize_pos hfrom
    omega
  have hrun := Runs.history_invariant step checks
    (fun s log => (∃ hist, SyncerInv da genesis codec client hist s) ∧
      Syncer.Covers da genesis (ofState genesis codec client state).lastCheckedEpochEnd
        log s)
    (fun s ev => ev.env.Truthful da ∧ (ev.validated = true → ev.source = .sourceDA →
      ∀ k, s.Reads ev.daHeight ev.data.txs k → ev.env.Compares da genesis k))
    (fun s ev log hinv hev => by
      obtain ⟨⟨hist, hhist⟩, hcovers⟩ := hinv
      exact ⟨⟨_, hhist.step hset hev.1⟩, hcovers.step hset hhist hev.1 hev.2⟩)
    ⟨⟨[], hinv₀⟩, hcovers₀⟩
    (fun p hp => ⟨Runs.steps_of_forall henv p hp, hreads p hp⟩)
  obtain ⟨⟨hist, hhist⟩, hcovers⟩ := hrun
  intro k hfrom hreached
  exact hcovers k hfrom (hhist.end_lt_start hset.epochSize_pos (by omega) hreached)

/-! ## On the small chain -/

def failedBlock : SyncEvent :=
  { daBlock (forcedAt 1 [1]) 5 [] with
    env := { plainEnv (forcedAt 1 [1]) with
      retrieval := fun _ => ⟨fun h => ⟨if h = 1 then .error else .success, "", 0,
        forcedAt 1 [1] h⟩, fun _ => []⟩ } }

/-- The first epoch, with the transaction `[1]` forced at height 1, is passed without the
transaction having been compared with anything. -/
theorem passed_epoch_not_compared :
    ForcedInclusionSetting (forcedAt 1 [1]) smallGenesis plainCodec forcedClient ∧
      failedBlock.env.Truthful (forcedAt 1 [1]) ∧
      smallSyncer.lastCheckedEpochEnd < epochEndAt smallGenesis 0 ∧
      (smallSyncer.step failedBlock).lastCheckedEpochEnd = epochEndAt smallGenesis 0 ∧
      ¬ ComparedIn (forcedAt 1 [1]) smallGenesis
        (Runs.outputs step checks smallSyncer [failedBlock]).flatten 0 := by
  refine ⟨smallSetting 1 [1] (by decide), ?_, by decide, by decide +kernel, ?_⟩
  · refine fun e => ⟨fun h => ⟨fun _ => rfl, fun hcode => ?_⟩,
      fun h target result hmem => absurd hmem not_mem_nil⟩
    unfold failedBlock at hcode
    dsimp only at hcode
    split_ifs at hcode
  · unfold ComparedIn
    decide +kernel

theorem passed_epoch_compared_on_small :
    (smallSyncer.step (daBlock (forcedAt 1 [1]) 5 [])).lastCheckedEpochEnd = 2 ∧
      ComparedIn (forcedAt 1 [1]) smallGenesis
        (Runs.outputs step checks smallSyncer
          [daBlock (forcedAt 1 [1]) 5 []]).flatten 0 := by
  refine ⟨by decide +kernel, passed_epochs_compared (forcedAt 1 [1]) smallGenesis plainCodec
    forcedClient plainStart none smallSyncer [daBlock (forcedAt 1 [1]) 5 []]
    (smallSetting 1 [1] (by decide)) rfl ?_ ?_ 0 (by decide) (by decide +kernel)⟩
  · intro ev hev
    rw [mem_singleton.mp hev]
    exact plainEnv_truthful _
  · intro p hp _ _ k _
    rw [mem_singleton.mp hp]
    refine ⟨fun h _ _ => plainEnv_answers _ _ h, fun info statuses _ hfilter p hp hstatus => ?_⟩
    obtain rfl : (epochTxs (forcedAt 1 [1]) smallGenesis k).map
      (fun _ => FilterStatus.filterOK) = statuses := Except.ok.inj hfilter
    have hok := of_mem_zip hp
    rw [hstatus] at hok
    simp at hok

end ChainSdk

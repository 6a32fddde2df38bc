/-
Restarts and the forced-inclusion check.

A restart loses the notes and computes the cursor anew, from the DA height of the stored state:
every epoch that has ended by then counts as checked, although an epoch is only looked at when its
grace period is over.
-/
import ChainSdk.SyncerDeadline

namespace ChainSdk

open List Runs Syncer

/-! ## The cursor, exactly -/

variable {hist : List PostedBlock} {state : State} {env : VerifyEnv} {c k daHeight : ℕ}
  {genesis : Genesis} {s : Syncer} {post pre : List SyncEvent}

namespace Syncer

variable {da : ℕ → List Blob} {genesis : Genesis} {codec : Codec} {client : Client}
  {hist : List PostedBlock}

theorem epochEndAt_pos (hsize : 0 < genesis.daEpochForcedInclusion)
    (hstart : 0 < genesis.daStartHeight) (k : ℕ) : 0 < epochEndAt genesis k :=
  lt_of_lt_of_le hstart (start_le_epochEndAt hsize k)

theorem CursorBefore.passEpoch_startEpochEnd
    (hcursor : CursorBefore genesis s k) (hgenesis : s.genesis = genesis)
    (hsize : 0 < genesis.daEpochForcedInclusion) (hstart : 0 < genesis.daStartHeight) :
    (s.passEpoch (epochEndAt genesis k)).startEpochEnd = epochEndAt genesis (k + 1) := by
  have hpos := epochEndAt_pos hsize hstart k
  rcases s.passEpoch_cases (epochEndAt genesis k) with ⟨hle, -⟩ | ⟨-, hpruned, hmoved⟩
  -- the cursor is below the epoch's end, which is positive: it does move
  · rcases hcursor with hzero | ⟨j, rfl, hj⟩
    · omega
    · rw [epochEndAt_succ hsize] at hle
      omega
  · have hfirst : genesis.daStartHeight + genesis.daEpochForcedInclusion - 1 ≤
        epochEndAt genesis k := by
      have hmono := (epochEndAt_strictMono hsize).monotone (Nat.zero_le k)
      unfold epochEndAt at hmono ⊢
      omega
    unfold startEpochEnd epochSize
    rw [hpruned.genesis_eq, hgenesis, hmoved]
    rw [if_neg (by omega), epochEndAt_succ hsize]

theorem SyncerInv.lt_resume_iff (hinv : SyncerInv da genesis codec client hist s)
    (hsize : 0 < genesis.daEpochForcedInclusion) (hstart : 0 < genesis.daStartHeight)
    (hresume : s.startEpochEnd = epochEndAt genesis c) (k : ℕ) :
    k < c ↔ epochEndAt genesis k ≤ s.lastCheckedEpochEnd := by
  constructor
  · intro hlt
    by_contra hnot
    have hle := hinv.no_end_between hsize (Nat.not_le.mp hnot)
    rw [hresume, (epochEndAt_strictMono hsize).le_iff_le] at hle
    omega
  · intro hreached
    have hlt := hinv.end_lt_start hsize (epochEndAt_pos hsize hstart k) hreached
    rwa [hresume, (epochEndAt_strictMono hsize).lt_iff_lt] at hlt

theorem epochEndAt_le_initial (hsize : 0 < genesis.daEpochForcedInclusion)
    (hended : epochEndAt genesis k ≤ daHeight) :
    epochEndAt genesis k ≤ initialCheckedEpochEnd genesis daHeight := by
  have hform : epochEndAt genesis k =
      genesis.daStartHeight + genesis.daEpochForcedInclusion - 1 +
        k * genesis.daEpochForcedInclusion := by
    unfold epochEndAt
    rw [Nat.add_mul]
    omega
  have hstarted := (start_le_epochEndAt hsize k).trans hended
  unfold initialCheckedEpochEnd
  rw [if_pos ⟨hsize, hstarted, by omega⟩, hform]
  have hk : k ≤ (daHeight - (genesis.daStartHeight + genesis.daEpochForcedInclusion - 1)) /
      genesis.daEpochForcedInclusion := by
    rw [Nat.le_div_iff_mul_le hsize]
    omega
  exact Nat.add_le_add_left (Nat.mul_le_mul_right _ hk) _

end Syncer

/-! ## A check in closed form -/

structure FirstNot (P : ℕ → Prop) (c c' : ℕ) : Prop where
  le : c ≤ c'
  holds : ∀ k, c ≤ k → k < c' → P k
  fails : ¬ P c'

theorem FirstNot.meet {P Q : ℕ → Prop} {cr c' d d' : ℕ} (hP : FirstNot P c d)
    (hQ : FirstNot Q c' d') (hsame : ∀ k, cr ≤ k → (P k ↔ Q k))
    (hheld : ∀ k, c ≤ k → k < cr → ¬ P k → ¬ Q cr) (hle : c ≤ c') (hrc : cr ≤ c')
    (hor : c = c' ∨ c' = cr) : d = d' ∧ cr ≤ d ∨ d < cr ∧ c' = cr ∧ d' = cr := by
  have hcd := hP.le
  have hcd' := hQ.le
  by_cases hd : d < cr
  · right
    obtain rfl : c' = cr := by omega
    have hnot := hheld d hcd hd hP.fails
    refine ⟨hd, rfl, ?_⟩
    by_contra hne
    exact hnot (hQ.holds c' le_rfl (by omega))
  · left
    have hd' : d' ≤ d := by
      by_contra hlt
      exact hP.fails ((hsame d (by omega)).mpr (hQ.holds d (by omega) (by omega)))
    refine ⟨?_, by omega⟩
    by_contra hne
    exact hQ.fails ((hsame d' (by omega)).mp (hP.holds d' (by omega) (by omega)))

/-- A block from DA whose check can retrieve every epoch. -/
structure SyncEvent.Checkable (da : ℕ → List Blob) (ev : SyncEvent) : Prop where
  validated : ev.validated = true
  source : ev.source = .sourceDA
  truthful : ev.env.Truthful da
  succeeds : ev.env.Succeeds

def DueAt (genesis : Genesis) (hist : List PostedBlock) (daHeight k : ℕ) : Prop :=
  graceBoundary genesis.daEpochForcedInclusion (notedBytes hist) (epochEndAt genesis k) <
    daHeight

def VerifyEnv.FilterFails (env : VerifyEnv) (txs : List Tx) : Prop :=
  txs ≠ [] ∧ ∃ info e, env.executionInfo = .ok info ∧
    env.filter.filterTxs txs defaultMaxBlobSize info.maxGas true = .error e

/-- The loop over epochs goes on after epoch `k`. -/
def Passes (da : ℕ → List Blob) (genesis : Genesis) (hist : List PostedBlock) (ev : SyncEvent)
    (k : ℕ) : Prop :=
  DueAt genesis hist ev.daHeight k ∧ ¬ ev.env.FilterFails (epochTxs da genesis k)

/-- An accepted transaction of epoch `k` is in none of the blocks. -/
def Missing (da : ℕ → List Blob) (genesis : Genesis) (env : VerifyEnv)
    (hist : List PostedBlock) (k : ℕ) : Prop :=
  ∃ tx ∈ env.okTxs (epochTxs da genesis k), ∀ b ∈ hist, tx ∉ b.txs

/-- No block from before a due epoch, from `c` on, contains an accepted transaction of it. -/
def PostedSince (da : ℕ → List Blob) (genesis : Genesis) (ev : SyncEvent)
    (hist : List PostedBlock) (c : ℕ) : Prop :=
  ∀ k, c ≤ k → DueAt genesis hist ev.daHeight k → ∀ tx ∈ ev.env.okTxs (epochTxs da genesis k),
    ∀ b ∈ hist, tx ∈ b.txs → epochStartAt genesis k ≤ b.daHeight

theorem DueAt.ended (hdue : DueAt genesis hist daHeight k) : epochEndAt genesis k < daHeight :=
  lt_of_le_of_lt (Nat.le_add_right _ _) hdue

theorem dueAt_iff {ev : SyncEvent}
    (horder : InDaOrder (pre ++ ev :: post)) (hvalid : ev.validated = true)
    (hsource : ev.source = .sourceDA) (hsize : 0 < genesis.daEpochForcedInclusion) :
    DueAt genesis (daBlocks pre ++ ev.noted) ev.daHeight k ↔
      deadline genesis (pre ++ ev :: post) k < ev.daHeight := by
  rw [noted_of_da hvalid hsource]
  constructor
  · intro hdue
    rw [deadline_eq horder hvalid hsource hsize hdue.ended]
    exact hdue
  · intro hdue
    have hended : epochEndAt genesis k < ev.daHeight :=
      lt_of_le_of_lt (Nat.le_add_right _ _) hdue
    rwa [deadline_eq horder hvalid hsource hsize hended] at hdue

namespace Syncer

section

variable {da : ℕ → List Blob} {genesis : Genesis} {codec : Codec} {client : Client}
  {hist : List PostedBlock} {s : Syncer} {ev : SyncEvent} {scan : EpochScan} {maxGas j : ℕ}

theorem ScanInv.unseen_pos_iff (hset : ForcedInclusionSetting da genesis codec client)
    (hinv : ScanInv da genesis codec client hist j scan)
    (hsince : ∀ tx ∈ env.okTxs (epochTxs da genesis j), ∀ b ∈ hist, tx ∈ b.txs →
      epochStartAt genesis j ≤ b.daHeight) :
    0 < (scan.syncer.unseen (env.okTxs (epochTxs da genesis j))).length ↔
      Missing da genesis env hist j := by
  constructor
  · intro hpos
    obtain ⟨tx, htx⟩ := exists_mem_of_length_pos hpos
    obtain ⟨hok, hunseen⟩ := mem_filter.mp htx
    refine ⟨tx, hok, fun b hb hin => of_decide_eq_true hunseen ?_⟩
    exact hinv.tracks.seen_of_posted b hb tx hin
      (fun b' hb' hin' => hinv.cursor.unpruned hset.epochSize_pos (hsince tx hok b' hb' hin'))
  · rintro ⟨tx, hok, hmissing⟩
    have hnot := hinv.tracks.not_seen (by rw [hinv.codec_eq]; exact hset.sha256_injective)
      hmissing
    exact length_pos_of_mem (mem_filter.mpr ⟨hok, decide_eq_true hnot⟩)

/-- What the loop has found out when it is at epoch `j`, having begun at `c`. -/
structure ScanFrom (da : ℕ → List Blob) (genesis : Genesis) (codec : Codec) (client : Client)
    (hist : List PostedBlock) (ev : SyncEvent) (c j : ℕ) (scan : EpochScan) : Prop where
  inv : ScanInv da genesis codec client hist j scan
  resume : scan.syncer.startEpochEnd = epochEndAt genesis j
  le : c ≤ j
  passed : ∀ k, c ≤ k → k < j → Passes da genesis hist ev k
  count : PostedSince da genesis ev hist c →
    (0 < scan.maliciousCount ↔ ∃ k, c ≤ k ∧ k < j ∧ Missing da genesis ev.env hist k)

theorem LooksUp.not_filterFails {info : ExecutionInfo} {txs looked : List Tx}
    (hlooks : LooksUp env info.maxGas txs looked) (hinfo : env.executionInfo = .ok info) :
    ¬ env.FilterFails txs := by
  rintro ⟨hne, info', e, hinfo', herr⟩
  rcases hlooks with ⟨hnil, -⟩ | ⟨statuses, hfilter, -⟩
  · exact hne hnil
  · obtain rfl := Except.ok.inj (hinfo.symm.trans hinfo')
    simp [hfilter] at herr

section

variable {c : ℕ} {info : ExecutionInfo} (hset : ForcedInclusionSetting da genesis codec client)
include hset

theorem ScanFrom.next (hstart : 0 < genesis.daStartHeight)
    (hscan : ScanFrom da genesis codec client hist ev c j scan) (hev : ev.Checkable da)
    (hinfo : ev.env.executionInfo = .ok info) {scan' : EpochScan}
    (hround : checkEpoch ev.env info.maxGas ev.daHeight scan = .next scan') :
    ScanFrom da genesis codec client hist ev c (j + 1) scan' := by
  have hsize := hset.epochSize_pos
  have hinv := hscan.inv
  have hinv' := hinv.next hset hev.truthful hround
  obtain ⟨hdue, looked, hlooks, hcount, -⟩ :=
    hinv.next_looks hset hev.truthful (fun h _ _ => hev.succeeds.answers _ h) hround
  have hpasses : Passes da genesis hist ev j := ⟨hdue, hlooks.not_filterFails hinfo⟩
  have hle := hscan.le
  refine ⟨hinv', ?_, by omega, fun k hck hkj => ?_, fun hsince => ?_⟩
  · obtain ⟨-, event, -, -, -, rfl⟩ := checkEpoch_next hround
    rw [hinv.epochEnd_eq]
    exact hinv.cursor.passEpoch_startEpochEnd hinv.genesis_eq hsize hstart
  · rcases Nat.lt_succ_iff_lt_or_eq.mp hkj with hlt | rfl
    · exact hscan.passed k hck hlt
    · exact hpasses
  · -- what this round adds to the count is what is missing of its own epoch
    have hhere := hinv.unseen_pos_iff hset (hsince j hle hdue)
    have hbefore := hscan.count hsince
    rw [hcount, hlooks.eq_okTxs hinfo, Nat.add_pos_iff_pos_or_pos, hbefore, hhere]
    constructor
    · rintro (⟨k, hck, hkj, hmissing⟩ | hmissing)
      · exact ⟨k, hck, by omega, hmissing⟩
      · exact ⟨j, hle, by omega, hmissing⟩
    · rintro ⟨k, hck, hkj, hmissing⟩
      rcases Nat.lt_succ_iff_lt_or_eq.mp hkj with hlt | rfl
      · exact .inl ⟨k, hck, hlt, hmissing⟩
      · exact .inr hmissing

theorem ScanFrom.done (hscan : ScanFrom da genesis codec client hist ev c j scan)
    (hev : ev.Checkable da) (hinfo : ev.env.executionInfo = .ok info) {res : ScanResult}
    (hround : checkEpoch ev.env info.maxGas ev.daHeight scan = .done res) :
    ¬ Passes da genesis hist ev j ∧ (PostedSince da genesis ev hist c →
      ((∃ n, res.result = .error (.maliciousProposer n)) ↔
        ¬ DueAt genesis hist ev.daHeight j ∧
          ∃ k, c ≤ k ∧ k < j ∧ Missing da genesis ev.env hist k)) := by
  rcases hscan.inv.done_verdict hset hev.truthful hev.succeeds hround with
    ⟨hboundary, hverdict⟩ | ⟨hdue, hne, e, herr, hverdict⟩
  · have hnot : ¬ DueAt genesis hist ev.daHeight j := Nat.not_lt.mpr hboundary
    refine ⟨fun hpasses => hnot hpasses.1, fun hsince => ?_⟩
    rw [ScanResult.malicious_iff hverdict, hscan.count hsince]
    exact (and_iff_right hnot).symm
  · refine ⟨fun hpasses => hpasses.2 ⟨hne, info, e, hinfo, herr⟩, fun _ => ?_⟩
    refine iff_of_false ?_ (fun h => h.1 hdue)
    rintro ⟨n, hres⟩
    unfold ScanResult.result at hres
    simp [hverdict] at hres

end

/-- The conditions under which a check looks at no epoch. -/
def Skips (genesis : Genesis) (s : Syncer) (ev : SyncEvent) : Prop :=
  ev.daHeight < genesis.daStartHeight ∨ ev.daHeight < s.lastState.daHeight ∨
    ∃ e, ev.env.executionInfo = .error e

theorem SyncerInv.step_skips (hset : ForcedInclusionSetting da genesis codec client)
    (hinv : SyncerInv da genesis codec client hist s) (hev : ev.Checkable da)
    (hskips : Skips genesis s ev) :
    ¬ s.Accuses ev ∧ (s.step ev).startEpochEnd = s.startEpochEnd := by
  obtain ⟨state, hstep⟩ := step_eq (s := s) hev.validated hev.source
  rw [accuses_iff hev.validated hev.source, hstep, not_exists]
  rcases hinv.verify_cases hset hev.truthful ev.daHeight ev.data with
    ⟨heq, hnot, -⟩ | ⟨info, r, res, hinfo, -, hge, hge', -, -⟩
  · refine ⟨hnot, ?_⟩
    rw [heq]
    rfl
  · rcases hskips with hlt | hlt | ⟨e, herr⟩
    · omega
    · omega
    · simp [hinfo] at herr

section

variable {c : ℕ} (hset : ForcedInclusionSetting da genesis codec client)
  (hstart : 0 < genesis.daStartHeight) (hinv : SyncerInv da genesis codec client hist s)
  (hev : ev.Checkable da)
include hset hstart hinv hev

theorem SyncerInv.scan_ends {info : ExecutionInfo} (hinfo : ev.env.executionInfo = .ok info)
    (hresume : s.startEpochEnd = epochEndAt genesis c) {r : ForcedInclusionRetriever}
    (hr : s.fiRetriever = some r) {res : ScanResult}
    (hres : s.scanEpochs r ev.env info.maxGas ev.daHeight = some res) :
    ∃ c', FirstNot (Passes da genesis hist ev) c c' ∧
      res.syncer.startEpochEnd = epochEndAt genesis c' ∧
      (PostedSince da genesis ev hist c →
        ((∃ n, res.result = .error (.maliciousProposer n)) ↔
          ¬ DueAt genesis hist ev.daHeight c' ∧
            ∃ k, c ≤ k ∧ k < c' ∧ Missing da genesis ev.env hist k)) := by
  obtain ⟨c₀, hresume₀, hscan⟩ := hinv.scan hset.epochSize_pos hr
  obtain rfl : c₀ = c :=
    (epochEndAt_strictMono hset.epochSize_pos).injective (hresume₀.symm.trans hresume)
  -- before the first round there is no epoch between `c` and `c`
  have hbegin : ScanFrom da genesis codec client hist ev c₀ c₀ ⟨s, r, s.startEpochEnd, 0, []⟩ := by
    refine ⟨hscan, hresume₀, le_rfl, fun k hge hlt => absurd hlt (Nat.not_lt.mpr hge), ?_⟩
    refine fun _ => ⟨fun hpos => absurd hpos (lt_irrefl 0), ?_⟩
    rintro ⟨k, hge, hlt, -⟩
    exact absurd hlt (Nat.not_lt.mpr hge)
  refine Loops.iterate_invariant (checkEpoch ev.env info.maxGas ev.daHeight)
    (fun scan => ∃ j, ScanFrom da genesis codec client hist ev c₀ j scan)
    (fun res => ∃ c', FirstNot (Passes da genesis hist ev) c₀ c' ∧
      res.syncer.startEpochEnd = epochEndAt genesis c' ∧
      (PostedSince da genesis ev hist c₀ →
        ((∃ n, res.result = .error (.maliciousProposer n)) ↔
          ¬ DueAt genesis hist ev.daHeight c' ∧
            ∃ k, c₀ ≤ k ∧ k < c' ∧ Missing da genesis ev.env hist k)))
    ?_ ?_ ⟨c₀, hbegin⟩ hres
  · rintro scan scan' ⟨j, hj⟩ hround
    exact ⟨j + 1, hj.next hset hstart hev hinfo hround⟩
  · rintro scan res ⟨j, hj⟩ hround
    obtain ⟨hstops, hverdict⟩ := hj.done hset hev hinfo hround
    obtain ⟨hsyncer, -⟩ := checkEpoch_done hround
    rw [hsyncer]
    exact ⟨j, ⟨hj.le, hj.passed, hstops⟩, hj.resume, hverdict⟩

theorem SyncerInv.step_scans (hscans : ¬ Skips genesis s ev)
    (hresume : s.startEpochEnd = epochEndAt genesis c) :
    ∃ c', FirstNot (Passes da genesis (hist ++ ev.noted) ev) c c' ∧
      (s.step ev).startEpochEnd = epochEndAt genesis c' ∧
      (PostedSince da genesis ev (hist ++ ev.noted) c →
        (s.Accuses ev ↔ ¬ DueAt genesis (hist ++ ev.noted) ev.daHeight c' ∧
          ∃ k, c ≤ k ∧ k < c' ∧ Missing da genesis ev.env (hist ++ ev.noted) k)) := by
  rw [noted_of_da hev.validated hev.source]
  obtain ⟨state, hstep⟩ := step_eq (s := s) hev.validated hev.source
  rw [accuses_iff hev.validated hev.source, hstep]
  rcases hinv.verify_cases hset hev.truthful ev.daHeight ev.data with
    ⟨-, -, hskips⟩ | ⟨info, r, res, hinfo, hr, -, -, hres, heq⟩
  · exact absurd hskips hscans
  rw [heq]
  exact (hinv.record ev.daHeight ev.data.txs).scan_ends hset hstart hev hinfo hresume hr hres

end

/-! ## The last state -/

theorem applyEvent_lastState_congr {t : Syncer} (hstate : s.lastState = t.lastState)
    (hcodec : s.codec = t.codec) (ev : SyncEvent) :
    (s.applyEvent ev).2.lastState = (t.applyEvent ev).2.lastState := by
  unfold applyEvent
  rcases ev.appHash with e | appHash
  · exact hstate
  · split_ifs
    · exact hstate
    · rw [hstate, hcodec]

theorem step_lastState_of_accuses (hev : ev.Checkable da)
    (haccuses : s.Accuses ev) : (s.step ev).lastState = s.lastState := by
  rw [accuses_iff hev.validated hev.source] at haccuses
  unfold step
  rcases trySyncNextBlock_da (s := s) hev.validated hev.source with ⟨n, -, heq⟩ | ⟨hnot, -⟩
  · rw [heq]
    exact (s.verify_sameChain ev.env ev.daHeight ev.data).lastState_eq
  · obtain ⟨n, hn⟩ := haccuses
    exact absurd hn (hnot n)

theorem step_lastState_of_not_accuses (hev : ev.Checkable da)
    (hclear : ¬ s.Accuses ev) : (s.step ev).lastState = (s.applyEvent ev).2.lastState := by
  rw [accuses_iff hev.validated hev.source] at hclear
  unfold step
  rcases trySyncNextBlock_da (s := s) hev.validated hev.source with ⟨n, hn, -⟩ | ⟨-, heq⟩
  · exact absurd ⟨n, hn⟩ hclear
  · rw [heq]
    have hsame := s.verify_sameChain ev.env ev.daHeight ev.data
    exact applyEvent_lastState_congr hsame.lastState_eq hsame.codec_eq ev

theorem step_daHeight_of_applied (happlied : (s.trySyncNextBlock ev).1 = .ok ()) :
    max s.lastState.daHeight ev.daHeight ≤ (s.step ev).lastState.daHeight := by
  unfold step
  obtain ⟨checked, -, ⟨root, -, heq⟩ | ⟨e, heq, -⟩⟩ := s.trySyncNextBlock_cases ev
  · rw [heq]
  · simp [heq] at happlied

end

def unchecked (genesis : Genesis) (codec : Codec) (client : Client) (state : State) : Syncer :=
  { ofState genesis codec client state with lastCheckedEpochEnd := 0 }

end Syncer

/-! ## Two runs -/

/-- When a restart between `pre` and `post` is harmless, from `u` to `r`. It jumps over an epoch
that is ahead of the cursor of `u` but not of that of `r`. -/
structure RestartSafe (da : ℕ → List Blob) (genesis : Genesis) (pre post : List SyncEvent)
    (u r : Syncer) : Prop where
  since : ∀ ev ∈ post, ∀ k, u.lastCheckedEpochEnd < epochEndAt genesis k →
    deadline genesis (pre ++ post) k < ev.daHeight →
      ∀ tx ∈ ev.env.okTxs (epochTxs da genesis k), ∀ b ∈ daBlocks (pre ++ post), tx ∈ b.txs →
        epochStartAt genesis k ≤ b.daHeight
  jumped_first : ∀ k j, u.lastCheckedEpochEnd < epochEndAt genesis k →
    epochEndAt genesis k ≤ r.lastCheckedEpochEnd → r.startEpochEnd = epochEndAt genesis j →
      deadline genesis (pre ++ post) k ≤ deadline genesis (pre ++ post) j
  jumped_filtered : ∀ ev ∈ post, ∀ k, u.lastCheckedEpochEnd < epochEndAt genesis k →
    epochEndAt genesis k ≤ r.lastCheckedEpochEnd →
      deadline genesis (pre ++ post) k < ev.daHeight →
        ¬ ev.env.FilterFails (epochTxs da genesis k)
  jumped_included : ∀ ev ∈ post, ∀ k, u.lastCheckedEpochEnd < epochEndAt genesis k →
    epochEndAt genesis k ≤ r.lastCheckedEpochEnd →
      deadline genesis (pre ++ post) k < ev.daHeight →
        ∀ tx ∈ ev.env.okTxs (epochTxs da genesis k), ∃ b ∈ daBlocks (pre ++ post),
          tx ∈ b.txs ∧ b.daHeight ≤ deadline genesis (pre ++ post) k
  later_due : ∀ ev ∈ post, ∀ k, r.lastCheckedEpochEnd < epochEndAt genesis k →
    (deadline genesis (pre ++ post) k < ev.daHeight ↔ deadline genesis post k < ev.daHeight)
  later_included : ∀ ev ∈ post, ∀ k, r.lastCheckedEpochEnd < epochEndAt genesis k →
    deadline genesis (pre ++ post) k < ev.daHeight →
      ∀ tx ∈ ev.env.okTxs (epochTxs da genesis k), ∀ b ∈ daBlocks pre, tx ∈ b.txs →
        ∃ b' ∈ daBlocks post, tx ∈ b'.txs ∧ b'.daHeight ≤ deadline genesis (pre ++ post) k

/-- A safe restart that takes the cursor from epoch `cu` to epoch `cr`. -/
structure Restarted (da : ℕ → List Blob) (genesis : Genesis) (pre post : List SyncEvent)
    (u r : Syncer) (cu cr : ℕ) : Prop where
  safe : RestartSafe da genesis pre post u r
  order : InDaOrder (pre ++ post)
  ahead : ∀ k, cu ≤ k → u.lastCheckedEpochEnd < epochEndAt genesis k
  jumped : ∀ k, k < cr ↔ epochEndAt genesis k ≤ r.lastCheckedEpochEnd
  resume : r.startEpochEnd = epochEndAt genesis cr

/-- Two syncers, the second restarted before it noted `hist`, with their checks resuming at
epochs `c` and `c'`. The second is at `cr`, where the restart has put it, until the first has
caught up. -/
structure InStep (da : ℕ → List Blob) (genesis : Genesis) (codec : Codec) (client : Client)
    (cu cr : ℕ) (old hist : List PostedBlock) (u r : Syncer) : Prop where
  invU : SyncerInv da genesis codec client (old ++ hist) u
  invR : SyncerInv da genesis codec client hist r
  lastState_eq : u.lastState = r.lastState
  cursors : ∃ c c', u.startEpochEnd = epochEndAt genesis c ∧
    r.startEpochEnd = epochEndAt genesis c' ∧ cu ≤ c ∧ c ≤ c' ∧ cr ≤ c' ∧ (c = c' ∨ c' = cr)

section

variable {da : ℕ → List Blob} {genesis : Genesis} {codec : Codec} {client : Client}

theorem applied_run_cursor (hset : ForcedInclusionSetting da genesis codec client)
    (hstart : 0 < genesis.daStartHeight) {u₀ : Syncer}
    (hinv₀ : SyncerInv da genesis codec client [] u₀)
    (hresume₀ : u₀.startEpochEnd = epochEndAt genesis 0) (hev : ∀ ev ∈ pre, ev.Checkable da)
    (happlied : ∀ p ∈ steps step u₀ pre, (p.1.trySyncNextBlock p.2).1 = .ok ()) :
    ∃ c, (pre.foldl step u₀).startEpochEnd = epochEndAt genesis c ∧
      ∀ k < c, epochEndAt genesis k ≤ (pre.foldl step u₀).lastState.daHeight := by
  induction pre using List.reverseRecOn with
  | nil => exact ⟨0, hresume₀, fun k hk => absurd hk (Nat.not_lt_zero k)⟩
  | append_singleton pre ev ih =>
    rw [steps_append] at happlied
    have hlast : ev.Checkable da := hev ev (by simp)
    obtain ⟨c, hresume, hended⟩ := ih (fun e he => hev e (mem_append_left _ he))
      (fun p hp => happlied p (mem_append_left _ hp))
    have hinv := hinv₀.run hset (fun e he => (hev e (mem_append_left _ he)).truthful)
    rw [foldl_append, foldl_cons]
    have hraised := step_daHeight_of_applied
      (happlied (pre.foldl step u₀, ev) (mem_append_right _ (by simp)))
    have hge := (le_max_left _ _).trans hraised
    have hge' := (le_max_right _ _).trans hraised
    by_cases hskips : Syncer.Skips genesis (pre.foldl step u₀) ev
    · obtain ⟨-, hsame⟩ := hinv.step_skips hset hlast hskips
      exact ⟨c, hsame.trans hresume, fun k hk => (hended k hk).trans hge⟩
    obtain ⟨c', hfirst, hresume', -⟩ := hinv.step_scans hset hstart hlast hskips hresume
    refine ⟨c', hresume', fun k hk => ?_⟩
    by_cases hck : c ≤ k
    · exact (hfirst.holds k hck hk).1.ended.le.trans hge'
    · exact (hended k (Nat.not_le.mp hck)).trans hge

theorem daBlocks_around (pre a b : List SyncEvent) (ev : SyncEvent) :
    daBlocks (pre ++ (a ++ ev :: b)) =
      (daBlocks pre ++ (daBlocks a ++ ev.noted)) ++ daBlocks b := by
  rw [daBlocks_append, daBlocks_append, daBlocks_cons]
  simp only [append_assoc]

section

variable {pre post a b : List SyncEvent} {ev : SyncEvent} {u₁ r₁ u r : Syncer}
  {cu cr c c' d d' k : ℕ}

section

variable (hre : Restarted da genesis pre post u₁ r₁ cu cr)
  (hsize : 0 < genesis.daEpochForcedInclusion) (hsplit : post = a ++ ev :: b)
  (hev : ev.Checkable da)
include hre hsize hsplit hev

theorem Restarted.due_iff :
    DueAt genesis (daBlocks pre ++ (daBlocks a ++ ev.noted)) ev.daHeight k ↔
      deadline genesis (pre ++ post) k < ev.daHeight := by
  have horder := hre.order
  rw [hsplit, ← append_assoc] at horder ⊢
  rw [← append_assoc, ← daBlocks_append]
  exact dueAt_iff horder hev.validated hev.source hsize

theorem Restarted.due_iff_due (hk : cr ≤ k) :
    DueAt genesis (daBlocks pre ++ (daBlocks a ++ ev.noted)) ev.daHeight k ↔
      DueAt genesis (daBlocks a ++ ev.noted) ev.daHeight k := by
  have horder : InDaOrder post := by
    have hall := hre.order
    unfold InDaOrder at hall ⊢
    rw [daBlocks_append, pairwise_append] at hall
    exact hall.2.1
  have hlater : r₁.lastCheckedEpochEnd < epochEndAt genesis k := by
    by_contra hnot
    have hlt := (hre.jumped k).mpr (Nat.not_lt.mp hnot)
    omega
  rw [hre.due_iff hsize hsplit hev, hre.safe.later_due ev (by rw [hsplit]; simp) k hlater]
  rw [hsplit] at horder ⊢
  exact (dueAt_iff horder hev.validated hev.source hsize).symm

theorem Restarted.held_up (hcu : cu ≤ k) (hcr : k < cr)
    (hstops : ¬ Passes da genesis (daBlocks pre ++ (daBlocks a ++ ev.noted)) ev k) :
    ¬ Passes da genesis (daBlocks a ++ ev.noted) ev cr := by
  have hjumped := (hre.jumped k).mp hcr
  have hnot : ¬ deadline genesis (pre ++ post) k < ev.daHeight := fun hdue =>
    hstops ⟨(hre.due_iff hsize hsplit hev).mpr hdue,
      hre.safe.jumped_filtered ev (by rw [hsplit]; simp) k (hre.ahead k hcu) hjumped hdue⟩
  have hfirst := hre.safe.jumped_first k cr (hre.ahead k hcu) hjumped hre.resume
  rintro ⟨hdue, -⟩
  rw [← hre.due_iff_due hsize hsplit hev le_rfl, hre.due_iff hsize hsplit hev] at hdue
  omega

end

theorem Restarted.known (hre : Restarted da genesis pre post u₁ r₁ cu cr)
    (hsplit : post = a ++ ev :: b) (hev : ev.Checkable da) {b' : PostedBlock}
    (hb' : b' ∈ daBlocks post) (hbefore : b'.daHeight < ev.daHeight) :
    b' ∈ daBlocks a ++ ev.noted := by
  have horder := hre.order
  rw [hsplit, ← append_assoc] at horder
  rw [hsplit, daBlocks_append, daBlocks_cons, ← append_assoc] at hb'
  rcases mem_append.mp hb' with hknown | hlater
  · exact hknown
  · have hge := horder.le_of_later hev.validated hev.source b' hlater
    omega

section

variable (hre : Restarted da genesis pre post u₁ r₁ cu cr)
  (hsize : 0 < genesis.daEpochForcedInclusion) (hsplit : post = a ++ ev :: b)
  (hev : ev.Checkable da)
include hre hsize hsplit hev

theorem Restarted.not_missing (hcu : cu ≤ k) (hcr : k < cr)
    (hdue : DueAt genesis (daBlocks pre ++ (daBlocks a ++ ev.noted)) ev.daHeight k) :
    ¬ Missing da genesis ev.env (daBlocks pre ++ (daBlocks a ++ ev.noted)) k := by
  rw [hre.due_iff hsize hsplit hev] at hdue
  rintro ⟨tx, hok, hmissing⟩
  obtain ⟨b', hb', hin, hle⟩ := hre.safe.jumped_included ev (by rw [hsplit]; simp) k
    (hre.ahead k hcu) ((hre.jumped k).mp hcr) hdue tx hok
  rw [daBlocks_append] at hb'
  rcases mem_append.mp hb' with hold | hnew
  · exact hmissing b' (mem_append_left _ hold) hin
  · have hknown := hre.known hsplit hev hnew (by omega)
    exact hmissing b' (mem_append_right _ hknown) hin

theorem Restarted.missing_iff (hcr : cr ≤ k)
    (hdue : DueAt genesis (daBlocks pre ++ (daBlocks a ++ ev.noted)) ev.daHeight k) :
    Missing da genesis ev.env (daBlocks pre ++ (daBlocks a ++ ev.noted)) k ↔
      Missing da genesis ev.env (daBlocks a ++ ev.noted) k := by
  rw [hre.due_iff hsize hsplit hev] at hdue
  constructor
  · rintro ⟨tx, hok, hmissing⟩
    exact ⟨tx, hok, fun b' hb' => hmissing b' (mem_append_right _ hb')⟩
  · rintro ⟨tx, hok, hmissing⟩
    refine ⟨tx, hok, fun b' hb' hin => ?_⟩
    rcases mem_append.mp hb' with hold | hnew
    · have hlater : r₁.lastCheckedEpochEnd < epochEndAt genesis k := by
        by_contra hnot
        have hlt := (hre.jumped k).mpr (Nat.not_lt.mp hnot)
        omega
      obtain ⟨b'', hb'', hin', hle⟩ := hre.safe.later_included ev (by rw [hsplit]; simp) k
        hlater hdue tx hok b' hold hin
      exact hmissing b'' (hre.known hsplit hev hb'' (by omega)) hin'
    · exact hmissing b' hnew hin

theorem Restarted.verdict_iff (huc : cu ≤ c) (hle : c ≤ c') (hrc : cr ≤ c') (hor : c = c' ∨ c' = cr)
    (hU : FirstNot (Passes da genesis (daBlocks pre ++ (daBlocks a ++ ev.noted)) ev) c d)
    (hmeet : d = d' ∧ cr ≤ d ∨ d < cr ∧ c' = cr ∧ d' = cr) :
    (¬ DueAt genesis (daBlocks pre ++ (daBlocks a ++ ev.noted)) ev.daHeight d ∧
        ∃ k, c ≤ k ∧ k < d ∧
          Missing da genesis ev.env (daBlocks pre ++ (daBlocks a ++ ev.noted)) k) ↔
      ¬ DueAt genesis (daBlocks a ++ ev.noted) ev.daHeight d' ∧
        ∃ k, c' ≤ k ∧ k < d' ∧ Missing da genesis ev.env (daBlocks a ++ ev.noted) k := by
  rcases hmeet with ⟨rfl, hd⟩ | ⟨hd, hc', hd'⟩
  · refine and_congr (not_congr (hre.due_iff_due hsize hsplit hev hd)) ⟨?_, ?_⟩
    · rintro ⟨k, hck, hkd, hmissing⟩
      have hdue := (hU.holds k hck hkd).1
      -- the epochs the first run passes alone are among those jumped over
      have hk : c' ≤ k := by
        by_contra hnot
        exact hre.not_missing hsize hsplit hev (huc.trans hck) (by omega) hdue hmissing
      exact ⟨k, hk, hkd, (hre.missing_iff hsize hsplit hev (hrc.trans hk) hdue).mp hmissing⟩
    · rintro ⟨k, hck, hkd, hmissing⟩
      have hdue := (hU.holds k (hle.trans hck) hkd).1
      exact ⟨k, hle.trans hck, hkd,
        (hre.missing_iff hsize hsplit hev (hrc.trans hck) hdue).mpr hmissing⟩
  · refine iff_of_false ?_ ?_
    · rintro ⟨-, k, hck, hkd, hmissing⟩
      exact hre.not_missing hsize hsplit hev (huc.trans hck) (by omega)
        (hU.holds k hck hkd).1 hmissing
    · rintro ⟨-, k, hck, hkd, -⟩
      omega

theorem Restarted.postedSince (huc : cu ≤ c) (hle : c ≤ c') (hrc : cr ≤ c') :
    PostedSince da genesis ev (daBlocks pre ++ (daBlocks a ++ ev.noted)) c ∧
      PostedSince da genesis ev (daBlocks a ++ ev.noted) c' := by
  have hmem : ev ∈ post := by rw [hsplit]; simp
  have hknown : ∀ b' ∈ daBlocks pre ++ (daBlocks a ++ ev.noted),
      b' ∈ daBlocks (pre ++ post) := by
    intro b' hb'
    rw [hsplit, daBlocks_around]
    exact mem_append_left _ hb'
  constructor
  · intro k hck hdue tx hok b' hb' hin
    rw [hre.due_iff hsize hsplit hev] at hdue
    exact hre.safe.since ev hmem k (hre.ahead k (huc.trans hck)) hdue tx hok b'
      (hknown b' hb') hin
  · intro k hck hdue tx hok b' hb' hin
    rw [← hre.due_iff_due hsize hsplit hev (hrc.trans hck), hre.due_iff hsize hsplit hev] at hdue
    exact hre.safe.since ev hmem k (hre.ahead k (huc.trans (hle.trans hck))) hdue tx hok b'
      (hknown b' (mem_append_right _ hb')) hin

end

theorem InStep.step_lastState (hev : ev.Checkable da) {old : List PostedBlock}
    (hrel : InStep da genesis codec client cu cr old hist u r)
    (hiff : u.Accuses ev ↔ r.Accuses ev) : (u.step ev).lastState = (r.step ev).lastState := by
  by_cases haccuses : u.Accuses ev
  · rw [step_lastState_of_accuses hev haccuses, step_lastState_of_accuses hev (hiff.mp haccuses)]
    exact hrel.lastState_eq
  · rw [step_lastState_of_not_accuses hev haccuses,
      step_lastState_of_not_accuses hev (fun h => haccuses (hiff.mpr h))]
    exact applyEvent_lastState_congr hrel.lastState_eq
      (hrel.invU.codec_eq.trans hrel.invR.codec_eq.symm) ev

theorem InStep.step (hset : ForcedInclusionSetting da genesis codec client)
    (hstart : 0 < genesis.daStartHeight) (hre : Restarted da genesis pre post u₁ r₁ cu cr)
    (hsplit : post = a ++ ev :: b) (hev : ev.Checkable da)
    (hrel : InStep da genesis codec client cu cr (daBlocks pre) (daBlocks a) u r) :
    (u.Accuses ev ↔ r.Accuses ev) ∧
      InStep da genesis codec client cu cr (daBlocks pre) (daBlocks (a ++ [ev])) (u.step ev)
        (r.step ev) := by
  have hsize := hset.epochSize_pos
  obtain ⟨c, c', hresumeU, hresumeR, huc, hle, hrc, hor⟩ := hrel.cursors
  have hinvU := hrel.invU.step hset hev.truthful
  have hinvR := hrel.invR.step hset hev.truthful
  rw [append_assoc] at hinvU
  have hblocks : daBlocks (a ++ [ev]) = daBlocks a ++ ev.noted := by
    rw [daBlocks_append]
    exact congrArg _ (append_nil _)
  have hskips_iff : Syncer.Skips genesis u ev ↔ Syncer.Skips genesis r ev := by
    unfold Syncer.Skips
    rw [hrel.lastState_eq]
  rw [hblocks]
  by_cases hskips : Syncer.Skips genesis u ev
  · obtain ⟨hclearU, hsameU⟩ := hrel.invU.step_skips hset hev hskips
    obtain ⟨hclearR, hsameR⟩ := hrel.invR.step_skips hset hev (hskips_iff.mp hskips)
    have hiff : u.Accuses ev ↔ r.Accuses ev := iff_of_false hclearU hclearR
    exact ⟨hiff, hinvU, hinvR, hrel.step_lastState hev hiff, c, c',
      hsameU.trans hresumeU, hsameR.trans hresumeR, huc, hle, hrc, hor⟩
  · obtain ⟨d, hU, hresumeU', hverdictU⟩ :=
      hrel.invU.step_scans hset hstart hev hskips hresumeU
    obtain ⟨d', hR, hresumeR', hverdictR⟩ :=
      hrel.invR.step_scans hset hstart hev (fun h => hskips (hskips_iff.mpr h)) hresumeR
    rw [append_assoc] at hU hverdictU
    have hmeet := hU.meet hR
      (fun k hk => and_congr_left' (hre.due_iff_due hsize hsplit hev hk))
      (fun k hck hkr hstops => hre.held_up hsize hsplit hev (huc.trans hck) hkr hstops)
      hle hrc hor
    obtain ⟨hsinceU, hsinceR⟩ := hre.postedSince hsize hsplit hev huc hle hrc
    have hiff : u.Accuses ev ↔ r.Accuses ev := by
      rw [hverdictU hsinceU, hverdictR hsinceR]
      exact hre.verdict_iff hsize hsplit hev huc hle hrc hor hU hmeet
    have hcd := hU.le
    refine ⟨hiff, hinvU, hinvR, hrel.step_lastState hev hiff, d, d', hresumeU', hresumeR',
      by omega, ?_⟩
    rcases hmeet with ⟨rfl, hd⟩ | ⟨hd, -, hd'⟩
    · exact ⟨le_rfl, hd, .inl rfl⟩
    · exact ⟨by omega, by omega, .inr hd'⟩

end

theorem Syncer.initializeState_stored {inp : StartInput}
    (h : initializeState genesis codec client inp (some state) = .ok s) :
    s = ofState genesis codec client state := by
  obtain ⟨state', hload, rfl⟩ := initializeState_ok h
  rw [Except.ok.inj hload]

theorem Syncer.SyncerInv.unchecked (state : State) :
    SyncerInv da genesis codec client [] (unchecked genesis codec client state) :=
  have hfresh : SyncerInv da genesis codec client []
      (Syncer.ofState genesis codec client state) := .ofState state
  ⟨rfl, rfl, hfresh.serves, ⟨fun _ hb => absurd hb not_mem_nil,
    hfresh.tracks.posted_of_seen, hfresh.tracks.noted_at, fun _ _ => rfl⟩, .inl rfl⟩

theorem Syncer.unchecked_startEpochEnd (state : State) :
    (unchecked genesis codec client state).startEpochEnd = epochEndAt genesis 0 := by
  have hzero : (unchecked genesis codec client state).lastCheckedEpochEnd = 0 := rfl
  unfold startEpochEnd epochEndAt
  rw [Nat.one_mul]
  rfl

theorem InStep.restart (hset : ForcedInclusionSetting da genesis codec client)
    (hstart : 0 < genesis.daStartHeight) {u : Syncer}
    (hu : u = pre.foldl Syncer.step (unchecked genesis codec client state))
    (hev : ∀ ev ∈ pre, ev.Checkable da)
    (happlied : ∀ p ∈ Runs.steps Syncer.step (unchecked genesis codec client state) pre,
      (p.1.trySyncNextBlock p.2).1 = .ok ())
    (horder : InDaOrder (pre ++ post)) (hsafe : RestartSafe da genesis pre post u
      (ofState genesis codec client u.lastState)) :
    ∃ cu cr, Restarted da genesis pre post u (ofState genesis codec client u.lastState)
        cu cr ∧
      InStep da genesis codec client cu cr (daBlocks pre) [] u
        (ofState genesis codec client u.lastState) := by
  have hsize := hset.epochSize_pos
  have hinv₀ : SyncerInv da genesis codec client []
      (unchecked genesis codec client state) := .unchecked state
  have hinvU := hinv₀.run hset (fun e he => (hev e he).truthful)
  obtain ⟨cu, hresumeU, hended⟩ := applied_run_cursor hset hstart hinv₀
    (unchecked_startEpochEnd state) hev happlied
  rw [← hu] at hinvU hresumeU hended
  have hinvR : SyncerInv da genesis codec client []
      (ofState genesis codec client u.lastState) := .ofState u.lastState
  obtain ⟨cr, hresumeR, -⟩ := startEpochEnd_eq hinvR.genesis_eq hsize hinvR.cursor
  have hbelowR := hinvR.lt_resume_iff hsize hstart hresumeR
  have hle : cu ≤ cr := by
    by_contra hnot
    have hcr := hended cr (Nat.not_le.mp hnot)
    exact absurd ((hbelowR cr).mpr (epochEndAt_le_initial hsize hcr)) (lt_irrefl cr)
  have hahead : ∀ k, cu ≤ k → u.lastCheckedEpochEnd < epochEndAt genesis k := by
    intro k hk
    by_contra hnot
    have hlt := (hinvU.lt_resume_iff hsize hstart hresumeU k).mpr (Nat.not_lt.mp hnot)
    omega
  refine ⟨cu, cr, ⟨hsafe, horder, hahead, hbelowR, hresumeR⟩, ?_, hinvR, rfl, cu, cr, hresumeU,
    hresumeR, le_rfl, hle, le_rfl, .inr rfl⟩
  rwa [append_nil]

end

/-- Take a run of blocks from DA by a syncer that started on a state with no epoch checked, and
the same run with a restart after the blocks `pre`, all of them applied. If the restart is
safe, every later block gets the same verdict in both. -/
theorem restart_keeps_verdicts (da : ℕ → List Blob) (genesis : Genesis) (codec : Codec)
    (client : Client) (inp : StartInput) (state : State) (r₀ : Syncer)
    (pre post : List SyncEvent) (hset : ForcedInclusionSetting da genesis codec client)
    (hstart : 0 < genesis.daStartHeight) (hrestart : initializeState genesis codec client inp
      (some (pre.foldl Syncer.step (.unchecked genesis codec client state)).lastState) = .ok r₀)
    (hev : ∀ ev ∈ pre ++ post, ev.Checkable da) (horder : InDaOrder (pre ++ post))
    (happlied : ∀ p ∈ Runs.steps Syncer.step (.unchecked genesis codec client state) pre,
      (p.1.trySyncNextBlock p.2).1 = .ok ()) (hsafe : RestartSafe da genesis pre post
      (pre.foldl Syncer.step (.unchecked genesis codec client state)) r₀) :
    ∀ a ev b, post = a ++ ev :: b →
      (((pre ++ a).foldl Syncer.step (.unchecked genesis codec client state)).Accuses ev ↔
        (a.foldl Syncer.step r₀).Accuses ev) := by
  obtain rfl := initializeState_stored hrestart
  obtain ⟨cu, cr, hre, hrel₀⟩ := InStep.restart hset hstart rfl
    (fun ev he => hev ev (List.mem_append_left _ he)) happlied horder hsafe
  have hpost : ∀ ev ∈ post, ev.Checkable da := fun ev he =>
    hev ev (List.mem_append_right _ he)
  intro a ev b hsplit
  have hrel := Runs.foldl_related Syncer.step Syncer.step
    (fun done => InStep da genesis codec client cu cr (daBlocks pre) (daBlocks done)) hrel₀
    (fun done i rest heq s t hst =>
      (hst.step hset hstart hre heq (hpost i (by rw [heq]; simp))).2) a (ev :: b) hsplit
  rw [List.foldl_append]
  exact (hrel.step hset hstart hre hsplit (hpost ev (by rw [hsplit]; simp))).1

/-! ## On the small chain -/

def smallUnchecked : Syncer :=
  .unchecked smallGenesis plainCodec forcedClient smallSyncer.lastState

theorem daBlock_checkable (da : ℕ → List Blob) (daHeight : ℕ) (txs : List Tx) :
    (daBlock da daHeight txs).Checkable da where
  validated := rfl
  source := rfl
  truthful := plainEnv_truthful da
  succeeds := fun _ _ => .inl rfl

def smallRestarted (da : ℕ → List Blob) (daHeight : ℕ) : Syncer :=
  .ofState smallGenesis plainCodec forcedClient
    (smallUnchecked.step (daBlock da daHeight [])).lastState

theorem smallRestarted_eq {da : ℕ → List Blob}
    (hheight : 1 ≤ (smallUnchecked.step (daBlock da daHeight [])).lastState.daHeight) :
    initializeState smallGenesis plainCodec forcedClient plainStart
      (some ([daBlock da daHeight []].foldl step smallUnchecked).lastState) =
        .ok (smallRestarted da daHeight) := by
  have hnot : ¬ ((smallUnchecked.step (daBlock da daHeight [])).lastState.daHeight ≠ 0 ∧
      (smallUnchecked.step (daBlock da daHeight [])).lastState.daHeight <
        smallGenesis.daStartHeight) := by
    have hone : smallGenesis.daStartHeight = 1 := rfl
    omega
  unfold initializeState loadState
  dsimp only [foldl_cons, foldl_nil]
  rw [if_neg hnot]
  rfl

/-- The transaction `[1]`, forced at height 3, is never posted. After blocks at 4 and 7 the
syncer accuses the proposer; restarted in between, it takes the epoch that ended at 4 as
checked and does not. -/
theorem restart_forgives_censorship :
    ForcedInclusionSetting (forcedAt 3 [1]) smallGenesis plainCodec forcedClient ∧
      initializeState smallGenesis plainCodec forcedClient plainStart
        (some ([daBlock (forcedAt 3 [1]) 4 []].foldl step smallUnchecked).lastState) =
          .ok (smallRestarted (forcedAt 3 [1]) 4) ∧
      (daBlock (forcedAt 3 [1]) 4 []).Checkable (forcedAt 3 [1]) ∧
      (daBlock (forcedAt 3 [1]) 7 []).Checkable (forcedAt 3 [1]) ∧
      InDaOrder [daBlock (forcedAt 3 [1]) 4 [], daBlock (forcedAt 3 [1]) 7 []] ∧
      (smallUnchecked.trySyncNextBlock (daBlock (forcedAt 3 [1]) 4 [])).1 = .ok () ∧
      (smallUnchecked.step (daBlock (forcedAt 3 [1]) 4 [])).Accuses
        (daBlock (forcedAt 3 [1]) 7 []) ∧
      ¬ (smallRestarted (forcedAt 3 [1]) 4).Accuses (daBlock (forcedAt 3 [1]) 7 []) := by
  refine ⟨smallSetting 3 [1] (by decide), smallRestarted_eq (by decide +kernel),
    daBlock_checkable _ _ _, daBlock_checkable _ _ _, by unfold InDaOrder; decide,
    by decide +kernel, ⟨1, by decide +kernel⟩, ?_⟩
  rintro ⟨n, hres⟩
  have hok : ((smallRestarted (forcedAt 3 [1]) 4).trySyncNextBlock
      (daBlock (forcedAt 3 [1]) 7 [])).1 = .ok () := by
    decide +kernel
  simp [hok] at hres

/-- With the first block posted at 2, before the transaction's epoch has ended, the restart
changes nothing. -/
theorem restart_keeps_verdict_on_small :
    (smallUnchecked.step (daBlock (forcedAt 3 [1]) 2 [])).Accuses
        (daBlock (forcedAt 3 [1]) 7 []) ∧
      (([daBlock (forcedAt 3 [1]) 2 []].foldl step smallUnchecked).Accuses
          (daBlock (forcedAt 3 [1]) 7 []) ↔
        (smallRestarted (forcedAt 3 [1]) 2).Accuses (daBlock (forcedAt 3 [1]) 7 [])) := by
  refine ⟨⟨1, by decide +kernel⟩, restart_keeps_verdicts (forcedAt 3 [1]) smallGenesis
    plainCodec forcedClient plainStart smallSyncer.lastState
    (smallRestarted (forcedAt 3 [1]) 2) [daBlock (forcedAt 3 [1]) 2 []]
    [daBlock (forcedAt 3 [1]) 7 []] (smallSetting 3 [1] (by decide)) (by decide)
    (smallRestarted_eq (by decide +kernel)) ?_ (by unfold InDaOrder; decide) ?_ ?_
    [] (daBlock (forcedAt 3 [1]) 7 []) [] rfl⟩
  · intro ev hev
    simp only [singleton_append, mem_cons, not_mem_nil, or_false] at hev
    rcases hev with rfl | rfl
    · exact daBlock_checkable _ _ _
    · exact daBlock_checkable _ _ _
  · intro p hp
    rw [steps_cons, steps_nil, mem_singleton] at hp
    rw [hp]
    decide +kernel
  · -- no block has a transaction, and the epoch the restart jumps over has none either
    have hempty : ∀ b ∈ daBlocks ([daBlock (forcedAt 3 [1]) 2 []] ++
        [daBlock (forcedAt 3 [1]) 7 []]), b.txs = [] := by decide
    have hjumped : ∀ k, epochEndAt smallGenesis k ≤
        (smallRestarted (forcedAt 3 [1]) 2).lastCheckedEpochEnd → k = 0 := by
      intro k hk
      have hcursor : (smallRestarted (forcedAt 3 [1]) 2).lastCheckedEpochEnd = 2 := by
        decide +kernel
      have hend := smallEpochEndAt_eq k
      omega
    have hnone : epochTxs (forcedAt 3 [1]) smallGenesis 0 = [] := by decide +kernel
    refine ⟨?_, ?_, ?_, ?_, ?_, ?_⟩
    · intro ev _ k _ _ tx _ b hb hin
      rw [hempty b hb] at hin
      exact absurd hin not_mem_nil
    · intro k j _ hk _
      obtain rfl := hjumped k hk
      have hfour : deadline smallGenesis ([daBlock (forcedAt 3 [1]) 2 []] ++
          [daBlock (forcedAt 3 [1]) 7 []]) 0 = 4 := by decide +kernel
      have hgrace := epochEnd_add_size_le_graceBoundary smallGenesis.daEpochForcedInclusion
        (notedBytes (daBlocks ([daBlock (forcedAt 3 [1]) 2 []] ++
          [daBlock (forcedAt 3 [1]) 7 []]))) (epochEndAt smallGenesis j)
      have hend := smallEpochEndAt_eq j
      have hsize : smallGenesis.daEpochForcedInclusion = 2 := rfl
      rw [hfour]
      unfold deadline
      omega
    · rintro ev - k - hk - ⟨hne, -⟩
      obtain rfl := hjumped k hk
      exact hne hnone
    · intro ev hev k _ hk _ tx htx
      obtain rfl := hjumped k hk
      rw [mem_singleton.mp hev] at htx
      exact absurd htx not_mem_nil
    · intro ev _ k _
      have hbytes : notedBytes (daBlocks ([daBlock (forcedAt 3 [1]) 2 []] ++
          [daBlock (forcedAt 3 [1]) 7 []])) =
          notedBytes (daBlocks [daBlock (forcedAt 3 [1]) 7 []]) := by
        funext h
        simp [notedBytes, daBlocks, SyncEvent.noted, daBlock, blockBytes]
      unfold deadline
      rw [hbytes]
    · intro ev _ k _ _ tx _ b hb hin
      have hb' : b ∈ daBlocks ([daBlock (forcedAt 3 [1]) 2 []] ++
          [daBlock (forcedAt 3 [1]) 7 []]) := by
        exact mem_append_left _ hb
      rw [hempty b hb'] at hin
      exact absurd hin not_mem_nil

end ChainSdk

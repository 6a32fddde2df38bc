/-
The forced-inclusion check over whole runs.

A check keeps the notes of a syncer a history of the blocks it has been given, for every DA content
its replies are true to, and its loop over the epochs comes to an end.
-/
import ChainSdk.Runs
import ChainSdk.SyncerNotes

namespace ChainSdk

open Except ForcedInclusionRetriever List Syncer

/-! ## Epochs as DA has them -/

/-- DA blobs are not empty, sha256 does not collide, epochs are not empty, and the forced-inclusion
namespace is configured. -/
structure ForcedInclusionSetting (da : ℕ → List Blob) (genesis : Genesis) (codec : Codec)
    (client : Client) : Prop where
  blobs_ne : ∀ h, ∀ b ∈ da h, b ≠ []
  sha256_injective : Function.Injective codec.sha256
  epochSize_pos : 0 < genesis.daEpochForcedInclusion
  configured : client.hasForcedNamespace = true

/-- Every reply of a check is truthful. -/
def VerifyEnv.Truthful (da : ℕ → List Blob) (env : VerifyEnv) : Prop :=
  ∀ epochEnd, (env.retrieval epochEnd).Truthful da

/-- No reply of a check is an error status. -/
def VerifyEnv.Answers (env : VerifyEnv) : Prop :=
  ∀ epochEnd, (env.retrieval epochEnd).Answers

def VerifyEnv.Succeeds (env : VerifyEnv) : Prop :=
  ∀ epochEnd, (env.retrieval epochEnd).Succeeds

theorem VerifyEnv.Succeeds.answers {env : VerifyEnv} (hsucc : env.Succeeds) : env.Answers :=
  fun epochEnd => RetrieveEnv.Succeeds.answers (hsucc epochEnd)

namespace Syncer

structure Serves (da : ℕ → List Blob) (genesis : Genesis) (client : Client)
    (r : ForcedInclusionRetriever) : Prop where
  client_eq : r.client = client
  size_eq : r.daEpochSize = genesis.daEpochForcedInclusion
  start_eq : r.daStartHeight = genesis.daStartHeight
  holds : r.asyncFetcher.Holds da

section

variable {da : ℕ → List Blob} {genesis : Genesis} {codec : Codec} {client : Client}
  {r : ForcedInclusionRetriever}

section

variable {env : RetrieveEnv} (hserves : Serves da genesis client r)
  (hset : ForcedInclusionSetting da genesis codec client) (henv : env.Truthful da)
include hserves hset henv

theorem Serves.retrieve (daHeight : ℕ) :
    Serves da genesis client (r.retrieveForcedIncludedTxs env daHeight).2 := by
  have hholds : (r.retrieveForcedIncludedTxs env daHeight).2.asyncFetcher.Holds da :=
    retrieve_holds hset.blobs_ne henv hserves.holds
  rw [retrieve_snd_eq]
  exact ⟨hserves.client_eq, hserves.size_eq, hserves.start_eq, hholds⟩

theorem Serves.epoch {k : ℕ}
    (hans : ∀ h, epochStartAt genesis k ≤ h → h ≤ epochEndAt genesis k → env.AnswersAt h) :
    (∃ h, (r.retrieveForcedIncludedTxs env (epochEndAt genesis k)).1 =
        .error (.heightFromFuture h)) ∨
      ∃ event, (r.retrieveForcedIncludedTxs env (epochEndAt genesis k)).1 = .ok event ∧
        event.txs = epochTxs da genesis k := by
  have hsize := hset.epochSize_pos
  have hlast : r.lastHeight (epochEndAt genesis k) = epochEndAt genesis k := by
    unfold lastHeight
    rw [hserves.size_eq, hserves.start_eq, epochEnd_epochEndAt hsize]
  have hfirst : r.firstHeight (epochEndAt genesis k) = epochStartAt genesis k := by
    unfold firstHeight
    rw [hserves.size_eq, hserves.start_eq, epochStart_epochEndAt hsize]
  have hstart : r.daStartHeight ≤ epochEndAt genesis k := by
    rw [hserves.start_eq]
    exact start_le_epochEndAt hsize k
  have hans' : ∀ h ∈ r.heights (epochEndAt genesis k), env.AnswersAt h := by
    intro h hh
    rw [heights, hfirst, hlast, mem_range'_1] at hh
    exact hans h hh.1 (by omega)
  rcases retrieve_honest hset.blobs_ne henv hans' hserves.holds
      (by rw [hserves.client_eq]; exact hset.configured) hstart with
    ⟨hne, -⟩ | hfuture | ⟨-, timestamp, hres⟩
  · exact absurd hlast.symm hne
  · exact .inl hfuture
  · refine .inr ⟨_, hres, ?_⟩
    unfold epochTxs
    rw [hfirst]

theorem Serves.epoch_ok (hsucc : env.Succeeds) (k : ℕ) :
    ∃ event, (r.retrieveForcedIncludedTxs env (epochEndAt genesis k)).1 = .ok event ∧
      event.txs = epochTxs da genesis k := by
  have hsize := hset.epochSize_pos
  rcases hserves.epoch (k := k) hset henv (fun h _ _ => hsucc.answers h) with ⟨h, hfuture⟩ | hok
  · have hlast : epochEndAt genesis k = r.lastHeight (epochEndAt genesis k) := by
      unfold lastHeight
      rw [hserves.size_eq, hserves.start_eq, epochEnd_epochEndAt hsize]
    have hstart : r.daStartHeight ≤ epochEndAt genesis k := by
      rw [hserves.start_eq]
      exact start_le_epochEndAt hsize k
    have hnow : ∀ h ∈ r.heights (epochEndAt genesis k),
        ¬ r.FutureAt env (epochEndAt genesis k) h := by
      -- a retrieval that succeeds is not of a height from the future
      rintro h - ⟨-, hcode⟩
      rcases hsucc h with hc | hc
      · rw [hc] at hcode
        exact absurd hcode (by decide)
      · rw [hc] at hcode
        exact absurd hcode (by decide)
    obtain ⟨event, hres⟩ := retrieve_ok_of_no_future
      (by rw [hserves.client_eq]; exact hset.configured) hstart hlast hnow
    simp [hres] at hfuture
  · exact hok

end

end

/-! ## A check, and what holds throughout -/

structure ScanInv (da : ℕ → List Blob) (genesis : Genesis) (codec : Codec) (client : Client)
    (hist : List PostedBlock) (k : ℕ) (scan : EpochScan) : Prop where
  genesis_eq : scan.syncer.genesis = genesis
  codec_eq : scan.syncer.codec = codec
  serves : Serves da genesis client scan.retriever
  tracks : Tracks hist scan.syncer
  epochEnd_eq : scan.epochEnd = epochEndAt genesis k
  cursor : CursorBefore genesis scan.syncer k

structure SyncerInv (da : ℕ → List Blob) (genesis : Genesis) (codec : Codec) (client : Client)
    (hist : List PostedBlock) (s : Syncer) : Prop where
  genesis_eq : s.genesis = genesis
  codec_eq : s.codec = codec
  serves : ∃ r, s.fiRetriever = some r ∧ Serves da genesis client r
  tracks : Tracks hist s
  cursor : s.lastCheckedEpochEnd = 0 ∨ ∃ j, s.lastCheckedEpochEnd = epochEndAt genesis j

section

variable {da : ℕ → List Blob} {genesis : Genesis} {codec : Codec} {client : Client}
  {hist : List PostedBlock} {env : VerifyEnv} {maxGas daHeight k : ℕ}

/-- What a check never touches: the chain it is for and the last state. -/
structure SameChain (s s' : Syncer) : Prop where
  genesis_eq : s'.genesis = s.genesis
  codec_eq : s'.codec = s.codec
  lastState_eq : s'.lastState = s.lastState

theorem SameChain.passEpoch {s s' : Syncer} (h : SameChain s s') (e : ℕ) :
    SameChain s (s'.passEpoch e) := by
  rcases s'.passEpoch_cases e with ⟨-, heq⟩ | ⟨-, hpruned, -⟩
  · rw [heq]
    exact h
  · exact ⟨hpruned.genesis_eq.trans h.genesis_eq, hpruned.codec_eq.trans h.codec_eq,
      hpruned.lastState_eq.trans h.lastState_eq⟩

/-- A check takes its notes and passes epochs that have ended before its DA height. -/
theorem verify_induct {P : Syncer → Prop} {s : Syncer} {data : Data}
    (hoff : s.fiRetriever = none ∨ s.epochSize = 0 → P s) (hrecord : P (s.record daHeight data.txs))
    (hpass : ∀ t e, P t → e < daHeight → P (t.passEpoch e))
    (hretriever : ∀ t r, P t → P { t with fiRetriever := some r }) :
    P (s.verifyForcedInclusionTxs env daHeight data).syncer := by
  unfold verifyForcedInclusionTxs
  rcases hr : s.fiRetriever with _ | r
  · exact hoff (.inl hr)
  dsimp only
  split_ifs with hsize
  · exact hoff (.inr hsize)
  · exact hrecord
  rcases env.executionInfo with err | info
  · exact hrecord
  dsimp only
  split
  · exact hrecord
  rename_i scanned hscan
  refine hretriever _ _ (Loops.iterate_invariant (checkEpoch env info.maxGas daHeight)
    (fun scan => P scan.syncer) (fun res => P res.syncer) ?_ ?_ hrecord hscan)
  · intro scan scan' hscan hround
    obtain ⟨hboundary, event, looked, -, -, rfl⟩ := checkEpoch_next hround
    exact hpass _ _ hscan ((Nat.le_add_right _ _).trans_lt hboundary)
  · intro scan res hscan hround
    rw [(checkEpoch_done hround).1]
    exact hscan

theorem verify_sameChain (s : Syncer) (env : VerifyEnv) (daHeight : ℕ) (data : Data) :
    SameChain s (s.verifyForcedInclusionTxs env daHeight data).syncer :=
  verify_induct (fun _ => ⟨rfl, rfl, rfl⟩) ⟨rfl, rfl, rfl⟩ (fun _ e h _ => h.passEpoch e)
    (fun _ _ h => ⟨h.genesis_eq, h.codec_eq, h.lastState_eq⟩)

theorem ScanInv.epochSize_eq {scan : EpochScan}
    (hinv : ScanInv da genesis codec client hist k scan) :
    scan.syncer.epochSize = genesis.daEpochForcedInclusion := by
  unfold epochSize
  rw [hinv.genesis_eq]

theorem ScanInv.boundary_eq {scan : EpochScan} (hinv : ScanInv da genesis codec client hist k scan)
    (hsize : 0 < genesis.daEpochForcedInclusion) :
    graceBoundary scan.syncer.epochSize scan.syncer.daBlockBytes scan.epochEnd =
      graceBoundary genesis.daEpochForcedInclusion (notedBytes hist) (epochEndAt genesis k) := by
  rw [hinv.epochSize_eq, hinv.epochEnd_eq]
  exact graceBoundary_congr hsize
    (fun h hge _ => hinv.tracks.bytes_eq h (hinv.cursor.unpruned hsize hge))

section

variable {scan scan' : EpochScan} {res : ScanResult}
  (hinv : ScanInv da genesis codec client hist k scan)
  (hset : ForcedInclusionSetting da genesis codec client) (henv : env.Truthful da)
include hinv hset henv

theorem ScanInv.next (h : checkEpoch env maxGas daHeight scan = .next scan') :
    ScanInv da genesis codec client hist (k + 1) scan' := by
  have hsize := hset.epochSize_pos
  obtain ⟨-, event, looked, -, -, rfl⟩ := checkEpoch_next h
  have hsame : SameChain scan.syncer (scan.syncer.passEpoch scan.epochEnd) :=
    SameChain.passEpoch ⟨rfl, rfl, rfl⟩ _
  refine ⟨hsame.genesis_eq.trans hinv.genesis_eq, hsame.codec_eq.trans hinv.codec_eq, ?_, ?_, ?_,
    ?_⟩
  · exact hinv.serves.retrieve hset (henv _) _
  · exact hinv.tracks.passEpoch (by rw [hinv.codec_eq]; exact hset.sha256_injective) _
  · rw [hinv.epochSize_eq, hinv.epochEnd_eq, epochEndAt_succ hsize]
  · rw [hinv.epochEnd_eq]
    exact hinv.cursor.passEpoch hsize

theorem ScanInv.next_looks
    (hans : ∀ h, epochStartAt genesis k ≤ h → h ≤ epochEndAt genesis k →
      (env.retrieval (epochEndAt genesis k)).AnswersAt h)
    (h : checkEpoch env maxGas daHeight scan = .next scan') :
    graceBoundary genesis.daEpochForcedInclusion (notedBytes hist) (epochEndAt genesis k) <
        daHeight ∧
      ∃ looked, LooksUp env maxGas (epochTxs da genesis k) looked ∧
        scan'.maliciousCount = scan.maliciousCount + (scan.syncer.unseen looked).length ∧
        scan'.compared = scan.compared ++ looked := by
  obtain ⟨hboundary, event, looked, hevent, hlooks, rfl⟩ := checkEpoch_next h
  rw [hinv.boundary_eq hset.epochSize_pos] at hboundary
  refine ⟨hboundary, looked, ?_, rfl, rfl⟩
  rw [hinv.epochEnd_eq] at hevent
  rcases hinv.serves.epoch hset (henv _) hans with ⟨h, hfuture⟩ | ⟨event', hevent', htxs⟩
  · rw [hfuture] at hevent
    simp at hevent
  · rw [hevent'] at hevent
    obtain rfl := ok.inj hevent
    rwa [← htxs]

theorem ScanInv.done (h : checkEpoch env maxGas daHeight scan = .done res) :
    SyncerInv da genesis codec client hist
      { res.syncer with fiRetriever := some res.retriever } := by
  obtain ⟨hsyncer, -, hretriever, -⟩ := checkEpoch_done h
  rw [hsyncer]
  refine ⟨hinv.genesis_eq, hinv.codec_eq, ⟨res.retriever, rfl, ?_⟩,
    ⟨hinv.tracks.seen_of_posted, hinv.tracks.posted_of_seen, hinv.tracks.noted_at,
      hinv.tracks.bytes_eq⟩, ?_⟩
  · rcases hretriever with heq | heq
    · rw [heq]
      exact hinv.serves
    · rw [heq]
      exact hinv.serves.retrieve hset (henv _) _
  · rcases hinv.cursor with hzero | ⟨j, -, hj⟩
    · exact .inl hzero
    · exact .inr ⟨j, hj⟩

theorem ScanInv.done_verdict
    (hsucc : env.Succeeds) (h : checkEpoch env maxGas daHeight scan = .done res) :
    daHeight ≤ graceBoundary genesis.daEpochForcedInclusion (notedBytes hist)
          (epochEndAt genesis k) ∧ res.verdict = .ok scan.maliciousCount ∨
      graceBoundary genesis.daEpochForcedInclusion (notedBytes hist) (epochEndAt genesis k) <
          daHeight ∧ epochTxs da genesis k ≠ [] ∧
        ∃ e, env.filter.filterTxs (epochTxs da genesis k) defaultMaxBlobSize maxGas true =
            .error e ∧ res.verdict = .error (.filter e) := by
  obtain ⟨event, hevent, htxs⟩ := hinv.serves.epoch_ok hset (henv scan.epochEnd)
    (hsucc scan.epochEnd) k
  rw [← hinv.epochEnd_eq] at hevent
  obtain ⟨-, -, -, hverdict⟩ := checkEpoch_done h
  rw [hinv.boundary_eq hset.epochSize_pos] at hverdict
  rcases hverdict with hboundary | ⟨herr, -⟩ | ⟨e, herr, -⟩ |
    ⟨event', e, hboundary, hevent', hne, herr, hv⟩
  · exact .inl hboundary
  -- the epoch is there, so the retrieval has not failed
  · simp [hevent] at herr
  · simp [hevent] at herr
  · rw [hevent] at hevent'
    obtain rfl := ok.inj hevent'
    rw [htxs] at hne herr
    exact .inr ⟨hboundary, hne, e, herr, hv⟩

end

theorem SyncerInv.record {s : Syncer} (hinv : SyncerInv da genesis codec client hist s)
    (daHeight : ℕ) (txs : List Tx) :
    SyncerInv da genesis codec client (hist ++ [⟨daHeight, txs⟩]) (s.record daHeight txs) :=
  ⟨hinv.genesis_eq, hinv.codec_eq, hinv.serves, hinv.tracks.record daHeight txs, hinv.cursor⟩

theorem SyncerInv.scan {s : Syncer} {r : ForcedInclusionRetriever}
    (hinv : SyncerInv da genesis codec client hist s)
    (hsize : 0 < genesis.daEpochForcedInclusion) (hr : s.fiRetriever = some r) :
    ∃ k, s.startEpochEnd = epochEndAt genesis k ∧
      ScanInv da genesis codec client hist k ⟨s, r, s.startEpochEnd, 0, []⟩ := by
  obtain ⟨k, hstart, hcursor⟩ := startEpochEnd_eq hinv.genesis_eq hsize hinv.cursor
  obtain ⟨r', hr', hserves⟩ := hinv.serves
  obtain rfl : r' = r := Option.some.inj (hr'.symm.trans hr)
  exact ⟨k, hstart, hinv.genesis_eq, hinv.codec_eq, hserves, hinv.tracks, hstart, hcursor⟩

section

variable {s : Syncer} {k : ℕ} (hsize : 0 < genesis.daEpochForcedInclusion)
  (hinv : SyncerInv da genesis codec client hist s)
include hsize hinv

theorem SyncerInv.no_end_between (hcursor : s.lastCheckedEpochEnd < epochEndAt genesis k) :
    s.startEpochEnd ≤ epochEndAt genesis k := by
  rcases hinv.cursor with hzero | ⟨i, hi⟩
  -- nothing checked so far: the loop begins at the first epoch
  · have hcursor₀ : CursorBefore genesis s 0 := .inl hzero
    exact hcursor₀.startEpochEnd_le hinv.genesis_eq hsize (Nat.zero_le k)
  · rw [hi] at hcursor
    have hlt := (epochEndAt_strictMono hsize).lt_iff_lt.mp hcursor
    have hcursor' : CursorBefore genesis s (i + 1) := .inr ⟨i, rfl, hi⟩
    exact hcursor'.startEpochEnd_le hinv.genesis_eq hsize hlt

theorem SyncerInv.end_lt_start (hpos : 0 < epochEndAt genesis k)
    (hreached : epochEndAt genesis k ≤ s.lastCheckedEpochEnd) :
    epochEndAt genesis k < s.startEpochEnd := by
  obtain ⟨j, hstart, hbefore⟩ := startEpochEnd_eq hinv.genesis_eq hsize hinv.cursor
  rw [hstart]
  rcases hbefore with hzero | ⟨i, rfl, hi⟩
  · omega
  · rw [epochEndAt_succ hsize]
    omega

end

section

variable {s : Syncer} (hinv : SyncerInv da genesis codec client hist s)
  (hset : ForcedInclusionSetting da genesis codec client) (henv : env.Truthful da)
include hinv hset henv

theorem SyncerInv.scan_exits {r : ForcedInclusionRetriever}
    (hr : s.fiRetriever = some r) (maxGas daHeight : ℕ) :
    ∃ res, s.scanEpochs r env maxGas daHeight = some res := by
  have hsize := hset.epochSize_pos
  obtain ⟨k, -, hscan⟩ := hinv.scan hsize hr
  refine Loops.iterate_exits (checkEpoch env maxGas daHeight)
    (fun scan => ∃ k, ScanInv da genesis codec client hist k scan)
    (fun scan => daHeight - scan.epochEnd) ?_ ⟨k, hscan⟩ (by dsimp only; omega)
  rintro scan scan' ⟨k, hk⟩ hround
  refine ⟨⟨k + 1, hk.next hset henv hround⟩, ?_⟩
  -- the measure is the distance from the epoch's end to the height of the check
  obtain ⟨hboundary, event, looked, -, -, rfl⟩ := checkEpoch_next hround
  have hend : scan.epochEnd ≤
      graceBoundary scan.syncer.epochSize scan.syncer.daBlockBytes scan.epochEnd :=
    Nat.le_add_right _ _
  dsimp only
  rw [hk.epochSize_eq]
  omega

theorem SyncerInv.verify_cases (daHeight : ℕ) (data : Data) :
    s.verifyForcedInclusionTxs env daHeight data =
          ⟨(s.verifyForcedInclusionTxs env daHeight data).result,
            s.record daHeight data.txs, []⟩ ∧
        (∀ n, (s.verifyForcedInclusionTxs env daHeight data).result ≠
          .error (.maliciousProposer n)) ∧
        (daHeight < genesis.daStartHeight ∨ daHeight < s.lastState.daHeight ∨
          ∃ e, env.executionInfo = .error e) ∨
      ∃ info r res, env.executionInfo = .ok info ∧ s.fiRetriever = some r ∧
        genesis.daStartHeight ≤ daHeight ∧ s.lastState.daHeight ≤ daHeight ∧
        (s.record daHeight data.txs).scanEpochs r env info.maxGas daHeight = some res ∧
        s.verifyForcedInclusionTxs env daHeight data =
          ⟨res.result, { res.syncer with fiRetriever := some res.retriever },
            res.compared⟩ := by
  obtain ⟨r, hr, hserves⟩ := hinv.serves
  have hpos : s.epochSize ≠ 0 := by
    unfold epochSize
    rw [hinv.genesis_eq]
    exact hset.epochSize_pos.ne'
  unfold verifyForcedInclusionTxs
  rw [hr]
  dsimp only
  rw [if_neg hpos]
  have hgenesis : (s.record daHeight data.txs).genesis = genesis := hinv.genesis_eq
  rw [hgenesis]
  -- the guards after the notes have been taken, in the order of the source
  by_cases hearly : daHeight < genesis.daStartHeight ∨
      daHeight < (s.record daHeight data.txs).lastState.daHeight
  · rw [if_pos hearly]
    refine .inl ⟨rfl, fun n => by simp, ?_⟩
    rcases hearly with hlt | hlt
    · exact .inl hlt
    · exact .inr (.inl hlt)
  · rw [if_neg hearly]
    have hlate := not_or.mp hearly
    rcases hinfo : env.executionInfo with e | info
    · exact .inl ⟨rfl, fun n => by simp, .inr (.inr ⟨e, rfl⟩)⟩
    obtain ⟨res, hres⟩ := (hinv.record daHeight data.txs).scan_exits hset henv hr info.maxGas
      daHeight
    refine .inr ⟨info, r, res, rfl, rfl, Nat.not_lt.mp hlate.1, Nat.not_lt.mp hlate.2, hres, ?_⟩
    dsimp only
    rw [hres]

theorem SyncerInv.verify (daHeight : ℕ) (data : Data) :
    SyncerInv da genesis codec client (hist ++ [⟨daHeight, data.txs⟩])
      (s.verifyForcedInclusionTxs env daHeight data).syncer := by
  have hrecord := hinv.record daHeight data.txs
  rcases hinv.verify_cases hset henv daHeight data with
    ⟨heq, -⟩ | ⟨info, r, res, -, hr, -, -, hres, heq⟩
  · rw [heq]
    exact hrecord
  rw [heq]
  obtain ⟨k, -, hscan⟩ := hrecord.scan hset.epochSize_pos hr
  refine Loops.iterate_invariant (checkEpoch env info.maxGas daHeight)
    (fun scan => ∃ k, ScanInv da genesis codec client (hist ++ [⟨daHeight, data.txs⟩]) k scan)
    (fun res => SyncerInv da genesis codec client (hist ++ [⟨daHeight, data.txs⟩])
      { res.syncer with fiRetriever := some res.retriever }) ?_ ?_ ⟨k, hscan⟩ hres
  · rintro scan scan' ⟨k, hk⟩ hround
    exact ⟨k + 1, hk.next hset henv hround⟩
  · rintro scan res ⟨k, hk⟩ hround
    exact hk.done hset henv hround

end

end

end Syncer

/-! ## Runs -/

def SyncEvent.noted (ev : SyncEvent) : List PostedBlock :=
  if ev.validated = true ∧ ev.source = .sourceDA then [⟨ev.daHeight, ev.data.txs⟩] else []

def daBlocks (events : List SyncEvent) : List PostedBlock := events.flatMap SyncEvent.noted

theorem daBlocks_append (pre post : List SyncEvent) :
    daBlocks (pre ++ post) = daBlocks pre ++ daBlocks post :=
  flatMap_append

theorem daBlocks_cons (ev : SyncEvent) (events : List SyncEvent) :
    daBlocks (ev :: events) = ev.noted ++ daBlocks events :=
  flatMap_cons

/-- The transactions of an epoch that the check made at an event accepts. -/
def VerifyEnv.okTxs (env : VerifyEnv) (txs : List Tx) : List Tx :=
  match env.executionInfo with
  | .error _ => []
  | .ok info =>
    match env.filter.filterTxs txs defaultMaxBlobSize info.maxGas true with
    | .error _ => []
    | .ok statuses => accepted txs statuses

theorem Syncer.LooksUp.eq_okTxs {env : VerifyEnv} {info : ExecutionInfo} {txs looked : List Tx}
    (hlooks : Syncer.LooksUp env info.maxGas txs looked) (hinfo : env.executionInfo = .ok info) :
    looked = env.okTxs txs := by
  unfold VerifyEnv.okTxs
  rw [hinfo]
  dsimp only
  rcases hlooks with ⟨rfl, rfl⟩ | ⟨statuses, hfilter, rfl⟩
  · -- an empty epoch is not filtered, and filtering it would accept nothing
    split <;> rfl
  · rw [hfilter]

namespace Syncer

section

variable {da : ℕ → List Blob} {genesis : Genesis} {codec : Codec} {client : Client}
  {hist : List PostedBlock}

/-- Why an event has not been applied. -/
inductive NotApplied (ev : SyncEvent) : SyncError → Prop
  | invalidBlock (hvalid : ev.validated = false) : NotApplied ev .invalidBlock
  | malicious (n : ℕ) : NotApplied ev (.verify (.maliciousProposer n))
  | applyBlock (msg : String) (happ : ev.appHash = .error msg) : NotApplied ev (.applyBlock msg)
  | commit (hcommitted : ev.committed = false) : NotApplied ev .commit

theorem applyEvent_cases (s : Syncer) (ev : SyncEvent) :
    (∃ root, ev.appHash = .ok root ∧ s.applyEvent ev = (.ok (), { s with
        lastState := { s.lastState.nextState s.codec ev.header root with
          daHeight := max s.lastState.daHeight ev.daHeight } })) ∨
      ∃ e, s.applyEvent ev = (.error e, s) ∧ NotApplied ev e ∧ ∀ err, e ≠ .verify err := by
  unfold applyEvent
  rcases happ : ev.appHash with msg | root
  · exact .inr ⟨_, rfl, .applyBlock msg happ, by simp⟩
  · rcases hcommitted : ev.committed with _ | _
    · exact .inr ⟨_, rfl, .commit hcommitted, by simp⟩
    · exact .inl ⟨root, rfl, rfl⟩

theorem applyEvent_eq (s : Syncer) (ev : SyncEvent) :
    (s.applyEvent ev).2 = { s with lastState := (s.applyEvent ev).2.lastState } := by
  rcases s.applyEvent_cases ev with ⟨root, -, heq⟩ | ⟨e, heq, -⟩
  · rw [heq]
  · rw [heq]

theorem applyEvent_ne_verify (s : Syncer) (ev : SyncEvent) (err : VerifyError) :
    (s.applyEvent ev).1 ≠ .error (.verify err) := by
  rcases s.applyEvent_cases ev with ⟨root, -, heq⟩ | ⟨e, heq, -, hne⟩
  · simp [heq]
  · simp [heq, hne err]

theorem SyncerInv.applyEvent {s : Syncer} (hinv : SyncerInv da genesis codec client hist s)
    (ev : SyncEvent) : SyncerInv da genesis codec client hist (s.applyEvent ev).2 := by
  rw [applyEvent_eq]
  exact ⟨hinv.genesis_eq, hinv.codec_eq, hinv.serves,
    ⟨hinv.tracks.seen_of_posted, hinv.tracks.posted_of_seen, hinv.tracks.noted_at,
      hinv.tracks.bytes_eq⟩, hinv.cursor⟩

section

variable {s : Syncer} {ev : SyncEvent} (hvalid : ev.validated = true)
  (hsource : ev.source = .sourceDA)
include hvalid hsource

theorem trySyncNextBlock_da :
    (∃ n, (s.verifyForcedInclusionTxs ev.env ev.daHeight ev.data).result =
          .error (.maliciousProposer n) ∧
        s.trySyncNextBlock ev = (.error (.verify (.maliciousProposer n)),
          (s.verifyForcedInclusionTxs ev.env ev.daHeight ev.data).syncer)) ∨
      (∀ n, (s.verifyForcedInclusionTxs ev.env ev.daHeight ev.data).result ≠
          .error (.maliciousProposer n)) ∧
        s.trySyncNextBlock ev =
          (s.verifyForcedInclusionTxs ev.env ev.daHeight ev.data).syncer.applyEvent ev := by
  unfold trySyncNextBlock
  rw [hvalid, hsource]
  simp only [Bool.not_true, Bool.false_eq_true, if_false]
  split
  · rename_i n hres
    exact .inl ⟨n, hres, rfl⟩
  · rename_i hnot
    exact .inr ⟨fun n hres => hnot n hres, rfl⟩

theorem accuses_iff :
    s.Accuses ev ↔ ∃ n, (s.verifyForcedInclusionTxs ev.env ev.daHeight ev.data).result =
      .error (.maliciousProposer n) := by
  unfold Accuses
  rcases trySyncNextBlock_da (s := s) hvalid hsource with ⟨n, hres, heq⟩ | ⟨hnot, heq⟩
  · rw [heq]
    exact ⟨fun _ => ⟨n, hres⟩, fun _ => ⟨n, rfl⟩⟩
  · rw [heq]
    refine ⟨?_, fun ⟨n, hres⟩ => absurd hres (hnot n)⟩
    rintro ⟨n, hres⟩
    exact absurd hres (applyEvent_ne_verify _ _ _)

theorem step_eq :
    ∃ state, s.step ev = { (s.verifyForcedInclusionTxs ev.env ev.daHeight ev.data).syncer with
      lastState := state } := by
  unfold step
  rcases trySyncNextBlock_da (s := s) hvalid hsource with ⟨n, -, heq⟩ | ⟨-, heq⟩
  · rw [heq]
    exact ⟨_, rfl⟩
  · rw [heq, applyEvent_eq]
    exact ⟨_, rfl⟩

end

theorem trySyncNextBlock_unchecked (s : Syncer) {ev : SyncEvent}
    (hda : ¬ (ev.validated = true ∧ ev.source = .sourceDA)) :
    s.trySyncNextBlock ev = (.error .invalidBlock, s) ∧ ev.validated = false ∨
      s.trySyncNextBlock ev = s.applyEvent ev := by
  unfold trySyncNextBlock
  rcases hvalid : ev.validated with _ | _
  · exact .inl ⟨rfl, rfl⟩
  · rcases hsource : ev.source with _ | _
    · exact absurd ⟨hvalid, hsource⟩ hda
    · exact .inr rfl

theorem trySyncNextBlock_cases (s : Syncer) (ev : SyncEvent) :
    ∃ checked, SameChain s checked ∧
      ((∃ root, ev.appHash = .ok root ∧ s.trySyncNextBlock ev = (.ok (), { checked with
          lastState := { s.lastState.nextState s.codec ev.header root with
            daHeight := max s.lastState.daHeight ev.daHeight } })) ∨
        ∃ e, s.trySyncNextBlock ev = (.error e, checked) ∧ NotApplied ev e) := by
  obtain ⟨checked, hsame, hends⟩ : ∃ checked, SameChain s checked ∧
      (s.trySyncNextBlock ev = checked.applyEvent ev ∨
        ∃ e, s.trySyncNextBlock ev = (.error e, checked) ∧ NotApplied ev e) := by
    have hsame := s.verify_sameChain ev.env ev.daHeight ev.data
    by_cases hda : ev.validated = true ∧ ev.source = .sourceDA
    · rcases trySyncNextBlock_da (s := s) hda.1 hda.2 with ⟨n, -, heq⟩ | ⟨-, heq⟩
      · exact ⟨_, hsame, .inr ⟨_, heq, .malicious n⟩⟩
      · exact ⟨_, hsame, .inl heq⟩
    · rcases s.trySyncNextBlock_unchecked hda with ⟨heq, hvalid⟩ | heq
      · exact ⟨s, ⟨rfl, rfl, rfl⟩, .inr ⟨_, heq, .invalidBlock hvalid⟩⟩
      · exact ⟨s, ⟨rfl, rfl, rfl⟩, .inl heq⟩
  refine ⟨checked, hsame, ?_⟩
  rcases hends with heq | hfailed
  · rw [heq, ← hsame.lastState_eq, ← hsame.codec_eq]
    exact (checked.applyEvent_cases ev).imp_right fun ⟨e, hfailed, hwhy, _⟩ => ⟨e, hfailed, hwhy⟩
  · exact .inr hfailed

theorem notApplied_of_error {s : Syncer} {ev : SyncEvent} {e : SyncError}
    (h : (s.trySyncNextBlock ev).1 = .error e) : NotApplied ev e := by
  obtain ⟨checked, -, ⟨root, -, heq⟩ | ⟨e', heq, hwhy⟩⟩ := s.trySyncNextBlock_cases ev
  · simp [heq] at h
  · rw [heq] at h
    exact error.inj h ▸ hwhy

theorem SyncerInv.step {s : Syncer} (hinv : SyncerInv da genesis codec client hist s)
    (hset : ForcedInclusionSetting da genesis codec client) {ev : SyncEvent}
    (henv : ev.env.Truthful da) :
    SyncerInv da genesis codec client (hist ++ ev.noted) (s.step ev) := by
  unfold Syncer.step SyncEvent.noted
  by_cases hda : ev.validated = true ∧ ev.source = .sourceDA
  · rw [if_pos hda]
    have hverify := hinv.verify hset henv ev.daHeight ev.data
    rcases trySyncNextBlock_da (s := s) hda.1 hda.2 with ⟨n, -, heq⟩ | ⟨-, heq⟩
    · rw [heq]
      exact hverify
    · rw [heq]
      exact hverify.applyEvent ev
  · rw [if_neg hda, append_nil]
    rcases s.trySyncNextBlock_unchecked hda with ⟨heq, -⟩ | heq
    · rw [heq]
      exact hinv
    · rw [heq]
      exact hinv.applyEvent ev

theorem step_daHeight_le (s : Syncer) (ev : SyncEvent) :
    (s.step ev).lastState.daHeight ≤ max s.lastState.daHeight ev.daHeight := by
  unfold step
  obtain ⟨checked, hsame, ⟨root, -, heq⟩ | ⟨e, heq, -⟩⟩ := s.trySyncNextBlock_cases ev
  · rw [heq]
  · rw [heq, hsame.lastState_eq]
    exact le_max_left _ _

theorem SyncerInv.run {s : Syncer} (hinv : SyncerInv da genesis codec client hist s)
    (hset : ForcedInclusionSetting da genesis codec client) {events : List SyncEvent}
    (henv : ∀ ev ∈ events, ev.env.Truthful da) :
    SyncerInv da genesis codec client (hist ++ daBlocks events) (events.foldl Syncer.step s) := by
  have hrun := Runs.history_invariant Syncer.step (fun _ ev => ev.noted)
    (fun s hist => SyncerInv da genesis codec client hist s)
    (fun _ ev => ev.env.Truthful da)
    (fun s ev hist hinv henv => hinv.step hset henv) hinv
    (Runs.steps_of_forall henv)
  rwa [Runs.outputs_const] at hrun

theorem SyncerInv.ofState (state : State) :
    SyncerInv da genesis codec client [] (ofState genesis codec client state) where
  genesis_eq := rfl
  codec_eq := rfl
  serves := ⟨_, rfl, rfl, rfl, rfl, AsyncBlockRetriever.new_holds _ _ _⟩
  tracks := by
    refine ⟨fun b hb => absurd hb not_mem_nil, fun x hx => ?_, fun h x hx => ?_,
      fun h _ => rfl⟩
    · exact absurd hx (Finset.notMem_empty x)
    · exact absurd hx not_mem_nil
  cursor := initialCheckedEpochEnd_eq genesis state.daHeight

end

end Syncer

end ChainSdk

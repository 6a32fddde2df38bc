/-
Verdicts of the forced-inclusion check, call after call.

`VerifyForcedInclusionTxs` moves its cursor past an epoch, and prunes the epoch's notes, as soon as
it has looked the epoch up, whether or not transactions were missing; the error is returned only
after the loop.
-/
import ChainSdk.SyncedChain

namespace ChainSdk

open Function List

/-! ## Calls of the check -/

/-- A call of `VerifyForcedInclusionTxs`, with the world it is made in. -/
structure VerifyCall where
  env : VerifyEnv
  daHeight : ℕ
  data : Data

namespace Syncer

section

variable (s : Syncer)

def verify (call : VerifyCall) : Verified :=
  s.verifyForcedInclusionTxs call.env call.daHeight call.data

def afterCall (call : VerifyCall) : Syncer := (s.verify call).syncer

def Condemns (call : VerifyCall) : Prop :=
  ∃ n, (s.verify call).result = .error (.maliciousProposer n)

/-- The transactions a call has looked up and that are not among the notes it leaves. -/
def missing (call : VerifyCall) : List Tx :=
  (s.verify call).compared.filter
    (fun tx => decide (s.hashTx tx ∉ (s.afterCall call).seenBlockTxs))

/-- A later call, in the same world and at no lower DA height, whose block has none of the missing
transactions. -/
structure Repeats (s : Syncer) (call later : VerifyCall) : Prop where
  env_eq : later.env = call.env
  daHeight_le : call.daHeight ≤ later.daHeight
  missing_not_mem : ∀ tx ∈ s.missing call, tx ∉ later.data.txs

/-- Every call that repeats this one returns a verdict. -/
def VerdictStable (call : VerifyCall) : Prop :=
  ∀ later : List VerifyCall, (∀ call' ∈ later, s.Repeats call call') →
    ∀ p ∈ Runs.steps afterCall (s.afterCall call) later, p.1.Condemns p.2

/-! ## Where a call resumes -/

def firstEpochEnd : ℕ := s.genesis.daStartHeight + s.epochSize - 1

end

/-- The next call would begin where the loop is, unless the loop has only looked at an epoch that
ends at DA height 0. -/
def EpochScan.Resumes (scan : EpochScan) : Prop :=
  scan.syncer.startEpochEnd = scan.epochEnd ∨
    scan.syncer.lastCheckedEpochEnd = 0 ∧ scan.syncer.firstEpochEnd = 0 ∧ scan.epochEnd = 1

section

variable {s : Syncer} {daHeight size : ℕ} {bytes : ℕ → ℕ} {e : ℕ}

theorem startEpochEnd_of_checked (hpos : s.lastCheckedEpochEnd ≠ 0)
    (hfirst : s.firstEpochEnd ≤ s.lastCheckedEpochEnd) :
    s.startEpochEnd = s.lastCheckedEpochEnd + s.epochSize := by
  unfold firstEpochEnd at hfirst
  unfold startEpochEnd
  rw [if_neg (by omega)]

theorem lastChecked_lt_start (hsize : s.epochSize ≠ 0) :
    s.firstEpochEnd ≤ s.startEpochEnd ∧
      (s.lastCheckedEpochEnd < s.startEpochEnd ∨
        s.lastCheckedEpochEnd = 0 ∧ s.firstEpochEnd = 0 ∧ s.startEpochEnd = 0) := by
  unfold firstEpochEnd startEpochEnd
  dsimp only
  split_ifs with hbefore
  · omega
  · omega

theorem EpochScan.Resumes.next {env : VerifyEnv} {maxGas : ℕ} {scan scan' : EpochScan}
    (hsize : scan.syncer.epochSize ≠ 0) (hscan : scan.Resumes)
    (hround : checkEpoch env maxGas daHeight scan = .next scan') : scan'.Resumes := by
  obtain ⟨-, event, looked, -, -, rfl⟩ := checkEpoch_next hround
  have hgenesis : (scan.syncer.passEpoch scan.epochEnd).genesis = scan.syncer.genesis :=
    (SameChain.passEpoch ⟨rfl, rfl, rfl⟩ _).genesis_eq
  have hsize' : (scan.syncer.passEpoch scan.epochEnd).epochSize = scan.syncer.epochSize := by
    unfold epochSize
    rw [hgenesis]
  have hfirst' : (scan.syncer.passEpoch scan.epochEnd).firstEpochEnd =
      scan.syncer.firstEpochEnd := by
    unfold firstEpochEnd
    rw [hsize', hgenesis]
  obtain ⟨hle, hcursor⟩ := lastChecked_lt_start hsize
  rcases scan.syncer.passEpoch_cases scan.epochEnd with ⟨hbelow, heq⟩ | ⟨habove, -, hmoved⟩
  · -- the epoch is not above the cursor: it ends at DA height 0
    right
    dsimp only
    rw [heq]
    unfold firstEpochEnd at hle hcursor ⊢
    rcases hscan with hat | ⟨hzero, hfirst, hone⟩
    · omega
    · omega
  · left
    dsimp only
    rw [startEpochEnd_of_checked, hmoved, hsize']
    · omega
    · rcases hscan with hat | ⟨-, hfirst, -⟩
      · omega
      · omega

theorem graceBoundary_le (size : ℕ) (bytes : ℕ → ℕ) (e : ℕ) :
    graceBoundary size bytes e ≤ e + 4 * size := by
  have hgrace : gracePeriodForEpoch bytes (e - (size - 1)) e ≤ 4 := by
    unfold gracePeriodForEpoch
    split_ifs
    · decide
    · exact min_le_right _ _
  exact Nat.add_le_add_left (Nat.mul_le_mul_right size hgrace) e

theorem graceBoundary_update (hlt : e < daHeight) (n : ℕ) :
    graceBoundary size (update bytes daHeight n) e = graceBoundary size bytes e := by
  have hbytes : ∀ start, start ≤ e →
      (List.range' start (e - start + 1)).map (update bytes daHeight n) =
        (List.range' start (e - start + 1)).map bytes := by
    intro start hstart
    refine map_congr_left (fun h hh => ?_)
    rw [mem_range'_1] at hh
    exact update_of_ne (by omega) _ _
  unfold graceBoundary gracePeriodForEpoch
  dsimp only
  rw [hbytes _ (Nat.sub_le _ _)]

theorem le_graceBoundary_update (hle : daHeight ≤ graceBoundary size bytes e) (n : ℕ) :
    daHeight ≤ graceBoundary size (update bytes daHeight n) e := by
  by_cases hwithin : daHeight ≤ e
  · exact (hwithin.trans (Nat.le_add_right e size)).trans
      (epochEnd_add_size_le_graceBoundary size _ e)
  · rwa [graceBoundary_update (Nat.not_le.mp hwithin)]

end

/-! ## One call -/

/-- What every round of a call of `s` keeps. -/
structure EpochScan.Of (s : Syncer) (scan : EpochScan) : Prop where
  sameChain : SameChain s scan.syncer
  resumes : scan.Resumes
  counted : 0 < scan.maliciousCount →
    ∃ tx ∈ scan.compared, s.hashTx tx ∉ scan.syncer.seenBlockTxs

section

variable {s : Syncer} {env : VerifyEnv} {maxGas daHeight : ℕ} {call : VerifyCall}

theorem SameChain.epochSize_eq {s' : Syncer} (h : SameChain s s') :
    s'.epochSize = s.epochSize := by
  unfold epochSize
  rw [h.genesis_eq]

theorem passEpoch_seen_subset (s : Syncer) (e : ℕ) :
    (s.passEpoch e).seenBlockTxs ⊆ s.seenBlockTxs := by
  intro x hx
  rcases s.passEpoch_cases e with ⟨-, heq⟩ | ⟨-, hpruned, -⟩
  · rwa [heq] at hx
  · exact ((hpruned.mem_seen x).mp hx).1

theorem EpochScan.Of.next {scan scan' : EpochScan} (hsize : s.epochSize ≠ 0) (hscan : scan.Of s)
    (hround : checkEpoch env maxGas daHeight scan = .next scan') : scan'.Of s := by
  have hresumes := hscan.resumes.next (by rwa [hscan.sameChain.epochSize_eq]) hround
  obtain ⟨-, event, looked, -, -, rfl⟩ := checkEpoch_next hround
  refine ⟨hscan.sameChain.passEpoch _, hresumes, fun hpos => ?_⟩
  rcases Nat.add_pos_iff_pos_or_pos.mp hpos with hbefore | hhere
  · obtain ⟨tx, htx, hnot⟩ := hscan.counted hbefore
    exact ⟨tx, mem_append_left _ htx, fun hin => hnot (passEpoch_seen_subset _ _ hin)⟩
  obtain ⟨tx, htx⟩ := exists_mem_of_length_pos hhere
  obtain ⟨hlooked, hunseen⟩ := mem_filter.mp htx
  refine ⟨tx, mem_append_right _ hlooked, fun hin => of_decide_eq_true hunseen ?_⟩
  have hhash : scan.syncer.hashTx tx = s.hashTx tx := by
    unfold hashTx
    rw [hscan.sameChain.codec_eq]
  rw [hhash]
  exact passEpoch_seen_subset _ _ hin

theorem scanEpochs_exit {r : ForcedInclusionRetriever} {res : ScanResult} (hsize : s.epochSize ≠ 0)
    (hres : s.scanEpochs r env maxGas daHeight = some res) :
    ∃ scan : EpochScan, scan.Of s ∧ checkEpoch env maxGas daHeight scan = .done res := by
  refine Loops.iterate_invariant (checkEpoch env maxGas daHeight) (fun scan => scan.Of s)
    (fun res => ∃ scan : EpochScan, scan.Of s ∧ checkEpoch env maxGas daHeight scan = .done res)
    ?_ ?_ ?_ hres
  · exact fun scan scan' hscan hround => hscan.next hsize hround
  · exact fun scan res hscan hround => ⟨scan, hscan, hround⟩
  · exact ⟨⟨rfl, rfl, rfl⟩, .inl rfl, fun hpos => absurd hpos (Nat.lt_irrefl 0)⟩

theorem Condemns.scanned (hcondemns : s.Condemns call) :
    s.epochSize ≠ 0 ∧ ∃ r maxGas res,
      (s.record call.daHeight call.data.txs).scanEpochs r call.env maxGas call.daHeight =
        some res ∧
      s.verify call =
        ⟨res.result, { res.syncer with fiRetriever := some res.retriever }, res.compared⟩ := by
  obtain ⟨n, hresult⟩ := hcondemns
  unfold verify verifyForcedInclusionTxs at hresult ⊢
  rcases hr : s.fiRetriever with _ | r
  · simp [hr] at hresult
  rw [hr] at hresult
  dsimp only at hresult ⊢
  by_cases hsize : s.epochSize = 0
  · simp [if_pos hsize] at hresult
  rw [if_neg hsize] at hresult ⊢
  by_cases hearly : call.daHeight < (s.record call.daHeight call.data.txs).genesis.daStartHeight ∨
      call.daHeight < (s.record call.daHeight call.data.txs).lastState.daHeight
  · simp [if_pos hearly] at hresult
  rw [if_neg hearly] at hresult ⊢
  rcases hinfo : call.env.executionInfo with e | info
  · simp [hinfo] at hresult
  rw [hinfo] at hresult
  dsimp only at hresult ⊢
  rcases hres : (s.record call.daHeight call.data.txs).scanEpochs r call.env info.maxGas
      call.daHeight with _ | res
  · simp [hres] at hresult
  · exact ⟨hsize, r, info.maxGas, res, hres, rfl⟩

theorem Condemns.exit (hcondemns : s.Condemns call) :
    s.epochSize ≠ 0 ∧ ∃ (scan : EpochScan) (r : ForcedInclusionRetriever),
      scan.Of (s.record call.daHeight call.data.txs) ∧ 0 < scan.maliciousCount ∧
      call.daHeight ≤
        graceBoundary scan.syncer.epochSize scan.syncer.daBlockBytes scan.epochEnd ∧
      s.afterCall call = { scan.syncer with fiRetriever := some r } ∧
      (s.verify call).compared = scan.compared := by
  obtain ⟨hsize, r, maxGas, res, hres, hverify⟩ := hcondemns.scanned
  obtain ⟨n, hresult⟩ := hcondemns
  unfold afterCall
  rw [hverify] at hresult ⊢
  have hrecord : (s.record call.daHeight call.data.txs).epochSize ≠ 0 := hsize
  obtain ⟨scan, hscan, hround⟩ := scanEpochs_exit hrecord hres
  obtain ⟨hsyncer, hcompared, -, hends⟩ := checkEpoch_done hround
  rw [hsyncer, hcompared]
  unfold ScanResult.result at hresult
  -- an exit for any other reason is no accusation
  rcases hends with ⟨hboundary, hverdict⟩ | ⟨-, hverdict⟩ | ⟨e, -, hverdict⟩ |
    ⟨event, e, -, -, -, -, hverdict⟩
  · rw [hverdict] at hresult
    dsimp only at hresult
    split_ifs at hresult with hpos
    exact ⟨hsize, scan, res.retriever, hscan, hpos, hboundary, rfl, rfl⟩
  all_goals
    simp [hverdict] at hresult

theorem not_condemns_of_not_due
    (hnotDue : call.daHeight ≤ graceBoundary s.epochSize s.daBlockBytes s.startEpochEnd) :
    ¬ s.Condemns call := by
  intro hcondemns
  obtain ⟨-, r, maxGas, res, hres, hverify⟩ := hcondemns.scanned
  obtain ⟨n, hresult⟩ := hcondemns
  have hnotDue' : call.daHeight ≤ graceBoundary (s.record call.daHeight call.data.txs).epochSize
      (s.record call.daHeight call.data.txs).daBlockBytes
      (s.record call.daHeight call.data.txs).startEpochEnd :=
    le_graceBoundary_update hnotDue (blockBytes call.data.txs)
  -- the loop is left in its first round
  unfold scanEpochs Loops.iterate checkEpoch at hres
  rw [if_pos hnotDue'] at hres
  obtain rfl := Option.some.inj hres
  rw [hverify] at hresult
  exact absurd hresult (by simp [ScanResult.result])

theorem Condemns.forgotten {later : VerifyCall} (hcondemns : s.Condemns call)
    (hheight : later.daHeight = call.daHeight) (hfirst : s.firstEpochEnd ≠ 0 ∨ 5 < call.daHeight) :
    ¬ (s.afterCall call).Condemns later := by
  obtain ⟨hsize, scan, r, hscan, -, hboundary, hafter, -⟩ := hcondemns.exit
  apply not_condemns_of_not_due
  rw [hafter, hheight]
  show call.daHeight ≤ graceBoundary scan.syncer.epochSize scan.syncer.daBlockBytes
    scan.syncer.startEpochEnd
  rcases hscan.resumes with hat | ⟨-, hzero, hone⟩
  · rwa [hat]
  -- epochs of one height, of which the second ends at DA height 1
  have hle := graceBoundary_le scan.syncer.epochSize scan.syncer.daBlockBytes scan.epochEnd
  have hchain := hscan.sameChain
  have hsize' : scan.syncer.epochSize = s.epochSize := hchain.epochSize_eq
  have hgenesis : scan.syncer.genesis = s.genesis := hchain.genesis_eq
  unfold firstEpochEnd at hzero hfirst
  rw [hgenesis] at hzero
  omega

end

/-- No verdict is stable, whatever the syncer's state: a call that condemns is followed by calls
that do not, although the same transactions are missing. No call at the same DA height condemns
again, the call itself included (with a first epoch that ends at DA height 0: above 5). -/
theorem malicious_verdict_never_stable (s : Syncer) (call : VerifyCall)
    (hcondemns : s.Condemns call) :
    ¬ s.VerdictStable call ∧
      (s.firstEpochEnd ≠ 0 ∨ 5 < call.daHeight →
        ∀ later, later.daHeight = call.daHeight → ¬ (s.afterCall call).Condemns later) := by
  refine ⟨fun hstable => ?_, fun hfirst later hheight => hcondemns.forgotten hheight hfirst⟩
  -- an empty block, delivered twice
  let later : VerifyCall := ⟨call.env, max call.daHeight 6, ⟨none, []⟩⟩
  have hrepeats : ∀ call' ∈ [later, later], s.Repeats call call' := by
    intro call' hcall'
    obtain rfl : call' = later := by simpa using hcall'
    exact ⟨rfl, Nat.le_max_left _ _, fun tx _ => not_mem_nil⟩
  have hall := hstable [later, later] hrepeats
  have hagain : (s.afterCall call).Condemns later := hall (s.afterCall call, later) (by simp)
  apply hagain.forgotten rfl (.inr (Nat.lt_of_lt_of_le (by decide) (Nat.le_max_right _ _)))
  exact hall ((s.afterCall call).afterCall later, later) (by simp)

/-- A block without the transaction forced at DA height 1, posted after its grace period. -/
private def censoringCall : VerifyCall := ⟨plainEnv (forcedAt 1 [9]), 5, ⟨none, []⟩⟩

theorem censoringCall_forgotten :
    smallSyncer.Condemns censoringCall ∧
      ¬ (smallSyncer.afterCall censoringCall).Condemns censoringCall := by
  have hcondemns : smallSyncer.Condemns censoringCall := ⟨1, by decide +kernel⟩
  exact ⟨hcondemns, (malicious_verdict_never_stable _ _ hcondemns).2 (.inl (by decide)) _ rfl⟩

end Syncer

/-- The first block of the small chain, posted at DA height 5, and a world in which a transaction
of the first epoch has been forced. -/
private def censoringBlock : EventEnv × HeightEvent :=
  ({ chainEnv true with verify := plainEnv (forcedAt 1 [9]) },
    { chainBlock .sourceDA 1 [] [] with daHeight := 5 })

/-- The block leaves out the transaction, whose grace period is over, and is refused. It comes
again, and is applied. -/
theorem condemned_block_applied_on_retry :
    (SyncNode.start chainConfig Store.empty).map (fun n =>
      ((n.run [censoringBlock]).map (fun n => (n.store.height, n.hasCriticalError)),
        (n.run [censoringBlock, censoringBlock]).map
          (fun n => (n.store.height, n.hasCriticalError)))) =
      .ok (.ok (0, true), .ok (1, true)) := by
  decide +kernel

end ChainSdk

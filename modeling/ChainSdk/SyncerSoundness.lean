/-
An honest proposer and the forced-inclusion check.

The rule the check enforces is that a forced transaction lands in a block before its epoch's grace
deadline.
-/
import ChainSdk.SyncerHistory

namespace ChainSdk

open List Syncer

/-! ## Deadlines of a run -/

def deadline (genesis : Genesis) (events : List SyncEvent) (k : ℕ) : ℕ :=
  graceBoundary genesis.daEpochForcedInclusion (notedBytes (daBlocks events))
    (epochEndAt genesis k)

/-- Whenever an epoch is due, each of its accepted transactions is in a block from DA posted
no later than the deadline. -/
def PostedInTime (da : ℕ → List Blob) (genesis : Genesis) (events : List SyncEvent) : Prop :=
  ∀ ev ∈ events, ∀ k, deadline genesis events k < ev.daHeight →
    ∀ tx ∈ ev.env.okTxs (epochTxs da genesis k),
      ∃ b ∈ daBlocks events, tx ∈ b.txs ∧ b.daHeight ≤ deadline genesis events k

/-- And none of them is in a block posted before the epoch began. -/
def PostedOnlySince (da : ℕ → List Blob) (genesis : Genesis) (events : List SyncEvent) : Prop :=
  ∀ ev ∈ events, ∀ k, deadline genesis events k < ev.daHeight →
    ∀ tx ∈ ev.env.okTxs (epochTxs da genesis k),
      ∀ b ∈ daBlocks events, tx ∈ b.txs → epochStartAt genesis k ≤ b.daHeight

def InDaOrder (events : List SyncEvent) : Prop :=
  (daBlocks events).Pairwise (fun b b' => b.daHeight ≤ b'.daHeight)

variable {k : ℕ} (da : ℕ → List Blob) {events : List SyncEvent} {s : Syncer} {ev : SyncEvent}

theorem noted_of_da (hvalid : ev.validated = true)
    (hsource : ev.source = .sourceDA) : ev.noted = [⟨ev.daHeight, ev.data.txs⟩] :=
  if_pos ⟨hvalid, hsource⟩

section

variable {genesis : Genesis} {pre post : List SyncEvent} {ev : SyncEvent}

theorem InDaOrder.le_of_later (horder : InDaOrder (pre ++ ev :: post))
    (hvalid : ev.validated = true) (hsource : ev.source = .sourceDA) :
    ∀ b ∈ daBlocks post, ev.daHeight ≤ b.daHeight := by
  intro b hb
  unfold InDaOrder at horder
  rw [daBlocks_append, daBlocks_cons, noted_of_da hvalid hsource, pairwise_append,
    singleton_append, pairwise_cons] at horder
  exact horder.2.1.1 b hb

theorem daBlocks_split (hvalid : ev.validated = true) (hsource : ev.source = .sourceDA) :
    daBlocks (pre ++ ev :: post) =
      (daBlocks pre ++ [⟨ev.daHeight, ev.data.txs⟩]) ++ daBlocks post := by
  rw [daBlocks_append, daBlocks_cons, noted_of_da hvalid hsource, append_assoc]

theorem deadline_eq (horder : InDaOrder (pre ++ ev :: post)) (hvalid : ev.validated = true)
    (hsource : ev.source = .sourceDA) (hsize : 0 < genesis.daEpochForcedInclusion)
    (hended : epochEndAt genesis k < ev.daHeight) :
    deadline genesis (pre ++ ev :: post) k =
      graceBoundary genesis.daEpochForcedInclusion
        (notedBytes (daBlocks pre ++ [⟨ev.daHeight, ev.data.txs⟩])) (epochEndAt genesis k) := by
  -- later blocks are posted above the epoch, so they do not change its bytes
  have hlater := horder.le_of_later hvalid hsource
  unfold deadline
  rw [daBlocks_split hvalid hsource]
  refine graceBoundary_congr hsize (fun h _ hle => notedBytes_append_of_ne _ _ (fun b hb => ?_))
  have hge := hlater b hb
  omega

end

/-! ## One check -/

namespace Syncer

variable {da : ℕ → List Blob} {genesis : Genesis} {codec : Codec} {client : Client}

theorem unseen_eq_nil {hist : List PostedBlock} (htracks : Tracks hist s)
    {looked : List Tx} (hposted : ∀ tx ∈ looked, (∃ b ∈ hist, tx ∈ b.txs) ∧
      ∀ b ∈ hist, tx ∈ b.txs → s.Unpruned b.daHeight) : s.unseen looked = [] := by
  unfold unseen
  rw [filter_eq_nil_iff]
  intro tx htx
  obtain ⟨⟨b, hb, hin⟩, hunpruned⟩ := hposted tx htx
  rw [decide_eq_true_eq, not_not]
  exact htracks.seen_of_posted b hb tx hin hunpruned

def ScanResult.Clear (res : ScanResult) : Prop :=
  res.verdict = .ok 0 ∨ (∃ epochEnd e, res.verdict = .error (.retrieve epochEnd e)) ∨
    ∃ e, res.verdict = .error (.filter e)

theorem ScanResult.Clear.result_ne {res : ScanResult} (hclear : res.Clear) (n : ℕ) :
    res.result ≠ .error (.maliciousProposer n) := by
  unfold ScanResult.result
  rcases hclear with hv | ⟨epochEnd, e, hv⟩ | ⟨e, hv⟩
  · rw [hv]
    simp
  · rw [hv]
    simp
  · rw [hv]
    simp

theorem SyncerInv.not_accuses (hset : ForcedInclusionSetting da genesis codec client)
    {pre post : List SyncEvent} (hinv : SyncerInv da genesis codec client (daBlocks pre) s)
    (horder : InDaOrder (pre ++ ev :: post)) (henv : ev.env.Truthful da)
    (hans : ev.env.Answers) (hvalid : ev.validated = true) (hsource : ev.source = .sourceDA)
    (htime : PostedInTime da genesis (pre ++ ev :: post))
    (hsince : PostedOnlySince da genesis (pre ++ ev :: post)) : ¬ s.Accuses ev := by
  have hsize := hset.epochSize_pos
  have hmem : ev ∈ pre ++ ev :: post := by simp
  rw [accuses_iff hvalid hsource, not_exists]
  rcases hinv.verify_cases hset henv ev.daHeight ev.data with
    ⟨-, hnot, -⟩ | ⟨info, r, res, hinfo, hr, -, -, hres, heq⟩
  · exact hnot
  rw [heq]
  obtain ⟨k, -, hscan⟩ := (hinv.record ev.daHeight ev.data.txs).scan hsize hr
  suffices hclear : res.Clear from hclear.result_ne
  -- along the loop nothing is ever counted
  refine Loops.iterate_invariant (checkEpoch ev.env info.maxGas ev.daHeight)
    (fun scan => (∃ k, ScanInv da genesis codec client
      (daBlocks pre ++ [⟨ev.daHeight, ev.data.txs⟩]) k scan) ∧ scan.maliciousCount = 0)
    ScanResult.Clear ?_ ?_ ⟨⟨k, hscan⟩, rfl⟩ hres
  · rintro scan scan' ⟨⟨k, hk⟩, hzero⟩ hround
    refine ⟨⟨k + 1, hk.next hset henv hround⟩, ?_⟩
    obtain ⟨hboundary, looked, hlooks, hcount, -⟩ := hk.next_looks hset henv
      (fun h _ _ => hans _ h) hround
    have hended : epochEndAt genesis k < ev.daHeight :=
      lt_of_le_of_lt (Nat.le_add_right _ _) hboundary
    rw [← deadline_eq horder hvalid hsource hsize hended] at hboundary
    have hok : ∀ tx ∈ looked, tx ∈ ev.env.okTxs (epochTxs da genesis k) := by
      rw [← hlooks.eq_okTxs hinfo]
      exact fun tx htx => htx
    have hnone : scan.syncer.unseen looked = [] := by
      refine unseen_eq_nil hk.tracks (fun tx htx => ⟨?_, fun b hb hin => ?_⟩)
      -- posted by the deadline, which has passed: the block came before this event
      · obtain ⟨b, hb, hin, hle⟩ := htime ev hmem k hboundary tx (hok tx htx)
        rw [daBlocks_split hvalid hsource, mem_append] at hb
        rcases hb with hb | hb
        · exact ⟨b, hb, hin⟩
        · have hge := horder.le_of_later hvalid hsource b hb
          omega
      -- no copy of it was posted below the epoch, where it would have been pruned
      · have hge := hsince ev hmem k hboundary tx (hok tx htx) b
          (by rw [daBlocks_split hvalid hsource]; exact mem_append_left _ hb) hin
        exact hk.cursor.unpruned hsize hge
    rw [hcount, hzero, hnone, length_nil]
  · rintro scan res ⟨-, hzero⟩ hround
    obtain ⟨-, -, -, hverdict⟩ := checkEpoch_done hround
    rcases hverdict with ⟨-, hv⟩ | ⟨-, hv⟩ | ⟨e, -, hv⟩ | ⟨event, e, -, -, -, -, hv⟩
    · rw [hzero] at hv
      exact .inl hv
    · exact .inl hv
    · exact .inr (.inl ⟨_, e, hv⟩)
    · exact .inr (.inr ⟨e, hv⟩)

theorem Accuses.fromDa (haccuses : s.Accuses ev) :
    ev.validated = true ∧ ev.source = .sourceDA := by
  by_contra hda
  obtain ⟨n, hres⟩ := haccuses
  rcases s.trySyncNextBlock_unchecked hda with ⟨heq, -⟩ | heq
  · simp [heq] at hres
  · exact applyEvent_ne_verify s ev _ (heq ▸ hres)

end Syncer

/-! ## Whole runs -/

/-- In every run of a freshly started syncer in which each due transaction is in a block
from DA posted in time, and in none posted before the transaction's epoch, the proposer is
never accused. Blocks from P2P may come in between in any mix. -/
theorem honest_proposer_not_accused (da : ℕ → List Blob) (genesis : Genesis) (codec : Codec)
    (client : Client) (inp : StartInput) (s₀ : Syncer) (events : List SyncEvent)
    (hset : ForcedInclusionSetting da genesis codec client)
    (hstart : initializeState genesis codec client inp none = .ok s₀)
    (henv : ∀ ev ∈ events, ev.env.Truthful da ∧ ev.env.Answers) (horder : InDaOrder events)
    (htime : PostedInTime da genesis events) (hsince : PostedOnlySince da genesis events) :
    ∀ p ∈ Runs.steps step s₀ events, ¬ p.1.Accuses p.2 := by
  obtain ⟨state, -, rfl⟩ := initializeState_ok hstart
  rintro ⟨s, ev⟩ hp haccuses
  obtain ⟨pre, post, rfl, rfl⟩ := (Runs.mem_steps_iff _ _ _ _ _).mp hp
  obtain ⟨hvalid, hsource⟩ := haccuses.fromDa
  have hinv := (SyncerInv.ofState state).run hset
    (fun ev' hev' => (henv ev' (mem_append_left _ hev')).1)
  have hev := henv ev (by simp)
  exact hinv.not_accuses hset horder hev.1 hev.2 hvalid hsource htime hsince haccuses

/-! ## A small chain

Epochs of two DA heights from height 1 on, an execution client that accepts everything, and
hashes that are the transactions themselves.
-/

def smallGenesis : Genesis := ⟨"chain", 0, 1, [7], 1, 2⟩

def plainCodec : Codec := ⟨fun _ => [], fun _ => [], fun d => d.txs.flatten, id⟩

def forcedClient : Client := ⟨[1], true⟩

def forcedAt (h : ℕ) (tx : Tx) : ℕ → List Blob := fun h' => if h' = h then [tx] else []

def acceptAll : TxFilter where
  filterTxs := fun txs _ _ _ => .ok (txs.map fun _ => .filterOK)
  length_eq := by
    intro txs maxBytes maxGas forced statuses h
    rw [← Except.ok.inj h, length_map]

def plainEnv (da : ℕ → List Blob) : VerifyEnv :=
  ⟨.ok ⟨0⟩, acceptAll, fun _ => ⟨fun h => ⟨.success, "", 0, da h⟩, fun _ => []⟩⟩

def daBlock (da : ℕ → List Blob) (daHeight : ℕ) (txs : List Tx) : SyncEvent where
  source := .sourceDA
  daHeight := daHeight
  header := ⟨0, 0, "chain", ⟨0, 0⟩, [], [], [], [], [7], none⟩
  data := ⟨none, txs⟩
  validated := true
  appHash := .ok []
  committed := true
  env := plainEnv da

def plainStart : StartInput := ⟨.ok [], true, true⟩

def smallSyncer : Syncer :=
  ofState smallGenesis plainCodec forcedClient
    { State.zero with
      chainID := "chain"
      initialHeight := 1
      lastBlockTime := 0
      daHeight := 1 }

theorem plainEnv_truthful : (plainEnv da).Truthful da := by
  intro e
  refine ⟨fun h => ⟨fun _ => rfl, fun hcode => by simp [plainEnv] at hcode⟩, ?_⟩
  intro h target result hmem
  exact absurd hmem not_mem_nil

theorem plainEnv_answers : (plainEnv da).Answers :=
  fun _ _ => .inl rfl

theorem smallSetting (h : ℕ) (tx : Tx) (htx : tx ≠ []) :
    ForcedInclusionSetting (forcedAt h tx) smallGenesis plainCodec forcedClient where
  blobs_ne := by
    intro h' b hb
    unfold forcedAt at hb
    split_ifs at hb
    · rw [mem_singleton.mp hb]
      exact htx
    · exact absurd hb not_mem_nil
  sha256_injective := fun _ _ heq => heq
  epochSize_pos := by decide
  configured := rfl

theorem smallEpochEndAt_eq (k : ℕ) : epochEndAt smallGenesis k = 2 * k + 2 := by
  unfold epochEndAt smallGenesis
  dsimp only
  omega

theorem due_bound {d : ℕ} (hdue : deadline smallGenesis events k < d) : 2 * k + 4 < d := by
  have hgrace := epochEnd_add_size_le_graceBoundary smallGenesis.daEpochForcedInclusion
    (notedBytes (daBlocks events)) (epochEndAt smallGenesis k)
  have hend := smallEpochEndAt_eq k
  have hsize : smallGenesis.daEpochForcedInclusion = 2 := rfl
  unfold deadline at hdue
  omega

theorem small_due {da : ℕ → List Blob} (P : ℕ → Tx → Prop)
    (henv : ∀ ev ∈ events, ev.env = plainEnv da ∧ ev.daHeight ≤ 8)
    (hzero : ∀ tx ∈ (plainEnv da).okTxs (epochTxs da smallGenesis 0), P 0 tx)
    (hone : ∀ tx ∈ (plainEnv da).okTxs (epochTxs da smallGenesis 1), P 1 tx) :
    ∀ ev ∈ events, ∀ k, deadline smallGenesis events k < ev.daHeight →
      ∀ tx ∈ ev.env.okTxs (epochTxs da smallGenesis k), P k tx := by
  intro ev hev k hdue
  obtain ⟨heq, hle⟩ := henv ev hev
  have hk := due_bound hdue
  rw [heq]
  obtain rfl | rfl : k = 0 ∨ k = 1 := by omega
  · exact hzero
  · exact hone

def repostedRun : List SyncEvent :=
  [daBlock (forcedAt 3 [1]) 2 [[1]], daBlock (forcedAt 3 [1]) 5 [[1]],
    daBlock (forcedAt 3 [1]) 7 []]

/-- Its deadline is 6, and the block at 7 has the syncer check both epochs: passing the first
one forgets the transaction, which the check of the second then misses. -/
theorem honest_proposer_accused_after_pruning :
    ForcedInclusionSetting (forcedAt 3 [1]) smallGenesis plainCodec forcedClient ∧
      initializeState smallGenesis plainCodec forcedClient plainStart none =
        .ok smallSyncer ∧
      (∀ ev ∈ repostedRun, ev.env.Truthful (forcedAt 3 [1]) ∧ ev.env.Answers) ∧
      InDaOrder repostedRun ∧ PostedInTime (forcedAt 3 [1]) smallGenesis repostedRun ∧
      ¬ ∀ p ∈ Runs.steps step smallSyncer repostedRun, ¬ p.1.Accuses p.2 := by
  have hall : ∀ ev ∈ repostedRun, ev.env = plainEnv (forcedAt 3 [1]) ∧ ev.daHeight ≤ 8 := by
    simp [repostedRun, daBlock]
  refine ⟨smallSetting 3 [1] (by decide), rfl, ?_, by unfold InDaOrder; decide, ?_, ?_⟩
  · intro ev hev
    rw [(hall ev hev).1]
    exact ⟨plainEnv_truthful _, plainEnv_answers _⟩
  · exact small_due (fun k tx => ∃ b ∈ daBlocks repostedRun, tx ∈ b.txs ∧
      b.daHeight ≤ deadline smallGenesis repostedRun k) hall
      (by decide +kernel) (by decide +kernel)
  · intro hnone
    refine hnone ((repostedRun.take 2).foldl step smallSyncer,
      daBlock (forcedAt 3 [1]) 7 []) (by simp [repostedRun]) ⟨1, ?_⟩
    decide +kernel

def onTimeRun : List SyncEvent :=
  [daBlock (forcedAt 3 [1]) 2 [[2]], daBlock (forcedAt 3 [1]) 5 [[1]],
    daBlock (forcedAt 3 [1]) 7 []]

theorem honest_proposer_not_accused_on_small :
    InDaOrder onTimeRun ∧
      ∀ p ∈ Runs.steps step smallSyncer onTimeRun, ¬ p.1.Accuses p.2 := by
  have hall : ∀ ev ∈ onTimeRun, ev.env = plainEnv (forcedAt 3 [1]) ∧ ev.daHeight ≤ 8 := by
    simp [onTimeRun, daBlock]
  have horder : InDaOrder onTimeRun := by
    unfold InDaOrder
    decide
  refine ⟨horder, honest_proposer_not_accused (forcedAt 3 [1]) smallGenesis plainCodec
    forcedClient plainStart smallSyncer onTimeRun (smallSetting 3 [1] (by decide)) rfl
    (fun ev hev => ?_) horder ?_ ?_⟩
  · rw [(hall ev hev).1]
    exact ⟨plainEnv_truthful _, plainEnv_answers _⟩
  · exact small_due (fun k tx => ∃ b ∈ daBlocks onTimeRun, tx ∈ b.txs ∧
      b.daHeight ≤ deadline smallGenesis onTimeRun k) hall (by decide +kernel) (by decide +kernel)
  · exact small_due (fun k tx => ∀ b ∈ daBlocks onTimeRun, tx ∈ b.txs →
      epochStartAt smallGenesis k ≤ b.daHeight) hall (by decide +kernel) (by decide +kernel)

end ChainSdk

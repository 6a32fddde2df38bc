/-
The timestamps of the based sequencer.

A batch is stamped with the end time of its epoch minus one millisecond for every transaction of the
epoch that is still left.
-/
import ChainSdk.DaBlockTimes
import ChainSdk.SequencerCheckpoint

namespace ChainSdk

open EpochReader Except ForcedInclusionRetriever List Runs

/-! ## Places and stamps -/

/-- What a chain reads from DA: the content and the block times of DA, and the largest
transaction a block takes. -/
structure DaFeed where
  da : ℕ → List Blob
  blockTime : ℕ → Time
  maxBytes : ℕ

namespace DaFeed

section

variable (feed : DaFeed)

def epochTxs (genesis : Genesis) (d : ℕ) : List Tx :=
  dropOversized feed.maxBytes (Ranges.between (nonEmptyBlobs feed.da)
    (epochStart genesis.daStartHeight genesis.daEpochForcedInclusion d) (d + 1))

def endTime (genesis : Genesis) (d : ℕ) : Time :=
  max genesis.startTime (feed.blockTime d)

def EndsEpoch (genesis : Genesis) (d : ℕ) : Prop :=
  d = epochEnd genesis.daStartHeight genesis.daEpochForcedInclusion d ∧
    feed.epochTxs genesis d ≠ []

def stamp (genesis : Genesis) (d i : ℕ) : Time :=
  EpochClock.timestamp ⟨feed.endTime genesis d, (feed.epochTxs genesis d).length⟩ i

/-- The end times of two epochs lie apart by a millisecond for every transaction of the
later one but its first. -/
def Spaced (genesis : Genesis) : Prop :=
  ∀ d d', d < d' → feed.EndsEpoch genesis d → feed.EndsEpoch genesis d' →
    feed.endTime genesis d + ((feed.epochTxs genesis d').length - 1 : ℤ) * millisecond ≤
      feed.endTime genesis d'

/-- A stamp that belongs to a place at or before the checkpoint. -/
def Reached (genesis : Genesis) (c : Checkpoint) (t : Time) : Prop :=
  ∃ d i, feed.EndsEpoch genesis d ∧ i ≤ (feed.epochTxs genesis d).length ∧
    t = feed.stamp genesis d i ∧ toLex (d, i) ≤ c.key

end

variable {feed : DaFeed} {genesis : Genesis}

theorem Reached.mono {c c' : Checkpoint} {t : Time} (h : feed.Reached genesis c t)
    (hle : c.key ≤ c'.key) : feed.Reached genesis c' t := by
  obtain ⟨d, i, hends, hi, ht, hplace⟩ := h
  exact ⟨d, i, hends, hi, ht, hplace.trans hle⟩

theorem Reached.le_stamp {c : Checkpoint} {t : Time} (hspaced : feed.Spaced genesis)
    (h : feed.Reached genesis c t) (hends : feed.EndsEpoch genesis c.daHeight) {i : ℕ}
    (hi : c.txIndex < i) : t ≤ feed.stamp genesis c.daHeight i := by
  obtain ⟨d, j, hends', hj, rfl, hplace⟩ := h
  unfold stamp EpochClock.timestamp millisecond
  rcases Prod.Lex.toLex_le_toLex.mp hplace with hlt | ⟨heq, hle⟩
  · -- an earlier epoch: its last stamp is its end time
    have hgap := hspaced d c.daHeight hlt hends' hends
    unfold millisecond at hgap
    linarith
  · obtain rfl : d = c.daHeight := heq
    linarith

end DaFeed

/-! ## The clock follows the checkpoint -/

/-- A cached epoch is the one the checkpoint stands in and the clock is set to it, and the clock is
never ahead of an epoch still to come. -/
structure BasedSequencer.OnTime (feed : DaFeed) (genesis : Genesis) (b : BasedSequencer) :
    Prop where
  retriever_start : b.fiRetriever.daStartHeight = genesis.daStartHeight
  retriever_size : b.fiRetriever.daEpochSize = genesis.daEpochForcedInclusion
  genuine : b.fiRetriever.asyncFetcher.Caches (BlockData.Genuine feed.da feed.blockTime)
  start_le : genesis.startTime ≤ b.clock.currentDAEndTime
  clock_le : ∀ d, b.checkpoint.daHeight ≤ d →
    b.clock.currentDAEndTime ≤ feed.endTime genesis d
  cached : b.epochTxs ≠ [] → feed.EndsEpoch genesis b.checkpoint.daHeight ∧
    b.epochTxs = feed.epochTxs genesis b.checkpoint.daHeight ∧
    b.clock = ⟨feed.endTime genesis b.checkpoint.daHeight, b.epochTxs.length⟩

structure CallEnv.Feeds (feed : DaFeed) (req : GetNextBatchRequest) (env : CallEnv) : Prop where
  genuine : env.retrieval.Genuine feed.da feed.blockTime
  limit : req.maxBytes = feed.maxBytes

/-- The block times of DA do not go back and survive the prefetch cache. -/
structure DaFeed.Timely (feed : DaFeed) : Prop where
  mono : Monotone feed.blockTime
  fits : ∀ h, FitsUnixNano (feed.blockTime h)

namespace BasedSequencer

variable {feed : DaFeed} {genesis : Genesis} {b : BasedSequencer} {req : GetNextBatchRequest}
  {env : CallEnv}

section

variable {b' : BasedSequencer} {daHeight : ℕ} (h : b.OnTime feed genesis)
include h

theorem OnTime.retrieved (hfits : ∀ d, FitsUnixNano (feed.blockTime d))
    (henv : env.Feeds feed req) :
    let r' := (b.fiRetriever.retrieveForcedIncludedTxs env.retrieval b.checkpoint.daHeight).2
    r'.daStartHeight = genesis.daStartHeight ∧ r'.daEpochSize = genesis.daEpochForcedInclusion ∧
      r'.asyncFetcher.Caches (BlockData.Genuine feed.da feed.blockTime) := by
  intro r'
  have hr' : r' = { b.fiRetriever with asyncFetcher := r'.asyncFetcher } :=
    retrieve_snd_eq
  refine ⟨?_, ?_, ?_⟩
  · rw [hr']
    exact h.retriever_start
  · rw [hr']
    exact h.retriever_size
  · exact retrieve_caches (henv.genuine.prefetches hfits) h.genuine

theorem OnTime.same_epoch (hstart : b'.fiRetriever.daStartHeight = genesis.daStartHeight)
    (hsize : b'.fiRetriever.daEpochSize = genesis.daEpochForcedInclusion)
    (hgenuine : b'.fiRetriever.asyncFetcher.Caches (BlockData.Genuine feed.da feed.blockTime))
    (hheight : b'.checkpoint.daHeight = b.checkpoint.daHeight) (htxs : b'.epochTxs = b.epochTxs)
    (hclock : b'.clock = b.clock) : b'.OnTime feed genesis := by
  refine ⟨hstart, hsize, hgenuine, ?_, ?_, ?_⟩
  · rw [hclock]
    exact h.start_le
  · rw [hclock, hheight]
    exact h.clock_le
  · rw [hclock, hheight, htxs]
    exact h.cached

theorem OnTime.takeEpoch (htimely : feed.Timely)
    (henv : env.Feeds feed req) {event : ForcedInclusionEvent}
    (hres : (b.fiRetriever.retrieveForcedIncludedTxs env.retrieval b.checkpoint.daHeight).1 =
      .ok event) (hreader : b'.toEpochReader = b.toEpochReader.takeEpoch req.maxBytes event
      (b.fiRetriever.retrieveForcedIncludedTxs env.retrieval b.checkpoint.daHeight).2)
    (hclock : b'.clock = b.clock.takeEpoch (dropOversized req.maxBytes event.txs) event.timestamp) :
    b'.OnTime feed genesis := by
  obtain ⟨hstart, hsize, hgenuine⟩ := h.retrieved htimely.fits henv
  have hcp : b'.checkpoint = b.checkpoint := by
    rw [hreader]
    rfl
  have htxs : b'.epochTxs = dropOversized req.maxBytes event.txs := by
    rw [hreader]
    rfl
  have hret : b'.fiRetriever = _ := congrArg fiRetriever hreader
  have hend : b'.clock.currentDAEndTime = max b.clock.currentDAEndTime event.timestamp := by
    rw [hclock, EpochClock.takeEpoch_end]
  have hcount : b'.clock.currentEpochTxCount = b'.epochTxs.length := by
    rw [hclock, htxs]
    rfl
  -- an epoch that is read is stamped with the time of its last block
  have hevent := retrieve_genuine htimely.mono htimely.fits henv.genuine
    h.genuine hres
  have htime : event.timestamp ≤ feed.blockTime b.checkpoint.daHeight := by
    rcases hevent with ⟨-, -, hzero⟩ | ⟨-, -, -, htime⟩
    · rw [hzero]
      exact zeroTime_le (htimely.fits _)
    · rw [htime]
  refine ⟨?_, ?_, ?_, ?_, ?_, ?_⟩
  · rw [hret]
    exact hstart
  · rw [hret]
    exact hsize
  · rw [hret]
    exact hgenuine
  · rw [hend]
    exact h.start_le.trans (le_max_left _ _)
  · intro d hd
    rw [hcp] at hd
    rw [hend]
    refine max_le (h.clock_le d hd) ?_
    exact htime.trans ((htimely.mono hd).trans (le_max_right _ _))
  · intro hne
    rw [htxs] at hne
    rcases hevent with ⟨-, hempty, -⟩ | ⟨hlast, -, hblobs, htime⟩
    · rw [hempty] at hne
      exact absurd rfl hne
    unfold lastHeight at hlast
    unfold firstHeight at hblobs
    rw [h.retriever_start, h.retriever_size] at hlast hblobs
    have hepoch : b'.epochTxs = feed.epochTxs genesis b.checkpoint.daHeight := by
      rw [htxs, hblobs, henv.limit]
      rfl
    rw [hcp]
    refine ⟨⟨hlast, ?_⟩, hepoch, ?_⟩
    · rw [← hepoch, htxs]
      exact hne
    · have hmax : b'.clock.currentDAEndTime = feed.endTime genesis b.checkpoint.daHeight := by
        rw [hend, htime]
        apply le_antisymm
        · exact max_le (h.clock_le _ le_rfl) (le_max_right _ _)
        · exact max_le (h.start_le.trans (le_max_left _ _)) (le_max_right _ _)
      rw [← hmax, ← hcount]

/-- The fetch of a call. What the checkpoint will be advanced from is not below it, unless
there is nothing to advance over. -/
theorem OnTime.fetchIfNeeded (htimely : feed.Timely)
    (henv : env.Feeds feed req)
    (hinStep : b.remaining = [] ∨ b.checkpoint.daHeight ≤ b.daHeight) :
    let fetched := b.fetchIfNeeded req.maxBytes env
    fetched.2.OnTime feed genesis ∧ fetched.2.checkpoint = b.checkpoint ∧
      fetched.2.savedCheckpoint = b.savedCheckpoint ∧
      ∀ daHeight, fetched.1 = .ok daHeight →
        daHeight = 0 ∧ fetched.2.remaining = [] ∨ b.checkpoint.daHeight ≤ daHeight := by
  intro fetched
  by_cases hneeds : b.needsFetch = true
  · have hif : fetched = b.fetchNextDAEpoch req.maxBytes env := if_pos hneeds
    obtain ⟨hsaved, hspec⟩ := b.fetchNextDAEpoch_spec req.maxBytes env
    rw [← hif] at hsaved hspec
    rcases hspec with ⟨event, hres, hend, hreader, hclock⟩ | ⟨e, hres, hout, hreader, hclock, -⟩
    · refine ⟨h.takeEpoch htimely henv hres hreader hclock, ?_, hsaved, ?_⟩
      · rw [hreader]
        rfl
      · intro daHeight hok
        rw [hend] at hok
        rw [← ok.inj hok, retrieve_endDaHeight hres]
        exact .inr le_rfl
    · obtain ⟨hstart, hsize, hgenuine⟩ := h.retrieved htimely.fits henv
      have hepoch : fetched.2.epochTxs = b.epochTxs := by rw [hreader]
      have hcp : fetched.2.checkpoint = b.checkpoint := by rw [hreader]
      refine ⟨?_, hcp, hsaved, ?_⟩
      · apply h.same_epoch _ _ _ (congrArg Checkpoint.daHeight hcp) hepoch hclock
        · rw [hreader]
          exact hstart
        · rw [hreader]
          exact hsize
        · rw [hreader]
          exact hgenuine
      · intro daHeight hok
        rcases hout with hzero | ⟨e', herr⟩
        · rw [hzero] at hok
          refine .inl ⟨(ok.inj hok).symm, ?_⟩
          rw [hreader]
          exact remaining_of_needsFetch hneeds
        · simp [herr] at hok
  · have hif : fetched = (.ok b.daHeight, b) := if_neg hneeds
    rw [hif]
    refine ⟨h, rfl, rfl, ?_⟩
    intro daHeight hok
    rw [← ok.inj hok]
    rcases hinStep with hnone | hle
    · exact .inl ⟨daHeight_eq_zero (by simpa using hneeds) hnone, hnone⟩
    · exact .inr hle

theorem OnTime.advance {n : ℕ} (hle : b.checkpoint.daHeight ≤ daHeight)
    (hreader : b'.toEpochReader = b.toEpochReader.advance daHeight n)
    (hclock : b'.clock = b.clock) : b'.OnTime feed genesis := by
  have hret : b'.fiRetriever = b.fiRetriever := by
    rw [hreader]
    unfold EpochReader.advance
    split_ifs <;> rfl
  by_cases hdone : b.epochTxs.length ≤ b.checkpoint.txIndex + n
  · have hcp : b'.checkpoint = ⟨daHeight + 1, 0⟩ := by
      rw [hreader, EpochReader.advance, if_pos hdone]
    have hempty : b'.epochTxs = [] := by rw [hreader, EpochReader.advance, if_pos hdone]
    refine ⟨hret ▸ h.retriever_start, hret ▸ h.retriever_size, hret ▸ h.genuine,
      hclock ▸ h.start_le, ?_, fun hne => absurd hempty hne⟩
    intro d hd
    rw [hcp] at hd
    rw [hclock]
    exact h.clock_le d (hle.trans ((Nat.le_succ _).trans hd))
  · have hcp : b'.checkpoint.daHeight = b.checkpoint.daHeight := by
      rw [hreader, EpochReader.advance, if_neg hdone]
    have hsame : b'.epochTxs = b.epochTxs := by rw [hreader, EpochReader.advance, if_neg hdone]
    exact h.same_epoch (hret ▸ h.retriever_start) (hret ▸ h.retriever_size) (hret ▸ h.genuine)
      hcp hsame hclock

/-- The rest of a call. A batch is stamped for a place after the checkpoint, in the epoch the
checkpoint stands in, and the checkpoint that is saved with it is at that place or later. -/
theorem OnTime.finish (req : GetNextBatchRequest)
    (env : CallEnv)
    (hplace : daHeight = 0 ∧ b.remaining = [] ∨ b.checkpoint.daHeight ≤ daHeight) :
    let after := b.finish daHeight req env
    after.2.OnTime feed genesis ∧ b.checkpoint.key ≤ after.2.checkpoint.key ∧
      (after.2.savedCheckpoint = b.savedCheckpoint ∨
        after.2.savedCheckpoint = some after.2.checkpoint) ∧
      ∀ resp, after.1 = .ok resp → after.2.savedCheckpoint = some after.2.checkpoint ∧
        feed.EndsEpoch genesis b.checkpoint.daHeight ∧
        ∃ i, b.checkpoint.txIndex < i ∧
          resp.timestamp = feed.stamp genesis b.checkpoint.daHeight i ∧
          feed.Reached genesis after.2.checkpoint resp.timestamp := by
  intro after
  obtain ⟨hclock, hsaved⟩ := b.finish_frame daHeight req env
  have hreader := b.finish_toEpochReader daHeight req env
  have hresult := b.finish_result daHeight req env
  obtain ⟨hcount, -⟩ := consumeForced_spec b.remaining
    (statusesOrAccept env.filter b.remaining req.maxBytes env.maxGas true)
  by_cases hactive : b.Active daHeight
  · have hle : b.checkpoint.daHeight ≤ daHeight := by
      rcases hplace with ⟨hzero, hnone⟩ | hle
      · unfold Active at hactive
        simp [hzero, hnone] at hactive
      · exact hle
    have hactive' : 0 < daHeight ∨ 0 < b.remaining.length := hactive
    rw [if_pos hactive'] at hreader
    obtain ⟨hkey, hplaces⟩ := advance_key (p := b.toEpochReader)
      (n := (b.processed req.maxBytes env).2) hle
    rw [← hreader] at hkey hplaces
    refine ⟨h.advance hle hreader hclock, hkey, ?_, ?_⟩
    · rw [hsaved]
      split_ifs
      · exact .inr rfl
      · exact .inl rfl
    · intro resp hok
      rw [show after.1 = _ from hresult] at hok
      split_ifs at hok with hfailed hnone
      have hresp := (ok.inj hok).symm
      -- a batch with transactions in it has consumed some of the epoch
      have hpos : 0 < (b.processed req.maxBytes env).2 := consumeForced_pos hnone
      have hprocessed : (b.processed req.maxBytes env).2 ≤ b.remaining.length := hcount
      obtain ⟨hindex, hleft⟩ := b.remaining_of_ne_nil (length_pos_iff.mp (by omega))
      rw [hleft, length_drop] at hprocessed
      obtain ⟨hends, hepoch, hclk⟩ := h.cached (length_pos_iff.mp (by omega))
      have hstamp : resp.timestamp = feed.stamp genesis b.checkpoint.daHeight
          (b.checkpoint.txIndex + (b.processed req.maxBytes env).2) := by
        rw [hresp]
        rw [hclk, hepoch]
        rfl
      refine ⟨?_, hends, _, Nat.lt_add_of_pos_right hpos, hstamp, ?_⟩
      · rw [hsaved, if_pos ⟨hactive, by simpa [hactive] using hfailed⟩]
      · refine ⟨_, _, hends, ?_, hstamp, ?_⟩
        · rw [← hepoch]
          omega
        · -- the place of the last consumed transaction is below the new checkpoint
          have hlast := hplaces ((b.processed req.maxBytes env).2 - 1) (by omega)
          rw [Checkpoint.position_lt_iff] at hlast
          apply Prod.Lex.toLex_le_toLex.mpr
          rcases hlast with hlt | ⟨heq, hlt⟩
          · exact .inl hlt
          · refine .inr ⟨heq, ?_⟩
            show _ ≤ (b.finish daHeight req env).2.checkpoint.txIndex
            omega
  · have hinactive : ¬ (0 < daHeight ∨ 0 < b.remaining.length) := hactive
    rw [if_neg hinactive] at hreader
    have hnone : b.remaining = [] := length_eq_zero_iff.mp (by omega)
    refine ⟨?_, ?_, ?_, ?_⟩
    · apply h.same_epoch _ _ _ _ _ hclock
      · rw [hreader]
        exact h.retriever_start
      · rw [hreader]
        exact h.retriever_size
      · rw [hreader]
        exact h.genuine
      · rw [hreader]
      · rw [hreader]
    · rw [hreader]
    · rw [hsaved, if_neg (fun hboth => hactive hboth.1)]
      exact .inl rfl
    · intro resp hok
      rw [show after.1 = _ from hresult] at hok
      have hempty : (b.processed req.maxBytes env).1.length = 0 := by
        unfold processed
        rw [hnone]
        rfl
      rw [if_neg (fun hboth => hactive hboth.1), if_pos hempty] at hok
      simp at hok

end

end BasedSequencer

/-! ## Whole runs -/

/-- What happens to the based sequencer of a node: a call, or a restart over the stored state
of the last block, if there is one. -/
inductive BasedEvent
  | getNextBatch (req : GetNextBatchRequest) (env : CallEnv)
  | restart (lastState : Option StoredState)

namespace BasedEvent

/-- The sequencer after an event. A restart keeps the saved checkpoint only. -/
def step (genesis : Genesis) (client : Client) (b : BasedSequencer) : BasedEvent → BasedSequencer
  | .getNextBatch req env => (b.getNextBatch req env).2
  | .restart lastState => .new genesis client b.savedCheckpoint lastState

def timestamps (b : BasedSequencer) : BasedEvent → List Time
  | .getNextBatch req env =>
    match (b.getNextBatch req env).1 with
    | .ok resp => [resp.timestamp]
    | .error _ => []
  | .restart _ => []

/-- DA answers the calls with this content, these block times and this limit. -/
def Feeds (feed : DaFeed) : BasedEvent → Prop
  | .getNextBatch req env => env.Feeds feed req
  | .restart _ => True

/-- A call that works on an epoch fetched earlier finds the DA height the sequencer was told
at, or above, the checkpoint's. -/
def InStep (b : BasedSequencer) : BasedEvent → Prop
  | .getNextBatch _ _ => b.remaining = [] ∨ b.checkpoint.daHeight ≤ b.daHeight
  | .restart _ => True

instance (b : BasedSequencer) : (e : BasedEvent) → Decidable (e.InStep b)
  | .getNextBatch _ _ =>
    inferInstanceAs (Decidable (b.remaining = [] ∨ b.checkpoint.daHeight ≤ b.daHeight))
  | .restart _ => inferInstanceAs (Decidable True)

end BasedEvent

/-- The clock is right, the saved checkpoint is not ahead of the one in memory, and what has been
returned is in order and belongs to places before it. -/
structure BasedSequencer.Stamped (feed : DaFeed) (genesis : Genesis) (b : BasedSequencer)
    (hist : List Time) : Prop where
  onTime : b.OnTime feed genesis
  saved_le : ∀ c, b.savedCheckpoint = some c → c.key ≤ b.checkpoint.key
  reached : ∀ t ∈ hist, ∃ c, b.savedCheckpoint = some c ∧ feed.Reached genesis c t
  sorted : hist.Pairwise (· ≤ ·)

namespace BasedSequencer.Stamped

variable {feed : DaFeed} {genesis : Genesis} {client : Client} {b : BasedSequencer}
  {hist : List Time}

theorem start (savedCheckpoint : Option Checkpoint) (lastState : Option StoredState)
    (hreached : ∀ t ∈ hist, ∃ c, savedCheckpoint = some c ∧ feed.Reached genesis c t)
    (hsorted : hist.Pairwise (· ≤ ·)) :
    (BasedSequencer.new genesis client savedCheckpoint lastState).Stamped feed genesis hist where
  onTime :=
    { retriever_start := rfl
      retriever_size := rfl
      genuine := AsyncBlockRetriever.new_caches _ _ _
      start_le := le_rfl
      clock_le := fun _ _ => le_max_left _ _
      cached := fun hne => absurd rfl hne }
  saved_le := by
    intro c hc
    have hsaved : savedCheckpoint = some c := hc
    show c.key ≤ (savedCheckpoint.getD _).key
    rw [hsaved, Option.getD_some]
  reached := hreached
  sorted := hsorted

theorem step (h : b.Stamped feed genesis hist) (htimely : feed.Timely)
    (hspaced : feed.Spaced genesis) {e : BasedEvent} (hfeeds : e.Feeds feed)
    (hinStep : e.InStep b) :
    (e.step genesis client b).Stamped feed genesis (hist ++ e.timestamps b) := by
  cases e with
  | restart lastState =>
    rw [show BasedEvent.timestamps b (.restart lastState) = [] from rfl, append_nil]
    exact start b.savedCheckpoint lastState h.reached h.sorted
  | getNextBatch req env =>
    obtain ⟨hfetched, hcp, hsaved, hplace⟩ := h.onTime.fetchIfNeeded htimely hfeeds hinStep
    rcases hf : b.fetchIfNeeded req.maxBytes env with ⟨e | daHeight, b'⟩
    · -- the fetch fails: nothing is returned and nothing is saved
      rw [hf] at hfetched hcp hsaved
      have hcall : b.getNextBatch req env = (.error e, b') := by
        unfold BasedSequencer.getNextBatch
        rw [hf]
      unfold BasedEvent.step BasedEvent.timestamps
      dsimp only
      rw [hcall, append_nil]
      refine ⟨hfetched, ?_, ?_, h.sorted⟩
      · rw [hsaved, hcp]
        exact h.saved_le
      · rw [hsaved]
        exact h.reached
    · rw [hf] at hfetched hcp hsaved hplace
      have hcall : b.getNextBatch req env = b'.finish daHeight req env := by
        unfold BasedSequencer.getNextBatch
        rw [hf]
      obtain ⟨hafter, hkey, hsaves, hbatch⟩ := hfetched.finish req env
        (hcp ▸ hplace daHeight rfl)
      -- what was saved before stays at or below the checkpoint
      have hold : ∀ t ∈ hist, ∃ c, b'.savedCheckpoint = some c ∧ feed.Reached genesis c t ∧
          c.key ≤ b'.checkpoint.key := by
        intro t ht
        obtain ⟨c, hc, hreached⟩ := h.reached t ht
        exact ⟨c, hsaved ▸ hc, hreached, hcp ▸ h.saved_le c hc⟩
      have hle : ∀ c, (b'.finish daHeight req env).2.savedCheckpoint = some c →
          c.key ≤ (b'.finish daHeight req env).2.checkpoint.key := by
        intro c hc
        rcases hsaves with hkept | hnew
        · rw [hkept, hsaved] at hc
          exact (hcp ▸ h.saved_le c hc).trans hkey
        · rw [hnew] at hc
          rw [← Option.some.inj hc]
      have hreached : ∀ t ∈ hist, ∃ c,
          (b'.finish daHeight req env).2.savedCheckpoint = some c ∧ feed.Reached genesis c t := by
        intro t ht
        obtain ⟨c, hc, hreached, hck⟩ := hold t ht
        rcases hsaves with hkept | hnew
        · exact ⟨c, hkept.trans hc, hreached⟩
        · exact ⟨_, hnew, hreached.mono (hck.trans hkey)⟩
      unfold BasedEvent.step BasedEvent.timestamps
      dsimp only
      rw [hcall]
      rcases hout : (b'.finish daHeight req env).1 with e | resp
      · rw [append_nil]
        exact ⟨hafter, hle, hreached, h.sorted⟩
      obtain ⟨hnew, hends, i, hi, hstamp, hplaced⟩ := hbatch resp hout
      refine ⟨hafter, hle, ?_, ?_⟩
      · intro t ht
        rcases mem_append.mp ht with ht | ht
        · exact hreached t ht
        · rw [mem_singleton.mp ht]
          exact ⟨_, hnew, hplaced⟩
      · rw [pairwise_append]
        refine ⟨h.sorted, pairwise_singleton _ _, ?_⟩
        intro t ht t' ht'
        rw [mem_singleton.mp ht', hstamp]
        obtain ⟨c, -, hreach, hck⟩ := hold t ht
        exact (hreach.mono hck).le_stamp hspaced hends hi

end BasedSequencer.Stamped

/-- The timestamps of the based sequencer never go back, over any run of calls and restarts, if DA
block times do not and epochs are spaced by a millisecond for each transaction of the later one but
its first, and every call on an epoch fetched earlier finds the DA height it was told at or above
the checkpoint's. -/
theorem based_timestamps_monotone (genesis : Genesis) (client : Client) (feed : DaFeed)
    (htimely : feed.Timely) (hspaced : feed.Spaced genesis)
    (savedCheckpoint : Option Checkpoint) (lastState : Option StoredState)
    (events : List BasedEvent) (hfeeds : ∀ e ∈ events, e.Feeds feed)
    (hinStep : ∀ p ∈ steps (fun b e => BasedEvent.step genesis client b e)
      (.new genesis client savedCheckpoint lastState) events, p.2.InStep p.1) :
    (outputs (fun b e => BasedEvent.step genesis client b e) BasedEvent.timestamps
      (.new genesis client savedCheckpoint lastState) events).flatten.Pairwise (· ≤ ·) := by
  have hrun := output_invariant (fun b e => BasedEvent.step genesis client b e)
    BasedEvent.timestamps (BasedSequencer.Stamped feed genesis)
    (fun b e => e.Feeds feed ∧ e.InStep b)
    (fun b e hist hinv hC => hinv.step htimely hspaced hC.1 hC.2)
    (BasedSequencer.Stamped.start savedCheckpoint lastState (by simp) List.Pairwise.nil)
    (fun p hp => ⟨steps_of_forall hfeeds p hp, hinStep p hp⟩)
  exact hrun.sorted

/-! ## Two DA layers that differ in the pace of their blocks -/

def sampleFeed (pace : Time) : DaFeed where
  da := sampleDa
  blockTime := fun h => (min h 2 : ℕ) * pace
  maxBytes := 1

def DaFeed.replies (feed : DaFeed) (top h : ℕ) : ResultRetrieve :=
  if h ≤ top then ⟨.success, "", feed.blockTime h, feed.da h⟩ else ⟨.heightFromFuture, "", 0, []⟩

theorem DaFeed.replies_genuine (feed : DaFeed) (top h : ℕ) :
    (feed.replies top h).Genuine feed.da feed.blockTime h := by
  unfold replies
  split_ifs
  · exact .inl ⟨.inl ⟨rfl, rfl⟩, rfl⟩
  · exact .inr rfl

def pacedCalls (pace : Time) : List BasedEvent :=
  List.replicate 3 (.getNextBatch sampleRequest (sampleEnv ((sampleFeed pace).replies 2)))

theorem pacedCalls_feed (pace : Time) : ∀ e ∈ pacedCalls pace, e.Feeds (sampleFeed pace) := by
  intro e he
  rw [eq_of_mem_replicate he]
  exact ⟨⟨(sampleFeed pace).replies_genuine 2, fun _ _ _ hmem => by cases hmem⟩, rfl⟩

theorem sampleFeed_timely {pace : ℤ} (hpos : 0 ≤ pace) (hsmall : pace < 2 ^ 62) :
    (sampleFeed pace).Timely where
  mono := by
    intro h h' hle
    exact mul_le_mul_of_nonneg_right (Int.ofNat_le.mpr (min_le_min_right 2 hle)) hpos
  fits := by
    intro h
    have hlo : 0 ≤ ((min h 2 : ℕ) : ℤ) * pace := mul_nonneg (Int.natCast_nonneg _) hpos
    have hhi : ((min h 2 : ℕ) : ℤ) * pace ≤ 2 * pace :=
      mul_le_mul_of_nonneg_right (Int.ofNat_le.mpr (min_le_right h 2)) hpos
    show (-2 ^ 63 : ℤ) ≤ (min h 2 : ℕ) * pace ∧ (min h 2 : ℕ) * pace < (2 ^ 63 : ℤ)
    omega

/-- At a block a nanosecond the second call is stamped almost a millisecond before the first:
epoch 2 ends one nanosecond after epoch 1 and has two transactions. -/
theorem based_timestamps_go_back :
    (sampleFeed 1).Timely ∧ (∀ e ∈ pacedCalls 1, e.Feeds (sampleFeed 1)) ∧
      (outputs (fun b e => BasedEvent.step sampleGenesis sampleClient b e)
        BasedEvent.timestamps (.new sampleGenesis sampleClient none none)
        (pacedCalls 1)).flatten = [1, -999998, 2] ∧
      ¬ (outputs (fun b e => BasedEvent.step sampleGenesis sampleClient b e)
        BasedEvent.timestamps (.new sampleGenesis sampleClient none none)
        (pacedCalls 1)).flatten.Pairwise (· ≤ ·) := by
  refine ⟨sampleFeed_timely (by decide) (by decide), pacedCalls_feed 1, by decide, by decide⟩

theorem sampleFeed_endsEpoch {pace : Time} {d : ℕ}
    (hends : (sampleFeed pace).EndsEpoch sampleGenesis d) : d = 1 ∨ d = 2 := by
  obtain ⟨hlast, hne⟩ := hends
  by_contra hother
  apply hne
  have hd : 1 ≤ d := by
    by_contra hzero
    obtain rfl : d = 0 := by omega
    exact absurd hlast (by decide)
  have hfirst : epochStart 1 1 d = d := by
    rw [epochStart_eq (by decide) hd]
    omega
  have hempty : nonEmptyBlobs sampleDa d = [] := by
    unfold nonEmptyBlobs sampleDa
    rw [if_neg (by omega), if_neg (by omega)]
    rfl
  show dropOversized 1 (Ranges.between (nonEmptyBlobs sampleDa) (epochStart 1 1 d) (d + 1)) = []
  rw [hfirst, Ranges.between_succ _ le_rfl, Ranges.between_self, hempty]
  rfl

theorem based_timestamps_monotone_on_sample :
    (outputs (fun b e => BasedEvent.step sampleGenesis sampleClient b e)
        BasedEvent.timestamps (.new sampleGenesis sampleClient none none)
        (pacedCalls 1000000000)).flatten = [1000000000, 1999000000, 2000000000] ∧
      (outputs (fun b e => BasedEvent.step sampleGenesis sampleClient b e)
        BasedEvent.timestamps (.new sampleGenesis sampleClient none none)
        (pacedCalls 1000000000)).flatten.Pairwise (· ≤ ·) := by
  refine ⟨by decide, ?_⟩
  apply based_timestamps_monotone sampleGenesis sampleClient (sampleFeed 1000000000)
    (sampleFeed_timely (by decide) (by decide)) ?_ none none _ (pacedCalls_feed _) (by decide)
  intro d d' hlt hends hends'
  obtain ⟨rfl, rfl⟩ : d = 1 ∧ d' = 2 := by
    have h := sampleFeed_endsEpoch hends
    have h' := sampleFeed_endsEpoch hends'
    omega
  decide

end ChainSdk

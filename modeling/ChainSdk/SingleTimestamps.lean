/-
The timestamps of the single sequencer.

Three clocks meet in a timestamp.
-/
import ChainSdk.Blocks
import ChainSdk.DaBlockTimes
import ChainSdk.SequencerCheckpoint

namespace ChainSdk

open EpochReader Except ForcedInclusionRetriever List Option Runs Sequencer

/-! ## Readings -/

/-- A single sequencer, the timestamp of the last batch it returned, the last reading of the wall
clock, and the bound that the clocks gave for the last timestamp. -/
structure ObservedSequencer where
  seq : Sequencer
  last : Option Time
  wall : Time
  bound : Option Time

/-- With an epoch at hand its end time, without one the wall clock; while catching up there is no
batch without an epoch. -/
def Sequencer.clockBound (s : Sequencer) (now : Time) : Option Time :=
  if s.remaining ≠ [] then some s.clock.currentDAEndTime
  else if s.catchUpState = .catchUpInProgress then none
  else some now

/-- A bound for the timestamp of a call, from the state in which the epoch has been fetched. -/
def Sequencer.stampBound (s : Sequencer) (req : GetNextBatchRequest) (env : CallEnv) :
    Option Time :=
  if s.id ≠ req.id then none
  else
    match s.bootstrap.fetchIfNeeded req.maxBytes env with
    | (.error _, _) => none
    | (.ok _, fetched) => fetched.clockBound env.now

namespace ObservedSequencer

def timestamps (w : ObservedSequencer) : NodeEvent → List Time
  | .call (.getNextBatch req env) =>
    match (w.seq.getNextBatch req env).1 with
    | .ok resp => [resp.timestamp]
    | .error _ => []
  | _ => []

def step (maxQueueSize : ℕ) (w : ObservedSequencer) (e : NodeEvent) : ObservedSequencer where
  seq := w.seq.nodeStep maxQueueSize e
  last := (w.timestamps e).head?.or w.last
  wall :=
    match e with
    | .call (.getNextBatch _ env) => env.now
    | _ => w.wall
  bound :=
    match e with
    | .call (.getNextBatch req env) => (w.seq.stampBound req env).or w.bound
    | _ => w.bound

end ObservedSequencer

/-! ## What is known of the clocks -/

/-- A call in good time: the wall clock has not gone back, and a DA block that is read is
not from the future. -/
structure CallEnv.Timely (da : ℕ → List Blob) (blockTime : ℕ → Time) (wall : Time)
    (env : CallEnv) : Prop where
  genuine : env.retrieval.Genuine da blockTime
  fits : FitsUnixNano env.now
  wall_le : wall ≤ env.now
  retrieved : ∀ h, (env.retrieval.retrieve h).code ≠ .heightFromFuture → blockTime h ≤ env.now
  prefetched : ∀ h target result, .prefetch target result ∈ env.retrieval.background h →
    result.code ≠ .heightFromFuture → blockTime target ≤ env.now

/-- Every call of one instance is in good time. -/
def NodeEvent.Timely (da : ℕ → List Blob) (blockTime : ℕ → Time) (w : ObservedSequencer) :
    NodeEvent → Prop
  | .call (.getNextBatch _ env) => env.Timely da blockTime w.wall
  | .restart => False
  | _ => True

/-- A filter that never postpones this transaction when it comes first. -/
def TxFilter.TakesFirst (filter : TxFilter) (maxBytes : ℕ) (tx : Tx) : Prop :=
  ∀ txs maxGas forced statuses, filter.filterTxs (tx :: txs) maxBytes maxGas forced = .ok statuses →
    statuses.head? ≠ some .filterPostpone

def ForcedInclusionRetriever.txsOfEpoch (r : ForcedInclusionRetriever) (da : ℕ → List Blob)
    (maxBytes d : ℕ) : List Tx :=
  dropOversized maxBytes (Ranges.between (nonEmptyBlobs da) (r.firstHeight d) (d + 1))

/-- The forced transactions a call has at hand, if DA has the epoch: those of the epoch it
fetches, or those left of the epoch fetched earlier. -/
def Sequencer.forcedAtHand (s : Sequencer) (da : ℕ → List Blob) (maxBytes : ℕ) : List Tx :=
  let p := s.bootstrap
  if p.needsFetch then
    (p.fiRetriever.txsOfEpoch da maxBytes p.checkpoint.daHeight).drop p.checkpoint.txIndex
  else p.remaining

/-- The condition on a call. The wall clock is past genesis and past the stored blocks. The DA block
of an epoch that is fetched is later than the clocks at the last batch, by a millisecond for each
transaction of the epoch but the first. -/
structure KeepsTime (da : ℕ → List Blob) (blockTime : ℕ → Time) (w : ObservedSequencer)
    (req : GetNextBatchRequest) (env : CallEnv) : Prop where
  genesis_le : w.seq.genesis.startTime ≤ env.now
  stored_le : ∀ state, w.seq.db.lastState = some state → state.lastBlockTime ≤ env.now
  late : let p := w.seq.bootstrap
    let d := p.checkpoint.daHeight
    let n := (p.fiRetriever.txsOfEpoch da req.maxBytes d).length
    p.needsFetch = true → d = p.fiRetriever.lastHeight d → p.checkpoint.txIndex < n →
      ∀ t, w.bound = some t → t + ((n : ℤ) - (p.checkpoint.txIndex + 1)) * millisecond ≤
        max w.seq.clock.currentDAEndTime (blockTime d)
  takes : w.seq.catchUpState = .catchUpInProgress ∨
    ∀ tx ∈ (w.seq.forcedAtHand da req.maxBytes).head?, env.filter.TakesFirst req.maxBytes tx

def NodeEvent.KeepsTime (da : ℕ → List Blob) (blockTime : ℕ → Time) (w : ObservedSequencer) :
    NodeEvent → Prop
  | .call (.getNextBatch req env) => ChainSdk.KeepsTime da blockTime w req env
  | _ => True

/-! ## The invariant of the clock -/

def BlockData.SeenBy (da : ℕ → List Blob) (blockTime : ℕ → Time) (now : Time) (h : ℕ)
    (block : BlockData) : Prop :=
  block.Genuine da blockTime h ∧ blockTime h ≤ now

/-- The clock is set to the epoch at hand, and the next stamp from it is not before the last
timestamp. -/
structure Sequencer.OnTime (da : ℕ → List Blob) (blockTime : ℕ → Time) (now : Time)
    (last : Option Time) (s : Sequencer) : Prop where
  placed : s.epochTxs ≠ [] → s.checkpoint.daHeight ≠ 0
  counted : s.epochTxs ≠ [] → s.clock.currentEpochTxCount = s.epochTxs.length
  next_le : s.remaining ≠ [] → ∀ t, last = some t →
    t ≤ s.clock.timestamp (s.checkpoint.txIndex + 1)
  cached : s.fiRetriever.asyncFetcher.Caches (BlockData.SeenBy da blockTime now)

section

variable {da : ℕ → List Blob} {blockTime : ℕ → Time} {now : Time} {last : Option Time}
  {s : Sequencer} {env : CallEnv}

theorem AsyncBlockRetriever.Caches.seenBy_mono {f : AsyncBlockRetriever} {now' : Time}
    (hf : f.Caches (BlockData.SeenBy da blockTime now)) (hle : now ≤ now') :
    f.Caches (BlockData.SeenBy da blockTime now') := by
  intro h block hblock
  obtain ⟨hgen, htime⟩ := hf h block hblock
  exact ⟨hgen, htime.trans hle⟩

section

variable {wall : Time} (henv : env.Timely da blockTime wall)
  (hfits : ∀ h, FitsUnixNano (blockTime h))
include henv hfits

theorem CallEnv.Timely.prefetches :
    env.retrieval.Prefetches (BlockData.SeenBy da blockTime env.now) := by
  intro h target result hmem block hblock
  refine ⟨henv.genuine.prefetches hfits h target result hmem block hblock, ?_⟩
  apply henv.prefetched h target result hmem
  intro hcode
  unfold ResultRetrieve.toCache at hblock
  simp [hcode] at hblock

theorem CallEnv.Timely.blockTime_le {r : ForcedInclusionRetriever} {d h : ℕ}
    (hr : r.asyncFetcher.Caches (BlockData.SeenBy da blockTime env.now))
    (hsome : (r.blockAt env.retrieval d h).isSome) : blockTime h ≤ env.now := by
  unfold blockAt at hsome
  rcases hc : r.cachedAt env.retrieval d h with _ | block
  · rw [hc, none_or, ResultRetrieve.block?_isSome] at hsome
    apply henv.retrieved h
    intro hcode
    simp [hcode] at hsome
  · exact (cachedAt_caches (henv.prefetches hfits) hr hc).2

end

namespace Sequencer

section

variable {s' : Sequencer} {req : GetNextBatchRequest} {c : Collected}

theorem OnTime.congr (h : s.OnTime da blockTime now last)
    (hreader : s'.toEpochReader = s.toEpochReader) (hclock : s'.clock = s.clock) :
    s'.OnTime da blockTime now last := by
  refine ⟨?_, ?_, ?_, ?_⟩
  · rw [hreader]
    exact h.placed
  · rw [hreader, hclock]
    exact h.counted
  · rw [hreader, hclock]
    exact h.next_le
  · rw [hreader]
    exact h.cached

theorem clockBound_of_remaining (hne : s.remaining ≠ []) :
    s.clockBound now = some s.clock.currentDAEndTime := if_pos hne

/-- The bound of a call holds for the last timestamp before it, too. -/
theorem OnTime.le_bound (h : s.OnTime da blockTime now last) {bound : Option Time}
    (hnow : ∀ t, last = some t → t ≤ now)
    (hbound : ∀ t, last = some t → ∃ b, bound = some b ∧ t ≤ b) :
    ∀ t, last = some t → ∃ b, (s.clockBound now).or bound = some b ∧ t ≤ b := by
  intro t ht
  by_cases hne : s.remaining ≠ []
  · rw [clockBound_of_remaining hne]
    obtain ⟨hindex, -⟩ := s.toEpochReader.remaining_of_ne_nil hne
    have hcount := h.counted (ne_nil_of_length_pos (by omega))
    exact ⟨_, rfl, (h.next_le hne t ht).trans
      (s.clock.timestamp_le_end (by rw [hcount]; omega))⟩
  · unfold clockBound
    rw [if_neg hne]
    split_ifs
    · exact hbound t ht
    · exact ⟨now, rfl, hnow t ht⟩

theorem updateCatchUpState_end (s : Sequencer) (env : CallEnv) :
    (s.updateCatchUpState env).clock.currentEpochTxCount = s.clock.currentEpochTxCount ∧
      s.clock.currentDAEndTime ≤ (s.updateCatchUpState env).clock.currentDAEndTime ∧
      ∀ t, s.clock.currentDAEndTime ≤ t →
        (∀ state, s.db.lastState = some state → state.lastBlockTime ≤ t) →
        (s.updateCatchUpState env).clock.currentDAEndTime ≤ t := by
  rcases s.updateCatchUpState_clock env with ⟨-, hsame⟩ | ⟨-, ⟨-, hclock⟩ | ⟨-, hclock⟩⟩
  · rw [hsame]
    exact ⟨rfl, le_rfl, fun _ hle _ => hle⟩
  · rw [hclock]
    exact ⟨rfl, le_rfl, fun _ hle _ => hle⟩
  · rw [hclock]
    refine ⟨rfl, ?_, ?_⟩
    · show s.clock.currentDAEndTime ≤ s.catchUpFloor
      unfold catchUpFloor
      split
      · split_ifs with hlater
        · exact hlater.2.le
        · exact le_rfl
      · exact le_rfl
    · intro t hle hstored
      show s.catchUpFloor ≤ t
      unfold catchUpFloor
      split
      · rename_i state hstate
        split_ifs
        · exact hstored state hstate
        · exact hle
      · exact hle

theorem OnTime.bootstrap (h : s.OnTime da blockTime now last) :
    s.bootstrap.OnTime da blockTime now last := by
  unfold Sequencer.bootstrap
  split_ifs with hinit
  · have hempty : s.epochTxs = [] := by
      by_contra hne
      exact h.placed hne hinit.2
    refine ⟨fun hne => absurd hempty hne, fun hne => absurd hempty hne, ?_,
      AsyncBlockRetriever.new_caches _ _ _⟩
    intro hne
    apply absurd _ hne
    exact remaining_of_nil hempty
  · exact h

theorem bootstrap_placed (hpos : 0 < s.bootstrap.daHeight) :
    s.bootstrap.checkpoint.daHeight ≠ 0 := by
  unfold bootstrap at hpos ⊢
  split_ifs at hpos ⊢ with hinit
  · exact hinit.1.ne'
  · exact fun hzero => hinit ⟨hpos, hzero⟩

theorem updateCatchUpState_inProgress (hprogress : s.catchUpState = .catchUpInProgress) :
    (s.updateCatchUpState env).catchUpState = .catchUpInProgress := by
  rcases s.updateCatchUpState_clock env with ⟨-, hsame⟩ | ⟨hunchecked, -⟩
  · rw [hsame]
    exact hprogress
  · simp [hprogress] at hunchecked

theorem nothing_of_failed (maxBytes : ℕ) {e : RetrieveError} (hneeds : s.needsFetch = true)
    (hres : (s.fiRetriever.retrieveForcedIncludedTxs env.retrieval s.checkpoint.daHeight).1 =
      .error e) :
    let f := (s.fetchNextDAEpoch maxBytes env).2
    f.remaining = [] ∧ f.checkpoint = s.checkpoint ∧
      (f.epochTxs ≠ [] → f.epochTxs = s.epochTxs) ∧ f.fiRetriever =
        (s.fiRetriever.retrieveForcedIncludedTxs env.retrieval s.checkpoint.daHeight).2 := by
  intro f
  rcases s.fetchNextDAEpoch_spec maxBytes env with ⟨event, hres', -⟩ |
    ⟨e', -, -, ⟨-, -, hreader | ⟨-, hreader⟩⟩ | ⟨-, -, -, -, hreader⟩⟩
  · exact absurd (hres.symm.trans hres') (by simp)
  · rw [hreader]
    exact ⟨remaining_of_needsFetch hneeds, rfl, fun _ => rfl, rfl⟩
  · rw [hreader]
    exact ⟨remaining_of_nil rfl, rfl, fun hne => absurd rfl hne, rfl⟩
  · rw [hreader]
    exact ⟨remaining_of_needsFetch hneeds, rfl, fun _ => rfl, rfl⟩

/-- The fetch of a call keeps the clock right, and does not run it ahead of the wall clock. -/
theorem OnTime.fetchIfNeeded {w : ObservedSequencer} {wall : Time}
    (h : w.seq.OnTime da blockTime env.now w.last) (hmono : Monotone blockTime)
    (hfits : ∀ d, FitsUnixNano (blockTime d)) (henv : env.Timely da blockTime wall)
    (hend : w.seq.clock.currentDAEndTime ≤ env.now)
    (hbound : ∀ t, w.last = some t → ∃ b, w.bound = some b ∧ t ≤ b)
    (hkeeps : KeepsTime da blockTime w req env) :
    let f := (w.seq.bootstrap.fetchIfNeeded req.maxBytes env).2
    f.OnTime da blockTime env.now w.last ∧ f.clock.currentDAEndTime ≤ env.now ∧
      (f.remaining ≠ [] → f.remaining = w.seq.forcedAtHand da req.maxBytes ∧
        (w.seq.catchUpState = .catchUpInProgress → f.catchUpState = .catchUpInProgress)) := by
  intro f
  have hboot := h.bootstrap
  obtain ⟨-, hdb, -, -, -, hclk, hstate⟩ := w.seq.bootstrap_frame
  by_cases hneeds : w.seq.bootstrap.needsFetch = true
  · have hif : f = (w.seq.bootstrap.fetchNextDAEpoch req.maxBytes env).2 := by
      show (w.seq.bootstrap.fetchIfNeeded req.maxBytes env).2 = _
      rw [Sequencer.fetchIfNeeded, if_pos hneeds]
    obtain ⟨hcount, hraised, hfloor⟩ := w.seq.bootstrap.updateCatchUpState_end env
    rw [hclk] at hcount hraised hfloor
    have hchecked := hfloor env.now hend (hdb ▸ hkeeps.stored_le)
    have hspec := w.seq.bootstrap.fetchNextDAEpoch_spec req.maxBytes env
    dsimp only at hspec
    rw [← hif] at hspec
    have hcaches : (w.seq.bootstrap.fiRetriever.retrieveForcedIncludedTxs env.retrieval
        w.seq.bootstrap.checkpoint.daHeight).2.asyncFetcher.Caches
        (BlockData.SeenBy da blockTime env.now) :=
      retrieve_caches (henv.prefetches hfits) hboot.cached
    have hgenuine : w.seq.bootstrap.fiRetriever.asyncFetcher.Caches
        (BlockData.Genuine da blockTime) := fun d block hblock => (hboot.cached d block hblock).1
    rcases hspec with ⟨event, hres, -, hreader, hcatch, htook⟩ | ⟨e, hres, hkept, -⟩
    · -- an epoch arrived
      have hcp : f.checkpoint = w.seq.bootstrap.checkpoint := by rw [hreader]; rfl
      have htxs : f.epochTxs = dropOversized req.maxBytes event.txs := by rw [hreader]; rfl
      have hplaced : w.seq.bootstrap.checkpoint.daHeight ≠ 0 :=
        bootstrap_placed (daHeight_pos_of_needsFetch hneeds)
      have hevent :=
        retrieve_genuine hmono hfits henv.genuine hgenuine hres
      have hfend : f.clock.currentDAEndTime = _ :=
        (congrArg EpochClock.currentDAEndTime htook).trans (EpochClock.takeEpoch_end _ _ _)
      have hfull : f.remaining ≠ [] → w.seq.bootstrap.checkpoint.daHeight =
            w.seq.bootstrap.fiRetriever.lastHeight w.seq.bootstrap.checkpoint.daHeight ∧
          f.epochTxs = w.seq.bootstrap.fiRetriever.txsOfEpoch da req.maxBytes
            w.seq.bootstrap.checkpoint.daHeight ∧
          event.timestamp = blockTime w.seq.bootstrap.checkpoint.daHeight := by
        intro hne
        rcases hevent with ⟨-, hempty, -⟩ | ⟨hlast, -, hblobs, htime⟩
        · exact absurd (remaining_of_nil (by rw [htxs, hempty]; rfl)) hne
        · exact ⟨hlast, by rw [htxs, hblobs]; rfl, htime⟩
      refine ⟨⟨fun _ => hcp ▸ hplaced, ?_, ?_, ?_⟩, ?_, ?_⟩
      · intro _
        rw [htook, htxs]
        rfl
      · intro hne t ht
        obtain ⟨hindex, -⟩ := f.toEpochReader.remaining_of_ne_nil hne
        obtain ⟨hlast, hn, htime⟩ := hfull hne
        rw [hcp, hn] at hindex
        obtain ⟨b, hb, htb⟩ := hbound t ht
        have hlate := hkeeps.late hneeds hlast hindex b hb
        have hcount' : f.clock.currentEpochTxCount =
            (w.seq.bootstrap.fiRetriever.txsOfEpoch da req.maxBytes
              w.seq.bootstrap.checkpoint.daHeight).length := by
          rw [htook, ← hn, htxs]
          rfl
        have hle : max w.seq.clock.currentDAEndTime
            (blockTime w.seq.bootstrap.checkpoint.daHeight) ≤ f.clock.currentDAEndTime := by
          rw [hfend, htime]
          exact max_le_max_right _ hraised
        unfold EpochClock.timestamp
        rw [hcount', hcp]
        push_cast
        linarith
      · rw [hreader]
        exact hcaches
      · rw [hfend]
        refine max_le hchecked ?_
        rcases hevent with ⟨-, -, hzero⟩ | ⟨-, hsome, -, htime⟩
        · rw [hzero]
          exact zeroTime_le henv.fits
        · rw [htime]
          exact henv.blockTime_le hfits hboot.cached hsome
      · intro hne
        constructor
        · rw [(f.toEpochReader.remaining_of_ne_nil hne).2, (hfull hne).2.1, hcp]
          exact (if_pos hneeds).symm
        · intro hprogress
          rw [hcatch]
          exact updateCatchUpState_inProgress (hstate.trans hprogress)
    · -- no epoch: nothing is at hand, and the clock has been raised to the floor at most
      have hnothing := nothing_of_failed req.maxBytes hneeds hres
      rw [← hif] at hnothing
      obtain ⟨hempty, hcp, hsame, hret⟩ := hnothing
      have hcached := hret ▸ hcaches
      refine ⟨⟨?_, ?_, fun hne => absurd hempty hne, hcached⟩, ?_, fun hne => absurd hempty hne⟩
      · intro hne
        rw [hcp]
        exact hboot.placed (hsame hne ▸ hne)
      · intro hne
        rw [hkept, hcount, hsame hne]
        exact hclk ▸ hboot.counted (hsame hne ▸ hne)
      · rw [hkept]
        exact hchecked
  · have hif : f = w.seq.bootstrap := by
      show (w.seq.bootstrap.fetchIfNeeded req.maxBytes env).2 = _
      rw [Sequencer.fetchIfNeeded, if_neg hneeds]
    rw [hif, hclk, hstate]
    exact ⟨hboot, hend, fun _ => ⟨(if_neg hneeds).symm, fun hprogress => hprogress⟩⟩

/-- Where the timestamp of a batch comes from: from the epoch if forced transactions were
consumed, and from the wall clock if not. While catching up a batch has consumed some. -/
theorem finish_timestamp {resp : GetNextBatchResponse}
    (hc : (s.collect req env).1 = .ok c) (hok : (finish c req env).1 = .ok resp) :
    (0 < c.forced.2 ∧ resp.timestamp =
        c.seq.clock.timestamp (c.seq.checkpoint.txIndex + c.forced.2)) ∨
      (c.forced.2 = 0 ∧ c.seq.catchUpState ≠ .catchUpInProgress ∧ resp.timestamp = env.now) := by
  obtain ⟨hcount, hsub⟩ := consumeForced_spec c.forcedTxs
    (c.filterStatuses.take c.forcedTxs.length)
  have hcount' : c.forced.2 ≤ c.forcedTxs.length := hcount
  rw [finish_result] at hok
  split_ifs at hok with hfailed hnone
  have hresp := (ok.inj hok).symm
  by_cases hpos : 0 < c.forced.2
  · refine .inl ⟨hpos, ?_⟩
    have hactive : c.Active := .inr (by omega)
    rw [hresp]
    show c.timestamp env = _
    rw [Collected.timestamp, if_pos (.inr hpos), Collected.timestampIndex, if_pos hactive]
  · have hzero : c.forced.2 = 0 := by omega
    -- a call that catches up has no mempool transactions, so its batch would be empty
    have hidle : c.seq.catchUpState ≠ .catchUpInProgress := by
      intro hcatch
      apply hnone
      refine ⟨hcatch, ?_⟩
      obtain ⟨-, hstate, -⟩ := collect_frame hc
      obtain ⟨-, -, -, htxs, -⟩ := collect_ok hc
      rw [takeMempool, if_pos (hstate ▸ hcatch)] at htxs
      have hforced : c.forced.1 = [] := by
        have hsub' : c.forced.1.Sublist (c.forcedTxs.take c.forced.2) := hsub
        rw [hzero] at hsub'
        exact sublist_nil.mp hsub'
      unfold Collected.batchTxs Collected.mempoolWith
      rw [hforced, htxs]
      rfl
    refine .inr ⟨hzero, hidle, ?_⟩
    rw [hresp]
    show c.timestamp env = _
    rw [Collected.timestamp, if_neg (not_or.mpr ⟨hidle, hpos⟩)]

theorem forced_pos_of_takesFirst (hc : (s.collect req env).1 = .ok c)
    (htakes : ∀ tx ∈ c.forcedTxs.head?, env.filter.TakesFirst req.maxBytes tx)
    (hne : c.forcedTxs ≠ []) : 0 < c.forced.2 := by
  obtain ⟨-, -, -, -, hstatuses⟩ := collect_ok hc
  obtain ⟨tx, txs, hcons⟩ := exists_cons_of_ne_nil hne
  rw [hcons] at htakes
  have hlen := statusesOrAccept_length env.filter (c.forcedTxs ++ c.mempoolTxs) req.maxBytes
    env.maxGas (0 < c.forcedTxs.length)
  have hhead : c.filterStatuses.head? ≠ some .filterPostpone := by
    rw [hstatuses]
    unfold statusesOrAccept
    split
    · rename_i statuses hres
      rw [hcons] at hres
      exact htakes tx rfl _ _ _ statuses hres
    · rw [hcons]
      simp [replicate_succ]
  rw [← hstatuses, hcons, cons_append, length_cons] at hlen
  unfold Collected.forced
  rw [hcons, length_cons]
  rcases hfs : c.filterStatuses with _ | ⟨status, statuses⟩
  · rw [hfs, length_nil] at hlen
    omega
  rw [hfs] at hhead
  cases status with
  | filterOK | filterRemove => exact Nat.succ_pos _
  | filterPostpone => exact absurd rfl hhead

theorem OnTime.advance (h : s.OnTime da blockTime now last) {daHeight n : ℕ}
    (hreader : s'.toEpochReader = s.toEpochReader.advance daHeight n) (hclock : s'.clock = s.clock)
    {last' : Option Time} (hlater : s.remaining ≠ [] → ∀ t, last' = some t →
      t ≤ s.clock.timestamp (s.checkpoint.txIndex + n + 1)) :
    s'.OnTime da blockTime now last' := by
  by_cases hdone : s.epochTxs.length ≤ s.checkpoint.txIndex + n
  · -- the epoch is used up
    rw [EpochReader.advance, if_pos hdone] at hreader
    have hempty : s'.epochTxs = [] := by rw [hreader]
    refine ⟨fun hne => absurd hempty hne, fun hne => absurd hempty hne,
      fun hne => absurd (remaining_of_nil hempty) hne, ?_⟩
    rw [hreader]
    exact h.cached
  · rw [EpochReader.advance, if_neg hdone] at hreader
    have hne : s.remaining ≠ [] := by
      unfold remaining
      rw [if_pos (by omega), ← length_pos_iff, length_drop]
      omega
    refine ⟨?_, ?_, ?_, ?_⟩
    · rw [hreader]
      exact h.placed
    · rw [hclock, hreader]
      exact h.counted
    · intro _ t ht
      rw [hclock, hreader]
      exact hlater hne t ht
    · rw [hreader]
      exact h.cached

theorem forced_in_epoch (hc : (s.collect req env).1 = .ok c) (hpos : 0 < c.forced.2) :
    c.seq.remaining ≠ [] ∧ c.seq.checkpoint.txIndex + c.forced.2 ≤ c.seq.epochTxs.length := by
  obtain ⟨hreader, -, -, -⟩ := collect_frame hc
  obtain ⟨-, -, hforced, -⟩ := collect_ok hc
  rw [← hreader] at hforced
  have hcount : c.forced.2 ≤ c.forcedTxs.length := (consumeForced_spec _ _).1
  have hne : c.seq.remaining ≠ [] := by
    rw [← length_pos_iff, ← hforced]
    omega
  obtain ⟨hindex, hdrop⟩ := c.seq.toEpochReader.remaining_of_ne_nil hne
  rw [hforced, hdrop, length_drop] at hcount
  exact ⟨hne, by omega⟩

/-- The rest of a call, after the fetch: the timestamp is not before the last one and not
ahead of the clocks, and the clock stays right. -/
theorem OnTime.finish (hc : (s.collect req env).1 = .ok c)
    (h : (s.bootstrap.fetchIfNeeded req.maxBytes env).2.OnTime da blockTime env.now last)
    (hend : c.seq.clock.currentDAEndTime ≤ env.now)
    (hlast : ∀ t, last = some t → t ≤ env.now)
    (htakes : c.seq.catchUpState = .catchUpInProgress ∨
      ∀ tx ∈ c.forcedTxs.head?, env.filter.TakesFirst req.maxBytes tx) :
    let stamp := match (finish c req env).1 with
      | .ok resp => some resp.timestamp
      | .error _ => none
    (finish c req env).2.OnTime da blockTime env.now (stamp.or last) ∧
      ∀ t, stamp = some t → (t ≤ env.now ∧ ∀ l, last = some l → l ≤ t) ∧
        ∃ b, c.seq.clockBound env.now = some b ∧ t ≤ b := by
  intro stamp
  obtain ⟨hreader, -, hclock, -⟩ := collect_frame hc
  obtain ⟨-, -, hforced, -⟩ := collect_ok hc
  rw [← hreader] at hforced
  have hseq : c.seq.OnTime da blockTime env.now last := h.congr hreader hclock
  have hstamp : ∀ t, stamp = some t →
      (0 < c.forced.2 ∧ t = c.seq.clock.timestamp (c.seq.checkpoint.txIndex + c.forced.2)) ∨
        (c.forced.2 = 0 ∧ c.seq.catchUpState ≠ .catchUpInProgress ∧ t = env.now) := by
    intro t ht
    rcases hout : (Sequencer.finish c req env).1 with e | resp
    · simp [show stamp = none by simp only [stamp, hout]] at ht
    · rw [show stamp = some resp.timestamp by simp only [stamp, hout]] at ht
      rw [← some.inj ht]
      exact finish_timestamp hc hout
  -- a wall-clock stamp with an epoch at hand would mean that the first was postponed
  have hwall : c.forced.2 = 0 → c.seq.catchUpState ≠ .catchUpInProgress →
      c.seq.remaining = [] := by
    intro hzero hidle
    by_contra hne
    rcases htakes with hcatch | hfirst
    · exact hidle hcatch
    · have hpos := forced_pos_of_takesFirst hc hfirst (by rw [hforced]; exact hne)
      omega
  have hlater : ∀ t, stamp.or last = some t → c.seq.remaining ≠ [] →
      t ≤ c.seq.clock.timestamp (c.seq.checkpoint.txIndex + c.forced.2 + 1) := by
    intro t ht hne
    rcases hout : stamp with _ | t'
    · rw [hout] at ht
      exact (hseq.next_le hne t ht).trans (c.seq.clock.timestamp_mono (by omega))
    rw [hout] at ht
    obtain rfl := some.inj ht
    rcases hstamp t' hout with ⟨-, rfl⟩ | ⟨hzero, hidle, -⟩
    · exact c.seq.clock.timestamp_mono (by omega)
    exact absurd (hwall hzero hidle) hne
  constructor
  · have hmoved := finish_toEpochReader c req env
    obtain ⟨-, -, -, hclk, -⟩ := finish_frame c req env
    by_cases hactive : 0 < c.daHeight ∨ 0 < c.forcedTxs.length
    · rw [if_pos hactive] at hmoved
      exact hseq.advance hmoved hclk (fun hne t ht => hlater t ht hne)
    rw [if_neg hactive] at hmoved
    have hempty : c.seq.remaining = [] := by
      rw [← hforced]
      exact length_eq_zero_iff.mp (by omega)
    have hsame : c.seq.OnTime da blockTime env.now (stamp.or last) :=
      ⟨hseq.placed, hseq.counted, fun hne => absurd hempty hne, hseq.cached⟩
    exact hsame.congr hmoved hclk
  · intro t ht
    rcases hstamp t ht with ⟨hpos, rfl⟩ | ⟨hzero, hidle, rfl⟩
    · obtain ⟨hne, hle⟩ := forced_in_epoch hc hpos
      have hcount' := hseq.counted (by
        rw [← length_pos_iff]
        omega)
      have hended := c.seq.clock.timestamp_le_end (hcount' ▸ hle)
      refine ⟨⟨hended.trans hend, ?_⟩, _, clockBound_of_remaining hne, hended⟩
      intro l hl
      exact (hseq.next_le hne l hl).trans (c.seq.clock.timestamp_mono (by omega))
    · refine ⟨⟨le_rfl, hlast⟩, env.now, ?_, le_rfl⟩
      unfold clockBound
      rw [if_neg (not_not.mpr (hwall hzero hidle)), if_neg hidle]

end

end Sequencer

end

/-! ## Whole runs -/

namespace ObservedSequencer

variable {da : ℕ → List Blob} {blockTime : ℕ → Time} {w : ObservedSequencer}

theorem timestamps_sorted (w : ObservedSequencer) (e : NodeEvent) :
    (w.timestamps e).Pairwise (· ≤ ·) := by
  unfold timestamps
  split
  · split
    · exact pairwise_singleton _ _
    · exact List.Pairwise.nil
  · exact List.Pairwise.nil

theorem step_last {hist : List Time} {e : NodeEvent}
    (hlast : ∀ t ∈ hist, ∃ l, w.last = some l ∧ t ≤ l)
    (hge : ∀ t ∈ w.timestamps e, ∀ l, w.last = some l → l ≤ t) (maxQueueSize : ℕ) :
    ∀ t ∈ hist ++ w.timestamps e, ∃ l, (w.step maxQueueSize e).last = some l ∧ t ≤ l := by
  have hnew : (w.timestamps e = [] ∧ (w.step maxQueueSize e).last = w.last) ∨
      ∃ t, w.timestamps e = [t] ∧ (w.step maxQueueSize e).last = some t := by
    unfold step
    unfold timestamps
    split
    · split
      · exact .inr ⟨_, rfl, rfl⟩
      · exact .inl ⟨rfl, rfl⟩
    · exact .inl ⟨rfl, rfl⟩
  intro t ht
  rcases hnew with ⟨hnone, hkept⟩ | ⟨t', hsome, hset⟩
  · rw [hnone, append_nil] at ht
    rw [hkept]
    exact hlast t ht
  rw [hsome] at ht hge
  rw [hset]
  refine ⟨t', rfl, ?_⟩
  rcases mem_append.mp ht with ht | ht
  · obtain ⟨l, hl, hle⟩ := hlast t ht
    exact hle.trans (hge t' (mem_singleton.mpr rfl) l hl)
  · rw [mem_singleton.mp ht]

/-- The clock is right, and neither the last timestamp nor the clock's end time is ahead of the wall
clock, the genesis time apart. -/
structure InTime (da : ℕ → List Blob) (blockTime : ℕ → Time) (w : ObservedSequencer) : Prop where
  onTime : w.seq.OnTime da blockTime w.wall w.last
  last_le : ∀ t, w.last = some t → t ≤ w.wall
  end_le : w.seq.clock.currentDAEndTime ≤ max w.seq.genesis.startTime w.wall
  le_bound : ∀ t, w.last = some t → ∃ b, w.bound = some b ∧ t ≤ b

section

variable (h : w.InTime da blockTime) (hmono : Monotone blockTime)
  (hfits : ∀ d, FitsUnixNano (blockTime d))
include h hmono hfits

theorem InTime.getNextBatch {req : GetNextBatchRequest} {env : CallEnv}
    (henv : env.Timely da blockTime w.wall) (hkeeps : KeepsTime da blockTime w req env)
    (maxQueueSize : ℕ) :
    (w.step maxQueueSize (.call (.getNextBatch req env))).InTime da blockTime ∧
      ∀ t ∈ w.timestamps (.call (.getNextBatch req env)), ∀ l, w.last = some l → l ≤ t := by
  have honTime : w.seq.OnTime da blockTime env.now w.last :=
    ⟨h.onTime.placed, h.onTime.counted, h.onTime.next_le, h.onTime.cached.seenBy_mono henv.wall_le⟩
  have hlast : ∀ t, w.last = some t → t ≤ env.now := fun t ht => (h.last_le t ht).trans henv.wall_le
  have hend : w.seq.clock.currentDAEndTime ≤ env.now :=
    h.end_le.trans (max_le hkeeps.genesis_le henv.wall_le)
  obtain ⟨hfetched, hfend, hcatch⟩ := honTime.fetchIfNeeded hmono hfits henv hend h.le_bound
    hkeeps
  unfold step timestamps nodeStep call stampBound
  dsimp only
  by_cases hid : w.seq.id = req.id
  · rw [if_neg (not_not.mpr hid)]
    rcases hc : w.seq.collect req env with ⟨e | c, s'⟩
    · -- the fetch fails
      have hcall : w.seq.getNextBatch req env = (.error e, s') := by
        unfold Sequencer.getNextBatch
        rw [if_neg (not_not.mpr hid), hc]
      have hfail : w.seq.bootstrap.fetchIfNeeded req.maxBytes env = (.error e, s') := by
        unfold collect at hc
        dsimp only at hc
        split at hc
        · rename_i e' herr
          obtain ⟨he, hs'⟩ := Prod.mk.inj hc
          exact Prod.ext (herr.trans (congrArg _ (error.inj he))) hs'
        · cases hc
      rw [hfail] at hfetched hfend ⊢
      rw [hcall]
      exact ⟨⟨hfetched, hlast, hfend.trans (le_max_right _ _), h.le_bound⟩, by simp⟩
    · have hc' : (w.seq.collect req env).1 = .ok c := congrArg Prod.fst hc
      have hcall : w.seq.getNextBatch req env = finish c req env := by
        unfold Sequencer.getNextBatch
        rw [if_neg (not_not.mpr hid), hc]
      obtain ⟨hreader, hstate, hclock, -⟩ := collect_frame hc'
      obtain ⟨hdaHeight, -, hforced, -⟩ := collect_ok hc'
      have hfetch : w.seq.bootstrap.fetchIfNeeded req.maxBytes env =
          (.ok c.daHeight, (w.seq.bootstrap.fetchIfNeeded req.maxBytes env).2) :=
        Prod.ext hdaHeight rfl
      have hsame : (w.seq.bootstrap.fetchIfNeeded req.maxBytes env).2.clockBound env.now =
          c.seq.clockBound env.now := by
        unfold clockBound
        rw [hreader, hstate, hclock]
      have hbefore := hfetched.le_bound hlast h.le_bound
      -- catching up that was on is still on if there is an epoch at hand
      have htakes : c.seq.catchUpState = .catchUpInProgress ∨
          ∀ tx ∈ c.forcedTxs.head?, env.filter.TakesFirst req.maxBytes tx := by
        by_cases hnone : c.forcedTxs = []
        · rw [hnone]
          exact .inr (by simp)
        obtain ⟨hhand, hstill⟩ := hcatch (hforced ▸ hnone)
        rw [hstate, hforced, hhand]
        rcases hkeeps.takes with hprogress | hfirst
        · exact .inl (hstill hprogress)
        · exact .inr hfirst
      obtain ⟨hafter, hstamp⟩ := hfetched.finish hc' (hclock ▸ hfend) hlast htakes
      have hfinal : (finish c req env).2.clock.currentDAEndTime ≤ env.now := by
        rw [(finish_frame c req env).2.2.2.1, hclock]
        exact hfend
      rw [hcall, hfetch]
      rcases hout : (finish c req env).1 with e | resp
      · rw [hout] at hafter
        exact ⟨⟨hafter, hlast, hfinal.trans (le_max_right _ _), hbefore⟩, by simp⟩
      rw [hout] at hafter hstamp
      obtain ⟨⟨hle, hge⟩, b, hb, hleb⟩ := hstamp resp.timestamp rfl
      refine ⟨⟨hafter, ?_, hfinal.trans (le_max_right _ _), ?_⟩, ?_⟩
      · intro t ht
        rw [← some.inj ht]
        exact hle
      · intro t ht
        rw [← some.inj ht]
        dsimp only
        rw [hsame, hb]
        exact ⟨b, rfl, hleb⟩
      · intro t ht
        rw [mem_singleton.mp ht]
        exact hge
  · have hcall : w.seq.getNextBatch req env = (.error .invalidId, w.seq) := by
      unfold Sequencer.getNextBatch
      rw [if_pos hid]
    rw [hcall, if_pos hid]
    exact ⟨⟨honTime, hlast, hend.trans (le_max_right _ _), h.le_bound⟩, by simp⟩

theorem InTime.step {e : NodeEvent} (htimely : e.Timely da blockTime w)
    (hkeeps : e.KeepsTime da blockTime w) (maxQueueSize : ℕ) :
    (w.step maxQueueSize e).InTime da blockTime ∧
      ∀ t ∈ w.timestamps e, ∀ l, w.last = some l → l ≤ t := by
  cases e with
  | call c =>
    cases c with
    | getNextBatch req env => exact h.getNextBatch hmono hfits htimely hkeeps maxQueueSize
    | submitBatchTxs id batch written =>
      obtain ⟨hreader, hclock, hgenesis, -⟩ := w.seq.submitBatchTxs_frame id batch written
      refine ⟨⟨h.onTime.congr hreader hclock, h.last_le, ?_, h.le_bound⟩, by simp [timestamps]⟩
      show (w.seq.submitBatchTxs id batch written).2.clock.currentDAEndTime ≤
        max (w.seq.submitBatchTxs id batch written).2.genesis.startTime w.wall
      rw [hclock, hgenesis]
      exact h.end_le
  | commitBlock blockTime =>
    exact ⟨⟨⟨h.onTime.placed, h.onTime.counted, h.onTime.next_le, h.onTime.cached⟩, h.last_le,
      h.end_le, h.le_bound⟩, by simp [timestamps]⟩
  | restart => exact absurd htimely (by simp [NodeEvent.Timely])
  | learnGenesisDAHeight height =>
    exact ⟨⟨⟨h.onTime.placed, h.onTime.counted, h.onTime.next_le, h.onTime.cached⟩, h.last_le,
      h.end_le, h.le_bound⟩, by simp [timestamps]⟩

end

end ObservedSequencer

theorem timeOfUint64_uint64OfTime {t : ℤ} (ht : FitsUnixNano t) :
    timeOfUint64 (uint64OfTime t) = t := by
  have hlo : (-2 ^ 63 : ℤ) ≤ t := ht.1
  have hhi : t < 2 ^ 63 := ht.2
  have hnat : (((t % 2 ^ 64).toNat % 2 ^ 64 : ℕ) : ℤ) = t % 2 ^ 64 := by omega
  show (if (t % 2 ^ 64).toNat % 2 ^ 64 < 2 ^ 63 then (((t % 2 ^ 64).toNat % 2 ^ 64 : ℕ) : ℤ)
    else (((t % 2 ^ 64).toNat % 2 ^ 64 : ℕ) : ℤ) - 2 ^ 64) = t
  split_ifs <;> omega

theorem State.assertValidSequence_time {a b : ℤ} (ha : FitsUnixNano a) (hb : FitsUnixNano b)
    (hle : a ≤ b) {state : State} (hstate : state.lastBlockTime = timeOfUint64 (uint64OfTime a))
    {header : Header} (htime : header.time = uint64OfTime b) (mismatchSeen : Bool)
    (got past : Time) :
    (state.assertValidSequence mismatchSeen header).1 ≠ .error (.invalidBlockTime got past) := by
  unfold State.assertValidSequence
  rw [hstate, htime, timeOfUint64_uint64OfTime ha, timeOfUint64_uint64OfTime hb,
    if_neg (not_lt.mpr hle)]
  split_ifs <;> simp

/-- The timestamps of one single sequencer instance never go back, over any run of its calls
and whatever else the node does, if every call meets the condition `KeepsTime`; and a block
stamped with one of them passes the time check after a block stamped with the one before. The
wall clock and the block times of DA do not go back, and no DA block is read before its time. -/
theorem single_timestamps_monotone (genesis : Genesis) (client : Client) (id : Bytes)
    (maxQueueSize : ℕ) (db : SequencerDb) (da : ℕ → List Blob) (blockTime : ℕ → Time)
    (hmono : Monotone blockTime) (hfits : ∀ d, FitsUnixNano (blockTime d)) (wall : Time)
    (events : List NodeEvent)
    (htimely : ∀ p ∈ steps (ObservedSequencer.step maxQueueSize)
      ⟨.new genesis client id maxQueueSize db, none, wall, none⟩ events,
        p.2.Timely da blockTime p.1)
    (hkeeps : ∀ p ∈ steps (ObservedSequencer.step maxQueueSize)
      ⟨.new genesis client id maxQueueSize db, none, wall, none⟩ events,
        p.2.KeepsTime da blockTime p.1) :
    let stamps := (outputs (ObservedSequencer.step maxQueueSize) ObservedSequencer.timestamps
      ⟨.new genesis client id maxQueueSize db, none, wall, none⟩ events).flatten
    stamps.Pairwise (· ≤ ·) ∧
      ∀ a b, [a, b] <:+: stamps → FitsUnixNano a → FitsUnixNano b →
        ∀ (state : State) (header : Header) (mismatchSeen : Bool) (got past : Time),
          state.lastBlockTime = timeOfUint64 (uint64OfTime a) → header.time = uint64OfTime b →
          (state.assertValidSequence mismatchSeen header).1 ≠
            .error (.invalidBlockTime got past) := by
  intro stamps
  have hrun := output_invariant (ObservedSequencer.step maxQueueSize)
    ObservedSequencer.timestamps
    (fun w hist => w.InTime da blockTime ∧ hist.Pairwise (· ≤ ·) ∧
      ∀ t ∈ hist, ∃ l, w.last = some l ∧ t ≤ l)
    (fun w e => e.Timely da blockTime w ∧ e.KeepsTime da blockTime w)
    (by
      rintro w e hist ⟨hin, hsorted, hlast⟩ ⟨ht, hk⟩
      obtain ⟨hnext, hge⟩ := hin.step hmono hfits ht hk maxQueueSize
      refine ⟨hnext, ?_, ?_⟩
      · rw [pairwise_append]
        refine ⟨hsorted, w.timestamps_sorted e, ?_⟩
        intro t htm t' ht'
        obtain ⟨l, hl, hle⟩ := hlast t htm
        exact hle.trans (hge t' ht' l hl)
      · exact w.step_last hlast hge maxQueueSize)
    ⟨⟨⟨fun hne => absurd rfl hne, fun hne => absurd rfl hne,
        fun hne => absurd (remaining_of_nil rfl) hne,
        AsyncBlockRetriever.new_caches _ _ _⟩,
      fun t ht => absurd ht (by simp), le_max_left _ _, by simp⟩, List.Pairwise.nil, by simp⟩
    (fun p hp => ⟨htimely p hp, hkeeps p hp⟩)
  obtain ⟨-, hsorted, -⟩ := hrun
  refine ⟨hsorted, ?_⟩
  intro a b hadj ha hb state header mismatchSeen got past hstate htime
  have hle : a ≤ b := by
    have hpair := hsorted.sublist hadj.sublist
    exact (pairwise_cons.mp hpair).1 b (mem_singleton.mpr rfl)
  exact State.assertValidSequence_time ha hb hle hstate htime mismatchSeen got past

/-! ## One forced transaction in normal operation -/

/-- A call on the small chain at the wall-clock time `now`, on a DA layer that has the heights
below `top`, all with the same block time. -/
def wallCall (now daTime : Time) (top : ℕ) : NodeEvent :=
  .call (.getNextBatch sampleRequest
    { sampleEnv (fun h => if h < top then ⟨.success, "", daTime, sampleDa h⟩
        else ⟨.heightFromFuture, "", 0, []⟩) with now := now })

def normalRun (daTime : Time) : List NodeEvent :=
  [wallCall 10000000000 daTime 0, wallCall 11000000000 daTime 2]

def normalStart : ObservedSequencer := ⟨sampleSequencer, none, 0, none⟩

theorem wallCall_timely {now daTime : Time} {top : ℕ} {w : ObservedSequencer}
    (hfits : FitsUnixNano now) (hwall : w.wall ≤ now) (hda : 0 < top → daTime ≤ now) :
    (wallCall now daTime top).Timely sampleDa (fun _ => daTime) w where
  genuine := by
    refine ⟨fun h => ?_, fun _ _ _ hmem => by cases hmem⟩
    show ResultRetrieve.Genuine sampleDa _ h (if h < top then _ else _)
    split_ifs
    · exact .inl ⟨.inl ⟨rfl, rfl⟩, rfl⟩
    · exact .inr rfl
  fits := hfits
  wall_le := hwall
  retrieved := by
    intro h hcode
    apply hda
    by_contra htop
    apply hcode
    show (if h < top then _ else _ : ResultRetrieve).code = _
    rw [if_neg (by omega)]
  prefetched := fun _ _ _ hmem => by cases hmem

theorem normalRun_timely {daTime : Time} (hda : daTime ≤ 11000000000) :
    ∀ p ∈ steps (ObservedSequencer.step 0) normalStart (normalRun daTime),
      p.2.Timely sampleDa (fun _ => daTime) p.1 := by
  intro p hp
  rcases mem_cons.mp hp with rfl | hp
  · refine wallCall_timely ⟨by decide, by decide⟩ ?_ (fun htop => absurd htop (by decide))
    show (0 : Time) ≤ 10000000000
    decide
  · rw [mem_singleton.mp hp]
    refine wallCall_timely ⟨by decide, by decide⟩ ?_ (fun _ => hda)
    show (10000000000 : Time) ≤ 11000000000
    decide

/-- A batch from the wall clock at ten seconds, then one with a forced transaction from an
epoch that ended at nine: the second timestamp is before the first. -/
theorem single_timestamps_go_back :
    (∀ p ∈ steps (ObservedSequencer.step 0) normalStart (normalRun 9000000000),
        p.2.Timely sampleDa (fun _ => 9000000000) p.1) ∧
      (outputs (ObservedSequencer.step 0) ObservedSequencer.timestamps normalStart
        (normalRun 9000000000)).flatten = [10000000000, 9000000000] ∧
      ¬ (outputs (ObservedSequencer.step 0) ObservedSequencer.timestamps normalStart
        (normalRun 9000000000)).flatten.Pairwise (· ≤ ·) :=
  ⟨normalRun_timely (by decide), by decide, by decide⟩

theorem cosmosFilterTxs_takesFirst : (cosmosFilterTxs false).TakesFirst 1 [1] := by
  intro txs maxGas forced statuses hok
  rw [← ok.inj hok]
  simp [cosmosFilterLoop]

theorem single_timestamps_monotone_on_sample :
    (outputs (ObservedSequencer.step 0) ObservedSequencer.timestamps normalStart
        (normalRun 10500000000)).flatten = [10000000000, 10500000000] ∧
      (outputs (ObservedSequencer.step 0) ObservedSequencer.timestamps normalStart
        (normalRun 10500000000)).flatten.Pairwise (· ≤ ·) := by
  refine ⟨by decide, ?_⟩
  refine (single_timestamps_monotone sampleGenesis sampleClient [5] 0 sampleDb sampleDa
    (fun _ => 10500000000) (fun _ _ _ => le_rfl) (fun _ => ⟨by decide, by decide⟩) 0
    (normalRun 10500000000) (normalRun_timely (by decide)) ?_).1
  intro p hp
  rcases mem_cons.mp hp with rfl | hp
  · refine ⟨by decide, fun state hstate => (by cases hstate), fun _ _ _ t ht => (by cases ht), ?_⟩
    refine .inr (fun tx htx => ?_)
    obtain rfl : [1] = tx := some.inj htx
    exact cosmosFilterTxs_takesFirst
  · rw [mem_singleton.mp hp]
    refine ⟨by decide, fun state hstate => (by cases hstate), fun _ _ _ t ht => ?_, ?_⟩
    · obtain rfl : (10000000000 : Time) = t := some.inj ht
      decide
    · refine .inr (fun tx htx => ?_)
      obtain rfl : [1] = tx := some.inj htx
      exact cosmosFilterTxs_takesFirst

end ChainSdk

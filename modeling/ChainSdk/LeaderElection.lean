/-
Taking over leadership: `DynamicLeaderElection.Run` of `pkg/raft/election.go`, on a node whose
follower is the syncer, with `Syncer.IsSyncedWithRaft` and `Syncer.RecoverFromRaft`.

A follower that becomes leader compares its store with the state replicated through raft. If they
are not at the same height it recovers from the one block the raft state carries, and then starts
the leader.
-/
import ChainSdk.RaftReplication
import ChainSdk.SyncedChain

namespace ChainSdk

open Except List Option Runs SyncNode

/-! ## The follower and the raft state -/

/-- How the block in a raft state is decoded: `SignedHeader.UnmarshalBinary` and
`Data.UnmarshalBinary`. -/
structure RaftPayload where
  unmarshalHeader : Bytes → Option SignedHeader
  unmarshalData : Bytes → Option Data

/-- The world while a follower is compared with raft: whether the reads of the store succeed on
what is there, and what the block of the raft state meets. -/
structure RaftSyncEnv where
  stateRead : Bool
  headerRead : Bool
  stateReadAgain : Bool
  event : EventEnv

inductive RaftSyncError
  | getState
  | getHeader (height : ℕ)
  | hashMismatch (stored replicated : Hash)
  deriving DecidableEq

inductive RecoverError
  | unmarshalHeader
  | unmarshalData
  | hashMismatch (stored replicated : Hash)
  | sync (err : TrySyncError)
  | invalidBlockHeight (height expected : ℕ)
  deriving DecidableEq

def RaftBlockState.OfBlock (payload : RaftPayload) (c : Codec) (state : RaftBlockState) : Prop :=
  ∀ header, payload.unmarshalHeader state.header = some header →
    header.header.height = state.height ∧ c.headerHash header.header = state.hash

namespace SyncNode

def isSyncedWithRaft (n : SyncNode) (env : RaftSyncEnv) (raftState : RaftBlockState) :
    Except RaftSyncError ℤ :=
  match n.store.getState with
  | none => .error .getState
  | some state =>
    if !env.stateRead then .error .getState
    else if state.lastBlockHeight ≠ raftState.height then
      .ok ((state.lastBlockHeight : ℤ) - raftState.height)
    else if raftState.height = 0 then .ok 0
    else
      match n.store.blocks raftState.height with
      | none => .error (.getHeader raftState.height)
      | some block =>
        if !env.headerRead then .error (.getHeader raftState.height)
        else if n.codec.headerHash block.header.header ≠ raftState.hash then
          .error (.hashMismatch (n.codec.headerHash block.header.header) raftState.hash)
        else .ok 0

/-- The state `RecoverFromRaft` goes by: that in memory, or, before the syncer has been started,
that of the store or of genesis. -/
def recoveryState (n : SyncNode) (env : RaftSyncEnv) : State :=
  if n.syncer.lastState.chainID ≠ "" then n.syncer.lastState
  else
    match n.store.getState, env.stateReadAgain with
    | some state, true => state
    | _, _ => { State.zero with
        chainID := n.syncer.genesis.chainID
        lastBlockHeight := n.syncer.genesis.initialHeight - 1 }

/-- The event `RecoverFromRaft` makes of the block. Its source is the empty string. -/
def raftEvent (header : SignedHeader) (data : Data) : HeightEvent :=
  ⟨⟨header, data, 0⟩, .sourceP2P, (0, 0)⟩

def recoverFromRaft (payload : RaftPayload) (n : SyncNode) (env : RaftSyncEnv)
    (raftState : RaftBlockState) : Except Panic (Except RecoverError Unit × SyncNode) :=
  match payload.unmarshalHeader raftState.header, payload.unmarshalData raftState.data with
  | none, _ => .ok (.error .unmarshalHeader, n)
  | some _, none => .ok (.error .unmarshalData, n)
  | some header, some data =>
    let currentState := n.recoveryState env
    if currentState.lastBlockHeight = raftState.height then
      if currentState.lastHeaderHash ≠ raftState.hash then
        .ok (.error (.hashMismatch currentState.lastHeaderHash raftState.hash), n)
      else .ok (.ok (), n)
    -- raft is one block ahead
    else if currentState.lastBlockHeight + 1 = raftState.height then
      match n.trySyncNextBlock env.event (raftEvent header data) with
      | .error panic => .error panic
      | .ok (.error err, n) => .ok (.error (.sync err), n)
      | .ok (.ok (), n) => .ok (.ok (), n)
    else if raftState.height < currentState.lastBlockHeight then
      .ok (.error (.invalidBlockHeight raftState.height (currentState.lastBlockHeight + 1)), n)
    else .ok (.ok (), n)

end SyncNode

/-! ## The election -/

inductive Worker
  | follower
  | leader
  deriving DecidableEq

inductive ElectionError
  | isSynced (err : RaftSyncError)
  | recover (err : RecoverError)
  | factory
  | leadershipLost
  | worker
  | contextDone
  /-- The process died. -/
  | panicked (panic : Panic)
  deriving DecidableEq

inductive KnownLeader
  | none
  | self
  | other
  deriving DecidableEq

/-- The world while a notification is handled. -/
structure NotifyEnv where
  /-- `waitForMsgsLanded` returns nil. -/
  landed : Bool
  /-- `leaderID` is the node itself. -/
  stillLeader : Bool
  /-- The factory of the worker to be started returns no error. -/
  factory : Bool
  sync : RaftSyncEnv

inductive ElectionEvent
  | notify (becameLeader : Bool) (env : NotifyEnv)
  | tick (leader : KnownLeader) (factory : Bool)
  | workerFailed
  | contextDone
  /-- The follower handles a block. -/
  | sync (env : EventEnv) (ev : HeightEvent)
  /-- The state machine of the node has applied an entry. -/
  | raftApplied (state : RaftBlockState)

/-- The variables of `Run`, with the node it runs on. -/
structure Election where
  isStarted : Bool
  isCurrentlyLeader : Bool
  ticking : Bool
  worker : Option Worker
  /-- The error `Run` has returned. -/
  returned : Option ElectionError
  /-- Calls of `leadershipTransfer`. -/
  transfers : ℕ
  node : SyncNode
  raftState : RaftBlockState

namespace Election

/-- `Run` has been called. -/
def new (node : SyncNode) (raftState : RaftBlockState) : Election :=
  ⟨false, false, true, none, none, 0, node, raftState⟩

def giveUp (e : Election) (err : ElectionError) : Election :=
  { e with worker := none, returned := some err }

def startLeader (e : Election) (env : NotifyEnv) : Election :=
  if !env.factory then e.giveUp .factory
  else { e with isStarted := true, isCurrentlyLeader := true, worker := some .leader }

section

variable (payload : RaftPayload)

def verifyState (e : Election) (env : NotifyEnv) : Election :=
  if e.raftState.height = 0 then { e with worker := some .follower }
  else
    match e.node.isSyncedWithRaft env.sync e.raftState with
    | .error err => e.giveUp (.isSynced err)
    | .ok diff =>
      if diff ≤ 0 then { e with worker := some .follower }
      else
        match e.node.recoverFromRaft payload env.sync e.raftState with
        | .error panic => e.giveUp (.panicked panic)
        | .ok (.error err, node) => { e with node := node }.giveUp (.recover err)
        | .ok (.ok (), node) => { e with node := node, worker := some .follower }

def becomeLeader (e : Election) (env : NotifyEnv) : Election :=
  if !env.landed then { e with transfers := e.transfers + 1 }
  else if !e.isStarted then e.startLeader env
  else if !env.stillLeader then e
  else
    match e.node.isSyncedWithRaft env.sync e.raftState with
    | .error err => e.giveUp (.isSynced err)
    | .ok diff =>
      if diff = 0 then e.startLeader env
      else
        match e.node.recoverFromRaft payload env.sync e.raftState with
        | .error panic => e.giveUp (.panicked panic)
        | .ok (.error err, node) =>
          { e with node := node, transfers := e.transfers + 1 }.giveUp (.recover err)
        | .ok (.ok (), node) => { e with node := node }.startLeader env

/-- One turn of the loop of `Run`, or something the node does in between. -/
def step (e : Election) (ev : ElectionEvent) : Election :=
  if e.returned.isSome then e
  else
    match ev with
    | .notify true env => if e.isCurrentlyLeader then e else e.becomeLeader payload env
    | .notify false env =>
      if e.isCurrentlyLeader then e.giveUp .leadershipLost
      else if e.isStarted then e
      else if !env.factory then { e with isStarted := true }.giveUp .factory
      else { e with isStarted := true }.verifyState payload env
    | .tick leader factory =>
      if !e.ticking then e
      else
        match leader with
        | .none => e
        | .self => { e with ticking := false }
        | .other =>
          if e.isStarted then { e with ticking := false }
          else if !factory then { e with ticking := false, isStarted := true }.giveUp .factory
          else { e with ticking := false, isStarted := true, worker := some .follower }
    | .workerFailed => { e with transfers := e.transfers + 1 }.giveUp .worker
    | .contextDone => e.giveUp .contextDone
    | .sync env ev =>
      if e.worker ≠ some .follower then e
      else
        match e.node.processHeightEvent env ev with
        | .error panic => e.giveUp (.panicked panic)
        | .ok node => { e with node := node }
    | .raftApplied state => { e with raftState := state }

/-! ## Safety of a start -/

/-- The store is at the replicated tip, or nothing is replicated yet. -/
def AtTip (n : SyncNode) (raftState : RaftBlockState) : Prop :=
  raftState.height = 0 ∨
    n.store.height = raftState.height ∧
      ∃ block, n.store.blocks raftState.height = some block ∧
        n.codec.headerHash block.header.header = raftState.hash

/-- The leader runs at the replicated tip, or there is none: leadership was given up or lost, or an
error returned. -/
def SafeOutcome (env : NotifyEnv) (before after : Election) : Prop :=
  after.worker = some .leader ∧ AtTip after.node after.raftState ∨
    after.worker ≠ some .leader ∧
      (before.transfers < after.transfers ∨ after.returned ≠ none ∨ env.stillLeader = false)

/-- A node that was running the follower is told that it is the leader, and comes out safe. -/
def SafeStart (e : Election) (ev : ElectionEvent) : Prop :=
  ∀ env, ev = .notify true env → e.worker = some .follower → e.returned = none →
    SafeOutcome env e (e.step payload ev)

/-- Nothing but the check of the heights stands between the notification and the leader. -/
structure Unhindered (payload : RaftPayload) (e : Election) (env : NotifyEnv) : Prop where
  landed : env.landed = true
  stillLeader : env.stillLeader = true
  stateRead : env.sync.stateRead = true
  header : (payload.unmarshalHeader e.raftState.header).isSome
  data : (payload.unmarshalData e.raftState.data).isSome
  factory : env.factory = true

/-- The step does not make a leader of a follower that is two blocks or more behind raft. -/
def CloseToTip (e : Election) (ev : ElectionEvent) : Prop :=
  ∀ env, ev = .notify true env → e.worker = some .follower → e.returned = none →
    Unhindered payload e env → e.raftState.height ≤ e.node.store.height + 1

end

/-! ## The follower's invariant -/

/-- A follower that has been started: its store is a chain, its last state is the stored one, and
it knows its chain. -/
structure Ready (c : Codec) (n : SyncNode) : Prop where
  synced : n.SyncedInv
  codec_eq : n.codec = c
  chainID : n.syncer.lastState.chainID ≠ ""

variable {payload : RaftPayload} {c : Codec} {n n' : SyncNode} {raftState : RaftBlockState}

theorem Ready.start {cfg : StartConfig} (hinitial : 0 < cfg.genesis.initialHeight)
    (hchain : cfg.genesis.chainID ≠ "") (h : start cfg Store.empty = .ok n) :
    Ready cfg.codec n := by
  obtain ⟨-, hcodec, hload, -, -⟩ := start_empty hinitial h
  refine ⟨SyncedInv.start hinitial h, hcodec, ?_⟩
  unfold Syncer.loadState at hload
  rcases hinit : cfg.initChain with err | root
  · simp [hinit] at hload
  · simp only [hinit, ok.injEq] at hload
    rw [← hload]
    exact hchain

theorem Ready.unmoved (hn : Ready c n) (h : n.Unmoved n') : Ready c n' where
  synced := hn.synced.unmoved h
  codec_eq := h.chain.codec_eq.trans hn.codec_eq
  chainID := by
    rw [h.chain.lastState_eq]
    exact hn.chainID

theorem Ready.commits (hsha : ∀ bz, c.sha256 bz ≠ []) (hn : Ready c n) {env : EventEnv}
    {header : SignedHeader} {data : Data} (h : n.Commits env n' header data) : Ready c n' where
  synced := by
    refine hn.synced.commits ?_ h
    rw [hn.codec_eq]
    exact hsha
  codec_eq := h.codec_eq.trans hn.codec_eq
  chainID := by
    obtain ⟨root, daHeight, -, hstate⟩ := h.lastState_eq
    rw [hstate]
    exact hn.chainID

theorem Ready.processHeightEvent (hsha : ∀ bz, c.sha256 bz ≠ []) (hn : Ready c n) {env : EventEnv}
    {ev : HeightEvent} (h : n.processHeightEvent env ev = .ok n') : Ready c n' := by
  rcases processHeightEvent_cases h with hunmoved | ⟨data, hcommits⟩
  · exact hn.unmoved hunmoved
  · exact hn.commits hsha hcommits

theorem Ready.recoveryState (hn : Ready c n) (env : RaftSyncEnv) :
    n.recoveryState env = n.syncer.lastState := by
  unfold SyncNode.recoveryState
  rw [if_pos hn.chainID]

/-! ### What the comparison with raft finds -/

theorem Ready.isSyncedWithRaft_ne (hn : Ready c n) {env : RaftSyncEnv}
    (hne : n.store.height ≠ raftState.height) :
    n.isSyncedWithRaft env raftState =
      if !env.stateRead then .error .getState
      else .ok ((n.store.height : ℤ) - raftState.height) := by
  unfold isSyncedWithRaft
  rw [hn.synced.lastState_eq]
  dsimp only
  rw [hn.synced.height_eq, if_pos hne]

theorem Ready.isSyncedWithRaft_ok (hn : Ready c n) {env : RaftSyncEnv} {diff : ℤ}
    (hsynced : n.isSyncedWithRaft env raftState = .ok diff) :
    diff = 0 ∧ AtTip n raftState ∨
      diff ≠ 0 ∧ env.stateRead = true ∧ n.store.height ≠ raftState.height := by
  by_cases heq : n.store.height = raftState.height
  · left
    unfold isSyncedWithRaft at hsynced
    rw [hn.synced.lastState_eq] at hsynced
    dsimp only at hsynced
    rw [hn.synced.height_eq, if_neg (not_not.mpr heq)] at hsynced
    rcases hblock : n.store.blocks raftState.height with _ | block
    · rw [hblock] at hsynced
      split_ifs at hsynced with hread hzero
      exact ⟨(ok.inj hsynced).symm, .inl hzero⟩
    rw [hblock] at hsynced
    dsimp only at hsynced
    split_ifs at hsynced with hread hzero hheader hhash
    · exact ⟨(ok.inj hsynced).symm, .inl hzero⟩
    · exact ⟨(ok.inj hsynced).symm, .inr ⟨heq, block, hblock, not_not.mp hhash⟩⟩
  · right
    rw [hn.isSyncedWithRaft_ne heq] at hsynced
    split_ifs at hsynced with hread
    have hdiff := ok.inj hsynced
    exact ⟨by omega, by simpa using hread, heq⟩

/-! ### What a recovery does -/

/-- A recovery that returns nil has applied the block of the raft state and is at the tip, or has
done nothing at all, two blocks or more behind. -/
theorem Ready.recoverFromRaft (hsha : ∀ bz, c.sha256 bz ≠ []) (hn : Ready c n)
    (hblock : raftState.OfBlock payload c) (hne : n.store.height ≠ raftState.height)
    {env : RaftSyncEnv} {result : Except RecoverError Unit}
    (hrecover : n.recoverFromRaft payload env raftState = .ok (result, n')) :
    Ready c n' ∧ (result = .ok () → AtTip n' raftState ∨
      (payload.unmarshalHeader raftState.header).isSome ∧
        (payload.unmarshalData raftState.data).isSome ∧
        n.store.height + 1 < raftState.height) := by
  unfold SyncNode.recoverFromRaft at hrecover
  rw [hn.recoveryState] at hrecover
  rcases hheader : payload.unmarshalHeader raftState.header with _ | header
  · rw [hheader] at hrecover
    obtain ⟨rfl, rfl⟩ := Prod.mk.inj (ok.inj hrecover)
    exact ⟨hn, fun hcontra => absurd hcontra (by simp)⟩
  rcases hdata : payload.unmarshalData raftState.data with _ | data
  · rw [hheader, hdata] at hrecover
    obtain ⟨rfl, rfl⟩ := Prod.mk.inj (ok.inj hrecover)
    exact ⟨hn, fun hcontra => absurd hcontra (by simp)⟩
  rw [hheader, hdata] at hrecover
  dsimp only at hrecover
  rw [hn.synced.height_eq, if_neg hne] at hrecover
  obtain ⟨hheight, hhash⟩ := hblock header hheader
  by_cases hnext : n.store.height + 1 = raftState.height
  · rw [if_pos hnext] at hrecover
    rcases hsync : n.trySyncNextBlock env.event (raftEvent header data) with
      panic | ⟨err | _, synced⟩
    · simp [hsync] at hrecover
    all_goals
      rw [hsync] at hrecover
      obtain ⟨rfl, rfl⟩ := Prod.mk.inj (ok.inj hrecover)
      rcases trySyncNextBlock_commits (hheight.trans hnext.symm) hsync with
        ⟨⟨e, he⟩, hunmoved⟩ | ⟨hok, hcommits⟩
    · exact ⟨hn.unmoved hunmoved, fun hcontra => absurd hcontra (by simp)⟩
    · simp at hok
    · simp at he
    · -- the block is applied, and it is the one raft has
      refine ⟨hn.commits hsha hcommits, fun _ => .inl (.inr ⟨?_, ?_⟩)⟩
      · rw [hcommits.height_after, hnext]
      · rw [← hnext, hcommits.codec_eq, hn.codec_eq]
        exact ⟨_, hcommits.block_new, hhash⟩
  · split_ifs at hrecover with hahead
    · obtain ⟨rfl, rfl⟩ := Prod.mk.inj (ok.inj hrecover)
      exact ⟨hn, fun hcontra => absurd hcontra (by simp)⟩
    · obtain ⟨rfl, rfl⟩ := Prod.mk.inj (ok.inj hrecover)
      exact ⟨hn, fun _ => .inr ⟨rfl, rfl, by omega⟩⟩

theorem Ready.recoverFromRaft_behind (hn : Ready c n) (env : RaftSyncEnv)
    (hheader : (payload.unmarshalHeader raftState.header).isSome)
    (hdata : (payload.unmarshalData raftState.data).isSome)
    (hbehind : n.store.height + 1 < raftState.height) :
    n.recoverFromRaft payload env raftState = .ok (.ok (), n) := by
  obtain ⟨header, hheader⟩ := isSome_iff_exists.mp hheader
  obtain ⟨data, hdata⟩ := isSome_iff_exists.mp hdata
  unfold SyncNode.recoverFromRaft
  rw [hheader, hdata, hn.recoveryState]
  dsimp only
  rw [hn.synced.height_eq, if_neg (by omega), if_neg (by omega), if_neg (by omega)]

/-! ## Starting the leader -/

variable {e : Election} {env : NotifyEnv}

theorem startLeader_eq (e : Election) (env : NotifyEnv) :
    (e.startLeader env).node = e.node ∧ (e.startLeader env).raftState = e.raftState ∧
      if env.factory then (e.startLeader env).worker = some .leader
      else (e.startLeader env).worker = none ∧ (e.startLeader env).returned ≠ none := by
  unfold startLeader giveUp
  by_cases hfactory : env.factory = true
  · simp [hfactory]
  · simp [hfactory]

theorem startLeader_safe {before : Election} (htip : AtTip e.node e.raftState) :
    SafeOutcome env before (e.startLeader env) := by
  obtain ⟨hnode, hraft, hworker⟩ := e.startLeader_eq env
  unfold SafeOutcome
  rw [hnode, hraft]
  split_ifs at hworker
  · exact .inl ⟨hworker, htip⟩
  · exact .inr ⟨by simp [hworker.1], .inr (.inl hworker.2)⟩

theorem giveUp_safe {before : Election} (e : Election) (err : ElectionError) :
    SafeOutcome env before (e.giveUp err) :=
  .inr ⟨by simp [giveUp], .inr (.inl (by simp [giveUp]))⟩

/-- What a started node does that is told that it is the leader: it comes to nothing, or it starts
at the tip, or it recovers first. -/
theorem Ready.becomeLeader_cases (hn : Ready c e.node) (payload : RaftPayload) (env : NotifyEnv)
    (hstarted : e.isStarted = true) :
    e.becomeLeader payload env = { e with transfers := e.transfers + 1 } ∨
      e.becomeLeader payload env = e ∧ env.stillLeader = false ∨
      (∃ err, e.becomeLeader payload env = e.giveUp err) ∨
      AtTip e.node e.raftState ∧ e.becomeLeader payload env = e.startLeader env ∨
      env.landed = true ∧ env.stillLeader = true ∧ env.sync.stateRead = true ∧
        e.node.store.height ≠ e.raftState.height ∧ ∃ result node,
          e.node.recoverFromRaft payload env.sync e.raftState = .ok (result, node) ∧
          e.becomeLeader payload env =
            match result with
            | .error err =>
              { e with node := node, transfers := e.transfers + 1 }.giveUp (.recover err)
            | .ok () => { e with node := node }.startLeader env := by
  unfold becomeLeader
  by_cases hlanded : env.landed = true
  swap
  · exact .inl (by simp [hlanded])
  by_cases hstill : env.stillLeader = true
  swap
  · exact .inr (.inl (by simp [hlanded, hstill, hstarted]))
  simp only [hlanded, hstarted, hstill, Bool.not_true, Bool.false_eq_true, if_false]
  rcases hsynced : e.node.isSyncedWithRaft env.sync e.raftState with err | diff
  · exact .inr (.inr (.inl ⟨_, rfl⟩))
  dsimp only
  rcases hn.isSyncedWithRaft_ok hsynced with ⟨hzero, htip⟩ | ⟨hdiff, hread, hne⟩
  · rw [if_pos hzero]
    exact .inr (.inr (.inr (.inl ⟨htip, rfl⟩)))
  rw [if_neg hdiff]
  rcases e.node.recoverFromRaft payload env.sync e.raftState with panic | ⟨err | _, node⟩
  · exact .inr (.inr (.inl ⟨_, rfl⟩))
  all_goals exact .inr (.inr (.inr (.inr ⟨trivial, trivial, hread, hne, _, node, rfl, rfl⟩)))

/-- A follower that is told that it is the leader comes out safe, unless it is two blocks behind or
more. -/
theorem becomeLeader_safe (hsha : ∀ bz, c.sha256 bz ≠ []) (hn : Ready c e.node)
    (hblock : e.raftState.OfBlock payload c) (hworker : e.worker = some .follower)
    (hstarted : e.isStarted = true)
    (hclose : Unhindered payload e env → e.raftState.height ≤ e.node.store.height + 1) :
    SafeOutcome env e (e.becomeLeader payload env) := by
  rcases hn.becomeLeader_cases payload env hstarted with heq | ⟨heq, hlost⟩ | ⟨err, heq⟩ |
    ⟨htip, heq⟩ | ⟨hlanded, hstill, hread, hne, err | _, node, hrecover, heq⟩
  all_goals rw [heq]
  · exact .inr ⟨by simp [hworker], .inl (Nat.lt_succ_self _)⟩
  · exact .inr ⟨by simp [hworker], .inr (.inr hlost)⟩
  · exact giveUp_safe e _
  · exact startLeader_safe htip
  · exact giveUp_safe _ _
  -- the recovery returned nil
  obtain ⟨-, hrecovered⟩ := hn.recoverFromRaft hsha hblock hne hrecover
  rcases hrecovered rfl with htip | ⟨hheader, hdata, hbehind⟩
  · exact startLeader_safe htip
  by_cases hfactory : env.factory = true
  · have hle := hclose ⟨hlanded, hstill, hread, hheader, hdata, hfactory⟩
    omega
  · dsimp only
    unfold startLeader
    rw [if_pos (by simpa using hfactory)]
    exact giveUp_safe _ _

theorem becomeLeader_behind (hn : Ready c e.node) (hstarted : e.isStarted = true)
    (hunhindered : Unhindered payload e env)
    (hbehind : e.node.store.height + 1 < e.raftState.height) :
    e.becomeLeader payload env =
      { e with isStarted := true, isCurrentlyLeader := true, worker := some .leader } := by
  obtain ⟨hlanded, hstill, hread, hheader, hdata, hfactory⟩ := hunhindered
  unfold becomeLeader
  simp only [hlanded, hstarted, hstill, Bool.not_true, Bool.false_eq_true, if_false]
  rw [hn.isSyncedWithRaft_ne (by omega), hread]
  rw [if_neg (by decide)]
  dsimp only
  rw [if_neg (by omega), hn.recoverFromRaft_behind _ hheader hdata hbehind]
  simp only [startLeader, hfactory, Bool.not_true, Bool.false_eq_true, if_false]

/-! ## The run -/

/-- The raft state is that of a block, a running follower has been started and is not the leader,
and a leader has been started. -/
structure Following (payload : RaftPayload) (c : Codec) (e : Election) : Prop where
  ready : Ready c e.node
  ofBlock : e.raftState.OfBlock payload c
  role : e.worker = some .follower → e.isStarted = true ∧ e.isCurrentlyLeader = false
  started : e.isCurrentlyLeader = true → e.isStarted = true

def AppliesBlocks (payload : RaftPayload) (c : Codec) : ElectionEvent → Prop
  | .raftApplied state => state.OfBlock payload c
  | _ => True

theorem Following.safeStart_iff (hsha : ∀ bz, c.sha256 bz ≠ []) (he : Following payload c e)
    (ev : ElectionEvent) : SafeStart payload e ev ↔ CloseToTip payload e ev := by
  have hstep : ∀ env, e.worker = some .follower → e.returned = none →
      e.step payload (.notify true env) = e.becomeLeader payload env := by
    intro env hworker hreturned
    unfold step
    simp [hreturned, (he.role hworker).2]
  constructor
  · rintro hsafe env rfl hworker hreturned hunhindered
    by_contra hbehind
    have houtcome := hsafe env rfl hworker hreturned
    rw [hstep env hworker hreturned, becomeLeader_behind he.ready (he.role hworker).1 hunhindered
      (by omega)] at houtcome
    dsimp only [SafeOutcome] at houtcome
    rcases houtcome with ⟨-, hzero | ⟨hheight, -⟩⟩ | ⟨hnone, -⟩
    · omega
    · omega
    · exact hnone rfl
  · rintro hclose env rfl hworker hreturned
    rw [hstep env hworker hreturned]
    exact becomeLeader_safe hsha he.ready he.ofBlock hworker (he.role hworker).1
      (hclose env rfl hworker hreturned)

theorem Following.giveUp (he : Following payload c e) (err : ElectionError) :
    Following payload c (e.giveUp err) :=
  ⟨he.ready, he.ofBlock, fun hnone => absurd hnone (by simp [Election.giveUp]), he.started⟩

theorem Following.transfer (he : Following payload c e) :
    Following payload c { e with transfers := e.transfers + 1 } :=
  ⟨he.ready, he.ofBlock, he.role, he.started⟩

theorem Following.startLeader (he : Following payload c e) (env : NotifyEnv) :
    Following payload c (e.startLeader env) := by
  unfold Election.startLeader
  split_ifs
  · exact he.giveUp .factory
  · exact ⟨he.ready, he.ofBlock, fun hleader => absurd hleader (by simp), fun _ => rfl⟩

section

variable (hsha : ∀ bz, c.sha256 bz ≠ []) (he : Following payload c e)
include hsha he

theorem Following.recovered (hne : e.node.store.height ≠ e.raftState.height) {env : RaftSyncEnv}
    {result : Except RecoverError Unit} {node : SyncNode}
    (hrecover : e.node.recoverFromRaft payload env e.raftState = .ok (result, node)) :
    Following payload c { e with node := node } :=
  ⟨(he.ready.recoverFromRaft hsha he.ofBlock hne hrecover).1, he.ofBlock, he.role, he.started⟩

theorem Following.becomeLeader
    (env : NotifyEnv) : Following payload c (e.becomeLeader payload env) := by
  by_cases hstarted : e.isStarted = true
  · rcases he.ready.becomeLeader_cases payload env hstarted with heq | ⟨heq, -⟩ | ⟨err, heq⟩ |
      ⟨-, heq⟩ | ⟨-, -, -, hne, err | _, node, hrecover, heq⟩
    all_goals rw [heq]
    · exact he.transfer
    · exact he
    · exact he.giveUp _
    · exact he.startLeader env
    · exact (he.recovered hsha hne hrecover).transfer.giveUp _
    · exact (he.recovered hsha hne hrecover).startLeader env
  · unfold Election.becomeLeader
    split_ifs
    · exact he.transfer
    · exact he.startLeader env
    all_goals simp_all

theorem Following.verifyState
    (hstarted : e.isStarted = true) (hleader : e.isCurrentlyLeader = false) (env : NotifyEnv) :
    Following payload c (e.verifyState payload env) := by
  have hrun : ∀ {e' : Election}, Following payload c e' → e'.isStarted = true →
      e'.isCurrentlyLeader = false → Following payload c { e' with worker := some .follower } :=
    fun he' hs hl => ⟨he'.ready, he'.ofBlock, fun _ => ⟨hs, hl⟩, he'.started⟩
  unfold Election.verifyState
  by_cases hzero : e.raftState.height = 0
  · rw [if_pos hzero]
    exact hrun he hstarted hleader
  rw [if_neg hzero]
  rcases hsynced : e.node.isSyncedWithRaft env.sync e.raftState with err | diff
  · exact he.giveUp _
  dsimp only
  rcases he.ready.isSyncedWithRaft_ok hsynced with ⟨hdiff, -⟩ | ⟨-, -, hne⟩
  · rw [if_pos (by omega)]
    exact hrun he hstarted hleader
  split_ifs
  · exact hrun he hstarted hleader
  rcases hrecover : e.node.recoverFromRaft payload env.sync e.raftState with
    panic | ⟨err | _, node⟩
  · exact he.giveUp _
  · exact (he.recovered hsha hne hrecover).giveUp _
  · exact hrun (he.recovered hsha hne hrecover) hstarted hleader

theorem Following.step {ev : ElectionEvent} (hev : AppliesBlocks payload c ev) :
    Following payload c (e.step payload ev) := by
  unfold Election.step
  by_cases hreturned : e.returned.isSome = true
  · rw [if_pos hreturned]
    exact he
  rw [if_neg hreturned]
  have hstarted : Following payload c { e with isStarted := true } :=
    ⟨he.ready, he.ofBlock, fun hworker => ⟨rfl, (he.role hworker).2⟩, fun _ => rfl⟩
  cases ev with
  | notify becameLeader env =>
    cases becameLeader with
    | true =>
      dsimp only
      split_ifs
      · exact he
      · exact he.becomeLeader hsha env
    | false =>
      dsimp only
      split_ifs with hleader
      · exact he.giveUp _
      · exact he
      · exact hstarted.giveUp _
      · exact hstarted.verifyState hsha rfl (by simpa using hleader) env
  | tick leader factory =>
    by_cases hticking : (!e.ticking) = true
    · dsimp only
      rw [if_pos hticking]
      exact he
    dsimp only
    rw [if_neg hticking]
    cases leader with
    | none => exact he
    | self => exact ⟨he.ready, he.ofBlock, he.role, he.started⟩
    | other =>
      split_ifs with hrunning
      · exact ⟨he.ready, he.ofBlock, he.role, he.started⟩
      · exact ⟨he.ready, he.ofBlock, fun hnone => absurd hnone (by simp [Election.giveUp]),
          fun _ => rfl⟩
      · -- nothing has been started, so that the node is not the leader
        refine ⟨he.ready, he.ofBlock, fun _ => ⟨rfl, ?_⟩, fun _ => rfl⟩
        exact Bool.eq_false_of_not_eq_true fun hleader => hrunning (he.started hleader)
  | workerFailed => exact he.transfer.giveUp _
  | contextDone => exact he.giveUp _
  | sync env ev =>
    dsimp only
    split_ifs
    · exact he
    rcases hprocess : e.node.processHeightEvent env ev with panic | node
    · exact he.giveUp _
    · exact ⟨he.ready.processHeightEvent hsha hprocess, he.ofBlock, he.role, he.started⟩
  | raftApplied state => exact ⟨he.ready, hev, he.role, he.started⟩

end

theorem Following.new (hnode : Ready c n) (hblock : raftState.OfBlock payload c) :
    Following payload c (new n raftState) :=
  ⟨hnode, hblock, fun hfollower => absurd hfollower (by simp [Election.new]),
    fun hleader => absurd hleader (by simp [Election.new])⟩

/-- Over every run, whatever is notified, read or recovered: a follower that becomes leader starts
at the replicated tip, or leadership is given up or lost or `Run` returns an error, exactly if it
never comes to start the leader two blocks or more behind raft. -/
theorem leader_starts_at_tip_iff (payload : RaftPayload) (c : Codec) (node : SyncNode)
    (raftState : RaftBlockState) (events : List ElectionEvent)
    (hsha : ∀ bz, c.sha256 bz ≠ []) (hnode : Ready c node)
    (hblock : raftState.OfBlock payload c) (hevents : ∀ ev ∈ events, AppliesBlocks payload c ev) :
    (∀ p ∈ steps (step payload) (new node raftState) events, SafeStart payload p.1 p.2) ↔
      ∀ p ∈ steps (step payload) (new node raftState) events,
        CloseToTip payload p.1 p.2 := by
  have hfollowing : ∀ p ∈ steps (step payload) (new node raftState) events,
      Following payload c p.1 := by
    apply steps_invariant (step payload) (Following payload c)
      (fun _ ev => AppliesBlocks payload c ev)
    · exact fun e ev he hev => he.step hsha hev
    · exact Following.new hnode hblock
    · exact steps_of_forall hevents
  constructor
  · intro hsafe p hp
    exact ((hfollowing p hp).safeStart_iff hsha p.2).mp (hsafe p hp)
  · intro hclose p hp
    exact ((hfollowing p hp).safeStart_iff hsha p.2).mpr (hclose p hp)

private def heightPayload : RaftPayload where
  unmarshalHeader := fun bz =>
    if bz = [1] then some (chainBlock .sourceP2P 1 [] []).header
    else if bz = [2] then some (chainBlock .sourceP2P 2 [1, 1] []).header
    else none
  unmarshalData := fun bz =>
    if bz = [1] then some (chainBlock .sourceP2P 1 [] []).data
    else if bz = [2] then some (chainBlock .sourceP2P 2 [1, 1] []).data
    else none

private def chainRaftState (height : ℕ) : RaftBlockState :=
  ⟨height, 0, 0, [1, UInt8.ofNat height], 5, [UInt8.ofNat height], [UInt8.ofNat height]⟩

private theorem chainRaftState_ofBlock :
    (chainRaftState 1).OfBlock heightPayload chainCodec := by
  intro header hheader
  obtain rfl := some.inj hheader
  exact ⟨rfl, rfl⟩

private theorem empty_ofBlock : RaftBlockState.empty.OfBlock heightPayload chainCodec := by
  intro header hheader
  exact absurd hheader (some_ne_none header).symm

private def takeover (height : ℕ) : List ElectionEvent :=
  [.tick .other true, .raftApplied (chainRaftState height),
    .notify true ⟨true, true, true, ⟨true, true, true, chainEnv true⟩⟩]

theorem leader_starts_one_behind :
    ∃ node, start chainConfig Store.empty = .ok node ∧
      ((takeover 1).foldl (step heightPayload) (new node .empty)).worker = some .leader ∧
      ∀ p ∈ steps (step heightPayload) (new node .empty) (takeover 1),
        SafeStart heightPayload p.1 p.2 := by
  have hstart : ∃ node, start chainConfig Store.empty = .ok node := ⟨_, rfl⟩
  obtain ⟨node, hstart⟩ := hstart
  have hleader : (start chainConfig Store.empty).map (fun node =>
      ((takeover 1).foldl (step heightPayload) (new node .empty)).worker) =
      .ok (some .leader) := by
    decide +kernel
  rw [hstart] at hleader
  refine ⟨node, hstart, ok.inj hleader, ?_⟩
  rw [leader_starts_at_tip_iff heightPayload chainCodec node .empty (takeover 1)
    chainCodec_sha256_ne (Ready.start (by decide) (by decide) hstart) empty_ofBlock]
  · rintro p hp env hev - - -
    simp only [takeover, steps_cons, steps_nil, mem_cons, not_mem_nil,
      or_false] at hp
    rcases hp with rfl | rfl | rfl
    · simp at hev
    · simp at hev
    · exact Nat.le_add_left 1 _
  · intro ev hev
    simp only [takeover, mem_cons, not_mem_nil, or_false] at hev
    rcases hev with rfl | rfl | rfl
    · trivial
    · exact chainRaftState_ofBlock
    · trivial

/-- Two blocks behind, the recovery does nothing, and the leader is started at height 0. -/
theorem leader_starts_two_behind :
    (start chainConfig Store.empty).map (fun node =>
      let e := (takeover 2).foldl (step heightPayload) (new node .empty)
      (e.worker, e.returned, e.transfers, e.node.store.height, e.raftState.height)) =
      .ok (some .leader, none, 0, 0, 2) := by
  decide +kernel

end Election

end ChainSdk

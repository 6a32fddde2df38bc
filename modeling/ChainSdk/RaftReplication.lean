/-
Replication of block states through raft: `pkg/raft/node.go` and `types.go`, and the proposal in
`ProduceBlock`.

A leader proposes each block it has produced as a log entry, and takes the block as replicated once
the entry is committed.
-/
import ChainSdk.DefaultStore
import ChainSdk.ReplicatedLog
import ChainSdk.Runs

namespace ChainSdk

open Function List Option ReplicatedLog

/-! ## The state machine -/

structure RaftBlockState where
  height : ℕ
  lastSubmittedDaHeaderHeight : ℕ
  lastSubmittedDaDataHeight : ℕ
  hash : Hash
  timestamp : ℕ
  header : Bytes
  data : Bytes
  deriving DecidableEq

def RaftBlockState.empty : RaftBlockState := ⟨0, 0, 0, [], 0, [], []⟩

inductive ApplyError
  | unmarshal
  | invalidHeight (height next : ℕ)
  | invalidTimestamp (timestamp next : ℕ)
  deriving DecidableEq

def assertValid (s next : RaftBlockState) : Except ApplyError Unit :=
  if next.height ≤ s.height then .error (.invalidHeight s.height next.height)
  else if next.timestamp ≤ s.timestamp then .error (.invalidTimestamp s.timestamp next.timestamp)
  else .ok ()

/-- The protobuf encoding of block states. -/
structure RaftCodec where
  marshal : RaftBlockState → Option Bytes
  unmarshal : Bytes → Option RaftBlockState
  unmarshal_marshal : ∀ s bz, marshal s = some bz → unmarshal bz = some s

namespace Fsm

def apply (codec : RaftCodec) (state : RaftBlockState) (data : Bytes) :
    RaftBlockState × Option ApplyError :=
  match codec.unmarshal data with
  | none => (state, some .unmarshal)
  | some next =>
    match assertValid state next with
    | .error err => (state, some err)
    | .ok () => (next, none)

def step (codec : RaftCodec) (state : RaftBlockState) (data : Bytes) : RaftBlockState :=
  (apply codec state data).1

theorem step_eq_iff {codec : RaftCodec} {state next : RaftBlockState} {data : Bytes}
    (hdata : codec.unmarshal data = some next) :
    step codec state data = next ↔ assertValid state next = .ok () ∨ state = next := by
  unfold step apply
  rw [hdata]
  dsimp only
  rcases hvalid : assertValid state next with err | _
  · simp
  · simp

end Fsm

/-! ## Broadcast -/

/-- How `raft.Apply` turns out: the entry is committed, or there is an error. -/
inductive ApplyOutcome
  | committed
  | failed (appended : Bool)

structure ApplyFuture where
  error : Bool
  response : Option ApplyError

structure BroadcastEnv where
  isLeader : Bool
  cancelled : Bool
  outcome : ApplyOutcome

inductive BroadcastError
  | notLeader
  | marshal
  | contextDone
  | applyLog
  deriving DecidableEq

section

variable (codec : RaftCodec)

def logState (log : List Bytes) : RaftBlockState :=
  stateAt (Fsm.step codec) .empty log log.length

/-- `raft.Apply`. The response is that of the leader's state machine. -/
def raftApply (log : List Bytes) (data : Bytes) : ApplyOutcome → ApplyFuture × List Bytes
  | .committed => (⟨false, (Fsm.apply codec (logState codec log) data).2⟩, log ++ [data])
  | .failed appended => (⟨true, none⟩, if appended then log ++ [data] else log)

def broadcast (env : BroadcastEnv) (log : List Bytes) (state : RaftBlockState) :
    Except BroadcastError Unit × List Bytes :=
  if !env.isLeader then (.error .notLeader, log)
  else
    match codec.marshal state with
    | none => (.error .marshal, log)
    | some data =>
      if env.cancelled then (.error .contextDone, log)
      else
        let applied := raftApply codec log data env.outcome
        -- only the error of the future is asked for
        if applied.1.error then (.error .applyLog, applied.2) else (.ok (), applied.2)

theorem broadcast_log (env : BroadcastEnv) (log : List Bytes) (state : RaftBlockState) :
    (∃ more, (broadcast codec env log state).2 = log ++ more) ∧
      ((broadcast codec env log state).1 = .ok () →
        ∃ data, codec.unmarshal data = some state ∧
          (broadcast codec env log state).2 = log ++ [data]) := by
  unfold broadcast
  have hsame : ∃ more, log = log ++ more := ⟨[], (append_nil log).symm⟩
  by_cases hleader : env.isLeader = true
  swap
  · simp only [hleader]
    exact ⟨hsame, fun hcontra => absurd hcontra (by simp)⟩
  simp only [hleader]
  rcases hmarshal : codec.marshal state with _ | data
  · exact ⟨hsame, fun hcontra => absurd hcontra (by simp)⟩
  dsimp only
  by_cases hcancelled : env.cancelled = true
  · rw [if_pos hcancelled]
    exact ⟨hsame, fun hcontra => absurd hcontra (by simp)⟩
  rw [if_neg hcancelled]
  cases houtcome : env.outcome with
  | committed =>
    exact ⟨⟨[data], rfl⟩, fun _ => ⟨data, codec.unmarshal_marshal state data hmarshal, rfl⟩⟩
  | failed appended =>
    refine ⟨?_, fun hcontra => absurd hcontra (by simp [raftApply])⟩
    cases appended with
    | true => exact ⟨[data], rfl⟩
    | false => exact hsame

end

/-! ## The cluster -/

/-- A block that `ProduceBlock` is about to propose. -/
structure Proposal where
  header : SignedHeader
  data : Data
  /-- The app hash its execution has given. -/
  appHash : Hash
  lastSubmittedDaHeaderHeight : ℕ
  lastSubmittedDaDataHeight : ℕ

def Proposal.raftState (c : BlockCodec) (p : Proposal) : Option RaftBlockState :=
  match c.signedHeaderBytes p.header with
  | none => none
  | some headerBytes => some
      { height := p.header.header.height
        lastSubmittedDaHeaderHeight := p.lastSubmittedDaHeaderHeight
        lastSubmittedDaDataHeight := p.lastSubmittedDaDataHeight
        hash := c.headerHash p.header.header
        timestamp := p.header.header.time
        header := headerBytes
        data := c.dataBytes p.data }

/-- The log, the state machines of the nodes, and the leader's executor. -/
structure RaftCluster where
  log : List Bytes
  fsms : ℕ → Replica RaftBlockState
  /-- Persisted snapshots, each with how many entries are in it. -/
  snapshots : List (ℕ × Bytes)
  leader : ℕ
  /-- The leader's last state, and `lastHeaderHashErrCount` having reached 1. -/
  lastState : State
  mismatchSeen : Bool
  /-- The proposals for which `Broadcast` has returned nil, with the index of their entry. -/
  acked : List (ℕ × RaftBlockState)

inductive ClusterOp
  | produce (p : Proposal) (env : BroadcastEnv)
  | apply (node : ℕ)
  | snapshot (node : ℕ)
  | restore (node index : ℕ)

namespace RaftCluster

variable (codec : RaftCodec) (c : BlockCodec)

def new (leader : ℕ) (lastState : State) (mismatchSeen : Bool) : RaftCluster :=
  ⟨[], fun _ => ⟨.empty, 0⟩, [], leader, lastState, mismatchSeen, []⟩

section

variable (n : RaftCluster)

/-- The proposal of a produced block: not made if the block does not follow the last state, and
committed if `Broadcast` returns nil, when the leader's state machine has applied it. -/
def propose (p : Proposal) (env : BroadcastEnv) : RaftCluster :=
  let checked := n.lastState.assertValidSequence n.mismatchSeen p.header.header
  let n := { n with mismatchSeen := checked.2 }
  match checked.1 with
  | .error _ => n
  | .ok () =>
    match p.raftState c with
    | none => n
    | some state =>
      let sent := broadcast codec env n.log state
      match sent.1 with
      | .error _ => { n with log := sent.2 }
      | .ok () =>
        { n with
          log := sent.2
          fsms := update n.fsms n.leader (.caughtUp (Fsm.step codec) .empty sent.2)
          lastState := n.lastState.nextState c.toCodec p.header.header p.appHash
          acked := n.acked ++ [(n.log.length, state)] }

def step : ClusterOp → RaftCluster
  | .produce p env => n.propose codec c p env
  | .apply node =>
    { n with
      fsms := update n.fsms node ((n.fsms node).applyNext (Fsm.step codec) n.log) }
  -- `Snapshot` and `Persist`
  | .snapshot node =>
    match codec.marshal (n.fsms node).state with
    | none => n
    | some data => { n with snapshots := ((n.fsms node).applied, data) :: n.snapshots }
  -- `Restore`
  | .restore node index =>
    match n.snapshots[index]? with
    | none => n
    | some (applied, data) =>
      match codec.unmarshal data with
      | none => n
      | some state => { n with fsms := update n.fsms node ⟨state, applied⟩ }

/-- In this step `Broadcast` returns nil for the state. -/
def Acknowledges (op : ClusterOp) (state : RaftBlockState) : Prop :=
  ∃ p env, op = .produce p env ∧
    (n.lastState.assertValidSequence n.mismatchSeen p.header.header).1 = .ok () ∧
    p.raftState c = some state ∧ (broadcast codec env n.log state).1 = .ok ()

/-- Every state machine for which the entry of an acknowledged state is the last one applied holds
that state. -/
def Replicated : Prop :=
  ∀ entry ∈ n.acked, ∀ node, (n.fsms node).applied = entry.1 + 1 → (n.fsms node).state = entry.2

end

structure InStep (n : RaftCluster) : Prop where
  fsms : ∀ node, (n.fsms node).InStep (Fsm.step codec) .empty n.log
  snapshots : ∀ snapshot ∈ n.snapshots, ∀ state, codec.unmarshal snapshot.2 = some state →
    Replica.InStep (Fsm.step codec) .empty n.log ⟨state, snapshot.1⟩

variable {codec : RaftCodec} {c : BlockCodec} {n : RaftCluster}

/-- A proposal that is acknowledged appends its entry, brings the leader up to it and is recorded;
any other may append something and leaves the rest to the executor. -/
theorem propose_cases (n : RaftCluster) (p : Proposal) (env : BroadcastEnv) :
    (∃ state data, Acknowledges codec c n (.produce p env) state ∧
      codec.unmarshal data = some state ∧
      (n.propose codec c p env).log = n.log ++ [data] ∧
      (n.propose codec c p env).fsms = update n.fsms n.leader
        (.caughtUp (Fsm.step codec) .empty (n.log ++ [data])) ∧
      (n.propose codec c p env).snapshots = n.snapshots ∧
      (n.propose codec c p env).acked = n.acked ++ [(n.log.length, state)]) ∨
    ((∀ state, ¬ Acknowledges codec c n (.produce p env) state) ∧
      (∃ more, (n.propose codec c p env).log = n.log ++ more) ∧
      (n.propose codec c p env).fsms = n.fsms ∧
      (n.propose codec c p env).snapshots = n.snapshots ∧
      (n.propose codec c p env).acked = n.acked) := by
  have hsame : ∃ more, n.log = n.log ++ more := ⟨[], (append_nil _).symm⟩
  unfold propose
  dsimp only
  rcases hchecked : (n.lastState.assertValidSequence n.mismatchSeen p.header.header).1 with err | _
  · refine .inr ⟨?_, hsame, rfl, rfl, rfl⟩
    rintro state ⟨p', env', heq, hok, -⟩
    obtain ⟨rfl, rfl⟩ := ClusterOp.produce.inj heq
    simp [hchecked] at hok
  rcases hstate : p.raftState c with _ | state
  · refine .inr ⟨?_, hsame, rfl, rfl, rfl⟩
    rintro state ⟨p', env', heq, -, hsome, -⟩
    obtain ⟨rfl, rfl⟩ := ClusterOp.produce.inj heq
    simp [hstate] at hsome
  obtain ⟨hgrows, hacked⟩ := broadcast_log codec env n.log state
  dsimp only
  rcases hsent : (broadcast codec env n.log state).1 with err | _
  · refine .inr ⟨?_, hgrows, rfl, rfl, rfl⟩
    rintro state' ⟨p', env', heq, -, hsome, hok⟩
    obtain ⟨rfl, rfl⟩ := ClusterOp.produce.inj heq
    obtain rfl := some.inj (hstate.symm.trans hsome)
    simp [hsent] at hok
  · obtain ⟨data, hdata, hlog⟩ := hacked hsent
    refine .inl ⟨state, data, ⟨p, env, rfl, hchecked, hstate, hsent⟩, hdata, hlog, ?_, rfl, rfl⟩
    rw [hlog]

theorem InStep.new (leader : ℕ) (lastState : State) (mismatchSeen : Bool) :
    InStep codec (RaftCluster.new leader lastState mismatchSeen) where
  fsms := fun _ => ⟨le_rfl, rfl⟩
  snapshots := fun _ hmem => absurd hmem not_mem_nil

/-! ### What a step keeps -/

theorem InStep.snapshots_append (hn : InStep codec n) (more : List Bytes) :
    ∀ snapshot ∈ n.snapshots, ∀ state, codec.unmarshal snapshot.2 = some state →
      Replica.InStep (Fsm.step codec) .empty (n.log ++ more) ⟨state, snapshot.1⟩ :=
  fun snapshot hmem state hstate => (hn.snapshots snapshot hmem state hstate).append more

theorem InStep.step (hn : InStep codec n) (op : ClusterOp) :
    InStep codec (n.step codec c op) := by
  cases op with
  | produce p env =>
    unfold RaftCluster.step
    rcases propose_cases n p env with
      ⟨state, data, -, -, hlog, hfsms, hsnapshots, -⟩ | ⟨-, ⟨more, hlog⟩, hfsms, hsnapshots, -⟩
    · refine ⟨?_, ?_⟩
      · rw [hlog, hfsms]
        exact Replica.InStep.update (fun i => (hn.fsms i).append [data]) n.leader .caughtUp
      · rw [hlog, hsnapshots]
        exact hn.snapshots_append [data]
    · refine ⟨?_, ?_⟩
      · rw [hlog, hfsms]
        exact fun i => (hn.fsms i).append more
      · rw [hlog, hsnapshots]
        exact hn.snapshots_append more
  | apply node =>
    exact ⟨Replica.InStep.update hn.fsms node (hn.fsms node).applyNext, hn.snapshots⟩
  | snapshot node =>
    unfold RaftCluster.step
    dsimp only
    rcases hdata : codec.marshal (n.fsms node).state with _ | data
    · exact hn
    refine ⟨hn.fsms, fun snapshot hmem state hstate => ?_⟩
    rcases mem_cons.mp hmem with rfl | hold
    · -- what is read back is the state of the state machine
      rw [codec.unmarshal_marshal _ _ hdata] at hstate
      rw [← some.inj hstate]
      exact hn.fsms node
    · exact hn.snapshots snapshot hold state hstate
  | restore node index =>
    unfold RaftCluster.step
    dsimp only
    rcases hsnapshot : n.snapshots[index]? with _ | ⟨applied, data⟩
    · exact hn
    dsimp only
    rcases hstate : codec.unmarshal data with _ | state
    · exact hn
    · have hr := hn.snapshots _ (mem_of_getElem? hsnapshot) state hstate
      exact ⟨Replica.InStep.update hn.fsms node hr, hn.snapshots⟩

/-- Every acknowledged state is the state of the log up to its entry. -/
def AckedKept (codec : RaftCodec) (n : RaftCluster) : Prop :=
  ∀ entry ∈ n.acked, entry.1 < n.log.length ∧
    stateAt (Fsm.step codec) .empty n.log (entry.1 + 1) = entry.2

theorem AckedKept.replicated (hacked : AckedKept codec n) (hn : InStep codec n) :
    n.Replicated := by
  intro entry hmem node happlied
  rw [(hn.fsms node).state_eq, happlied]
  exact (hacked entry hmem).2

theorem AckedKept.append (hacked : AckedKept codec n) (more : List Bytes) :
    ∀ entry ∈ n.acked, entry.1 < (n.log ++ more).length ∧
      stateAt (Fsm.step codec) .empty (n.log ++ more) (entry.1 + 1) = entry.2 := by
  intro entry hmem
  obtain ⟨hlt, hstate⟩ := hacked entry hmem
  refine ⟨?_, ?_⟩
  · rw [length_append]
    omega
  · rw [stateAt_append hlt]
    exact hstate

def Accepts (codec : RaftCodec) (log : List Bytes) (state : RaftBlockState) : Prop :=
  assertValid (logState codec log) state = .ok () ∨ logState codec log = state

theorem AckedKept.step (hacked : AckedKept codec n) {op : ClusterOp}
    (haccepts : ∀ state, Acknowledges codec c n op state → Accepts codec n.log state) :
    AckedKept codec (n.step codec c op) := by
  cases op with
  | produce p env =>
    unfold RaftCluster.step
    rcases propose_cases n p env with
      ⟨state, data, hacks, hdata, hlog, -, -, hnew⟩ | ⟨-, ⟨more, hlog⟩, -, -, hsame⟩
    · intro entry hmem
      rw [hnew] at hmem
      rw [hlog]
      rcases mem_append.mp hmem with hold | hlast
      · exact hacked.append [data] entry hold
      · obtain rfl := mem_singleton.mp hlast
        refine ⟨by simp, ?_⟩
        rw [stateAt_concat]
        exact (Fsm.step_eq_iff hdata).mpr (haccepts state hacks)
    · intro entry hmem
      rw [hsame] at hmem
      rw [hlog]
      exact hacked.append more entry hmem
  | apply node => exact hacked
  | snapshot node =>
    unfold RaftCluster.step
    dsimp only
    split
    · exact hacked
    · exact hacked
  | restore node index =>
    unfold RaftCluster.step
    dsimp only
    split
    · exact hacked
    · split
      · exact hacked
      · exact hacked

theorem accepts_of_replicated {op : ClusterOp} (hreplicated : (n.step codec c op).Replicated)
    {state : RaftBlockState} (hacks : Acknowledges codec c n op state) :
    Accepts codec n.log state := by
  obtain ⟨p, env, rfl, hvalid, hstate, hsent⟩ := hacks
  rcases propose_cases n p env with
    ⟨state', data, ⟨p', env', heq, -, hstate', -⟩, hdata, -, hfsms, -, hnew⟩ | ⟨hnone, -⟩
  · obtain ⟨rfl, rfl⟩ := ClusterOp.produce.inj heq
    obtain rfl := some.inj (hstate.symm.trans hstate')
    have hleader := hreplicated (n.log.length, state)
    unfold RaftCluster.step at hleader
    rw [hnew, hfsms] at hleader
    have hheld := hleader (by simp) n.leader (by
      unfold Replica.caughtUp
      simp)
    rw [update_self] at hheld
    unfold Replica.caughtUp at hheld
    rw [length_append, length_singleton, stateAt_concat] at hheld
    exact (Fsm.step_eq_iff hdata).mp hheld
  · exact absurd ⟨p, env, rfl, hvalid, hstate, hsent⟩ (hnone state)

/-- Over every run of a cluster, with snapshots, restores and `Broadcast` failing in any way: each
acknowledged block state is held by the state machines for which its entry is the last one applied,
if and only if each time `Broadcast` returned nil, the state of the log before was one that
`assertValid` lets the proposed state follow, or the proposed state itself. -/
theorem acknowledged_states_replicated_iff (codec : RaftCodec) (c : BlockCodec) {n₀ : RaftCluster}
    (hstart : InStep codec n₀) (hnew : n₀.acked = []) (ops : List ClusterOp) :
    (∀ p ∈ Runs.steps (step codec c) n₀ ops, (p.1.step codec c p.2).Replicated) ↔
      ∀ p ∈ Runs.steps (step codec c) n₀ ops, ∀ state, Acknowledges codec c p.1 p.2 state →
        Accepts codec p.1.log state := by
  constructor
  · intro hreplicated p hp state hacks
    exact accepts_of_replicated (hreplicated p hp) hacks
  · intro haccepts p hp
    have hkept : AckedKept codec n₀ := by
      intro entry hmem
      rw [hnew] at hmem
      exact absurd hmem not_mem_nil
    have hinv := Runs.steps_invariant (step codec c)
      (fun n => InStep codec n ∧ AckedKept codec n)
      (fun n op => ∀ state, Acknowledges codec c n op state → Accepts codec n.log state)
      (fun n op hn hop => ⟨hn.1.step op, hn.2.step hop⟩) ⟨hstart, hkept⟩ haccepts p hp
    exact (hinv.2.step (haccepts p hp)).replicated (hinv.1.step p.2)

private def heightBytesCodec : BlockCodec where
  headerBytes := fun header => [UInt8.ofNat header.height]
  headerBytesLegacy := fun _ => []
  dataBytes := fun _ => []
  sha256 := id
  signedHeaderBytes := fun header => some [UInt8.ofNat header.header.height]
  unmarshalHeader := fun _ => none
  unmarshalData := fun _ => none
  stateBytes := fun _ => none

private def timedProposal (height time : ℕ) (lastHeaderHash : Hash) : Proposal :=
  ⟨⟨⟨height, time, "", ⟨0, 0⟩, lastHeaderHash, [], [], [], [], none⟩, [], ⟨none, []⟩⟩, ⟨none, []⟩,
    [], 0, 0⟩

private def timedState (height time : ℕ) : RaftBlockState :=
  ⟨height, 0, 0, [UInt8.ofNat height], time, [UInt8.ofNat height], []⟩

private def pairCodec (s t : RaftBlockState) : RaftCodec where
  marshal := fun state => if state = s then some [1] else if state = t then some [2] else none
  unmarshal := fun bz => if bz = [1] then some s else if bz = [2] then some t else none
  unmarshal_marshal := by
    intro state bz hmarshal
    split_ifs at hmarshal with hs ht
    · obtain rfl := some.inj hmarshal
      simp [hs]
    · obtain rfl := some.inj hmarshal
      simp [ht]

private def healthy : BroadcastEnv := ⟨true, false, .committed⟩

theorem growing_times_replicated :
    assertValid (timedState 1 5) (timedState 2 6) = .ok () ∧
      ∀ p ∈ Runs.steps (step (pairCodec (timedState 1 5) (timedState 2 6)) heightBytesCodec)
          (new 0 State.zero false)
          [.produce (timedProposal 1 5 []) healthy, .produce (timedProposal 2 6 [1]) healthy,
            .apply 1],
        (p.1.step (pairCodec (timedState 1 5) (timedState 2 6)) heightBytesCodec
          p.2).Replicated := by
  refine ⟨by decide, ?_⟩
  rw [acknowledged_states_replicated_iff _ _ (InStep.new 0 State.zero false) rfl]
  rintro p hp state ⟨q, env, hop, -, hstate, -⟩
  simp only [Runs.steps_cons, Runs.steps_nil, mem_cons, not_mem_nil, or_false] at hp
  rcases hp with rfl | rfl | rfl
  · obtain ⟨rfl, rfl⟩ := ClusterOp.produce.inj hop
    obtain rfl := some.inj hstate
    exact .inl (by decide)
  · obtain ⟨rfl, rfl⟩ := ClusterOp.produce.inj hop
    obtain rfl := some.inj hstate
    exact .inl (by decide)
  · simp at hop

/-- Two blocks of one time follow each other. Both are acknowledged, and the leader's own state
machine, which has applied both entries, holds the first. -/
theorem second_block_of_one_time_not_replicated :
    let n := [.produce (timedProposal 1 5 []) healthy,
        .produce (timedProposal 2 5 [1]) healthy].foldl
      (step (pairCodec (timedState 1 5) (timedState 2 5)) heightBytesCodec)
      (new 0 State.zero false)
    n.acked = [(0, timedState 1 5), (1, timedState 2 5)] ∧ (n.fsms 0).applied = 2 ∧
      (n.fsms 0).state = timedState 1 5 := by
  decide

end RaftCluster

end ChainSdk

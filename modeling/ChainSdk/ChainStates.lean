/-
The state of a chain as a function of its blocks, for an execution client whose answers depend on
nothing but their arguments: what producers and syncing nodes, which come to their last states in
different ways, are compared with.
-/
import ChainSdk.Executor
import ChainSdk.SyncedChain

namespace ChainSdk

/-! ## States up to their DA height -/

/-- Two states that differ at most in their DA height. -/
structure State.AgreesWith (s t : State) : Prop where
  version_eq : s.version = t.version
  chainID_eq : s.chainID = t.chainID
  initialHeight_eq : s.initialHeight = t.initialHeight
  lastBlockHeight_eq : s.lastBlockHeight = t.lastBlockHeight
  lastBlockTime_eq : s.lastBlockTime = t.lastBlockTime
  lastHeaderHash_eq : s.lastHeaderHash = t.lastHeaderHash
  appHash_eq : s.appHash = t.appHash

namespace State.AgreesWith

variable {s t u : State}

theorem refl (s : State) : s.AgreesWith s := ⟨rfl, rfl, rfl, rfl, rfl, rfl, rfl⟩

theorem symm (h : s.AgreesWith t) : t.AgreesWith s :=
  ⟨h.1.symm, h.2.symm, h.3.symm, h.4.symm, h.5.symm, h.6.symm, h.7.symm⟩

theorem trans (h : s.AgreesWith t) (h' : t.AgreesWith u) : s.AgreesWith u :=
  ⟨h.1.trans h'.1, h.2.trans h'.2, h.3.trans h'.3, h.4.trans h'.4, h.5.trans h'.5,
    h.6.trans h'.6, h.7.trans h'.7⟩

theorem nextState (h : s.AgreesWith t) (c : Codec) (header : Header) (root : Hash) (d : ℕ) :
    State.AgreesWith { s.nextState c header root with daHeight := d }
      (t.nextState c header root) :=
  ⟨h.version_eq, h.chainID_eq, h.initialHeight_eq, rfl, rfl, rfl, rfl⟩

theorem assertValidSequence (h : s.AgreesWith t) {header : Header}
    (hlink : header.lastHeaderHash = t.lastHeaderHash) (seen seen' : Bool)
    (hpasses : (t.assertValidSequence seen header).1 = .ok ()) :
    (s.assertValidSequence seen' header).1 = .ok () := by
  unfold State.assertValidSequence at hpasses ⊢
  rw [h.chainID_eq, h.lastHeaderHash_eq, h.lastBlockHeight_eq, h.lastBlockTime_eq, h.appHash_eq]
  simp only [hlink, ne_eq, not_true_eq_false, false_and] at hpasses ⊢
  split_ifs at hpasses ⊢ <;> rfl

end State.AgreesWith

/-! ## The state after the blocks of a chain -/

/-- An execution client as a function: the root of `InitChain`, and that of `ExecuteTxs` for
transactions, height, time and the root before. -/
structure ExecutionModel where
  initChain : Hash
  executeTxs : List Tx → ℕ → Time → Hash → Hash

namespace ExecutionModel

variable (x : ExecutionModel) (c : Codec) (genesis : Genesis)

def applyBlock (s : State) (header : Header) (txs : List Tx) : State :=
  s.nextState c header
    (x.executeTxs txs header.height (timeOfUint64 header.time) s.appHash)

def stateAt (blocks : ℕ → Option StoredBlock) : ℕ → State
  | 0 => Executor.genesisState genesis x.initChain
  | h + 1 =>
    match blocks (h + 1) with
    | none => stateAt blocks h
    | some block => x.applyBlock c (stateAt blocks h) block.header.header block.data.txs

variable {x c genesis}

section

variable {blocks : ℕ → Option StoredBlock} {h : ℕ}

theorem stateAt_succ_none (hnone : blocks (h + 1) = none) :
    x.stateAt c genesis blocks (h + 1) = x.stateAt c genesis blocks h := by
  rw [stateAt, hnone]

theorem stateAt_succ_some {block : StoredBlock} (hblock : blocks (h + 1) = some block) :
    x.stateAt c genesis blocks (h + 1) =
      x.applyBlock c (x.stateAt c genesis blocks h) block.header.header block.data.txs := by
  rw [stateAt, hblock]

theorem stateAt_of_none (hnone : ∀ k, k ≤ h → blocks k = none) :
    x.stateAt c genesis blocks h = Executor.genesisState genesis x.initChain := by
  induction h with
  | zero => rfl
  | succ h ih =>
    rw [stateAt_succ_none (hnone (h + 1) le_rfl)]
    exact ih (fun k hk => hnone k (by omega))

theorem stateAt_congr {blocks' : ℕ → Option StoredBlock}
    (hsame : ∀ k, k ≤ h → (blocks k).map (fun b => (b.header.header, b.data.txs)) =
      (blocks' k).map (fun b => (b.header.header, b.data.txs))) :
    x.stateAt c genesis blocks h = x.stateAt c genesis blocks' h := by
  induction h with
  | zero => rfl
  | succ h ih =>
    have hprev := ih (fun k hk => hsame k (by omega))
    have hlast := hsame (h + 1) le_rfl
    rcases hblock : blocks (h + 1) with _ | block
    · rcases hblock' : blocks' (h + 1) with _ | block'
      · rw [stateAt_succ_none hblock, stateAt_succ_none hblock', hprev]
      · simp [hblock, hblock'] at hlast
    · rcases hblock' : blocks' (h + 1) with _ | block'
      · simp [hblock, hblock'] at hlast
      · simp only [hblock, hblock', Option.map_some, Option.some.injEq, Prod.mk.injEq] at hlast
        rw [stateAt_succ_some hblock, stateAt_succ_some hblock', hprev, hlast.1, hlast.2]

theorem stateAt_update {k : ℕ} (hk : k ≤ h) (block : Option StoredBlock) :
    x.stateAt c genesis (Function.update blocks (h + 1) block) k =
      x.stateAt c genesis blocks k := by
  refine stateAt_congr (fun j hj => ?_)
  rw [Function.update_of_ne (by omega)]

end

end ExecutionModel

/-! ## The last state of a syncing node -/

/-- While an event is processed, the execution client answers like `x` if it answers. -/
def EventEnv.Executes (env : EventEnv) (x : ExecutionModel) : Prop :=
  ∀ txs h t r root, env.executeTxs txs h t r = .ok root → root = x.executeTxs txs h t r

namespace SyncNode

def OnChain (x : ExecutionModel) (n : SyncNode) : Prop :=
  n.syncer.lastState.AgreesWith
    (x.stateAt n.codec n.syncer.genesis n.store.blocks n.store.height)

variable {x : ExecutionModel}

section

variable {n n' : SyncNode} {events : List (EventEnv × HeightEvent)}

theorem OnChain.processHeightEvent {env : EventEnv} {ev : HeightEvent}
    (hchain : OnChain x n) (hexec : env.Executes x)
    (h : n.processHeightEvent env ev = .ok n') : OnChain x n' := by
  unfold OnChain at hchain ⊢
  rcases processHeightEvent_cases h with hunmoved | ⟨data, hcommits⟩
  · have hcodec : n'.codec = n.codec := hunmoved.chain.codec_eq
    rw [hunmoved.store_eq, hunmoved.chain.lastState_eq, hunmoved.chain.genesis_eq, hcodec]
    exact hchain
  obtain ⟨root, daHeight, hroot, hstate⟩ := hcommits.lastState_eq
  have hblock : n'.store.blocks (n.store.height + 1) =
      some ⟨ev.header, data, ev.header.signature⟩ := hcommits.block_new
  rw [hcommits.height_after, hcommits.genesis_eq, hcommits.codec_eq,
    ExecutionModel.stateAt_succ_some hblock, hcommits.blocks_after,
    ExecutionModel.stateAt_update le_rfl, hstate, hexec _ _ _ _ _ hroot, hchain.appHash_eq]
  exact hchain.nextState _ _ _ _

theorem OnChain.run (hchain : OnChain x n) (hexec : ∀ p ∈ events, p.1.Executes x)
    (h : n.run events = .ok n') : OnChain x n' :=
  run_invariant (fun p hp _ _ hm hone => hm.processHeightEvent (hexec p hp) hone) hchain h

theorem onChain_of_run {cfg : StartConfig} {n₀ : SyncNode}
    (hinitial : 0 < cfg.genesis.initialHeight)
    (hinit : cfg.initChain = .ok x.initChain) (hexec : ∀ p ∈ events, p.1.Executes x)
    (hstart : start cfg Store.empty = .ok n₀) (hrun : n₀.run events = .ok n) :
    OnChain x n := by
  refine OnChain.run ?_ hexec hrun
  obtain ⟨hgenesis, -, hload, -, -⟩ := start_empty hinitial hstart
  obtain ⟨-, hblocks⟩ := start_store hinitial hstart
  unfold OnChain
  rw [ExecutionModel.stateAt_of_none (fun k _ => hblocks k), hgenesis]
  rw [hinit] at hload
  rw [← Except.ok.inj hload]
  exact .refl _

end

end SyncNode

end ChainSdk

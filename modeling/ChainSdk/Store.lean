/-
The block store (`pkg/store`) as the executor uses it, and the replayer
(`block/internal/common/replay.go`) that brings the execution client up to the store.

A store is its current height, the blocks and states by height, and the two metadata entries of a
pending block.
-/
import ChainSdk.Blocks

namespace ChainSdk

open Function

/-- What `SaveBlockData` writes for one height. -/
structure StoredBlock where
  header : SignedHeader
  data : Data
  signature : Signature
  deriving DecidableEq

/-- The entries of the store that block production reads and writes. -/
structure Store where
  height : ℕ
  blocks : ℕ → Option StoredBlock
  states : ℕ → Option State
  pendingHeader : Option SignedHeader
  pendingData : Option Data

namespace Store

/-- A store nothing has been written to. -/
def empty : Store := ⟨0, fun _ => none, fun _ => none, none, none⟩

def getState (s : Store) : Option State := s.states s.height

def setHeight (s : Store) (height : ℕ) : Store :=
  if height ≤ s.height then s else { s with height := height }

def updateState (s : Store) (state : State) : Store :=
  { s with states := update s.states state.lastBlockHeight (some state) }

def saveBlockData (s : Store) (header : SignedHeader) (data : Data) (signature : Signature) :
    Store :=
  { s with blocks :=
      update s.blocks header.header.height (some ⟨header, data, signature⟩) }

end Store

/-! ## Replay -/

inductive ReplayError
  | execHeight
  | execAhead (execHeight target : ℕ)
  | rollback
  | blockNotFound (height : ℕ)
  | previousState (height : ℕ)
  | execute (height : ℕ)
  | appHashMismatch (height : ℕ)
  | commit (height : ℕ)
  deriving DecidableEq

structure ReplayEnv where
  /-- `GetLatestHeight`; `none` for a client that is no `HeightProvider`. -/
  execHeight : Option (Except String ℕ)
  /-- Whether `Rollback` succeeds; `none` for a client that is not `Rollbackable`. -/
  rollback : Option Bool
  /-- What `ExecuteTxs` answers for each height. -/
  execute : ℕ → Except String Hash
  /-- Whether the batch with the state of a height commits. -/
  commits : ℕ → Bool

/-- The state the replayer executes a block on: for the first block it is rebuilt from
genesis and the block's own header. -/
def replayPrevState (genesis : Genesis) (store : Store) (block : StoredBlock) (height : ℕ) :
    Option State :=
  if height = genesis.initialHeight then
    some { State.zero with
      chainID := genesis.chainID
      initialHeight := genesis.initialHeight
      lastBlockHeight := genesis.initialHeight - 1
      lastBlockTime := genesis.startTime
      appHash := block.header.header.appHash }
  else store.states (height - 1)

def replayBlock (c : Codec) (genesis : Genesis) (env : ReplayEnv) (store : Store)
    (height : ℕ) : Except ReplayError Unit × Store :=
  match store.blocks height with
  | none => (.error (.blockNotFound height), store)
  | some block =>
    match replayPrevState genesis store block height with
    | none => (.error (.previousState height), store)
    | some prevState =>
      match env.execute height with
      | .error _ => (.error (.execute height), store)
      | .ok newAppHash =>
        -- a height that has a state already must come to the same app hash again
        let mismatch : Bool :=
          match store.states height with
          | some expected => newAppHash ≠ expected.appHash
          | none => false
        if mismatch then (.error (.appHashMismatch height), store)
        else if !env.commits height then (.error (.commit height), store)
        else (.ok (), store.updateState
          (prevState.nextState c block.header.header newAppHash))

/-- The loop of `SyncToHeight`; it stops at the first block that cannot be replayed. -/
def replayBlocks (c : Codec) (genesis : Genesis) (env : ReplayEnv) :
    Store → List ℕ → Except ReplayError Unit × Store
  | store, [] => (.ok (), store)
  | store, h :: hs =>
    match replayBlock c genesis env store h with
    | (.error e, store') => (.error e, store')
    | (.ok _, store') => replayBlocks c genesis env store' hs

def syncToHeight (c : Codec) (genesis : Genesis) (env : ReplayEnv) (store : Store)
    (target : ℕ) : Except ReplayError Unit × Store :=
  match env.execHeight with
  | none => (.ok (), store)
  | some reply =>
    if target < genesis.initialHeight then (.ok (), store)
    else
      match reply with
      | .error _ => (.error .execHeight, store)
      | .ok execHeight =>
        -- a client that is ahead is rolled back if it can be, and refused otherwise
        if target < execHeight then
          match env.rollback with
          | some true => (.ok (), store)
          | some false => (.error .rollback, store)
          | none => (.error (.execAhead execHeight target), store)
        else if execHeight < target then
          if (store.blocks target).isNone then (.error (.blockNotFound target), store)
          else replayBlocks c genesis env store
            (List.range' (execHeight + 1) (target - execHeight))
        else (.ok (), store)

/-! ## What a replay leaves alone -/

/-- A replay writes states only, and only for heights that have a block. -/
structure ReplayFrame (before after : Store) : Prop where
  height_eq : after.height = before.height
  blocks_eq : after.blocks = before.blocks
  pendingHeader_eq : after.pendingHeader = before.pendingHeader
  pendingData_eq : after.pendingData = before.pendingData
  states_or : ∀ h, after.states h = before.states h ∨
    ∃ st, after.states h = some st ∧ st.lastBlockHeight = h

namespace ReplayFrame

theorem refl (s : Store) : ReplayFrame s s := ⟨rfl, rfl, rfl, rfl, fun _ => .inl rfl⟩

theorem trans {a b c : Store} (hab : ReplayFrame a b) (hbc : ReplayFrame b c) :
    ReplayFrame a c where
  height_eq := hbc.height_eq.trans hab.height_eq
  blocks_eq := hbc.blocks_eq.trans hab.blocks_eq
  pendingHeader_eq := hbc.pendingHeader_eq.trans hab.pendingHeader_eq
  pendingData_eq := hbc.pendingData_eq.trans hab.pendingData_eq
  states_or := by
    intro h
    rcases hbc.states_or h with heq | hnew
    · rw [heq]
      exact hab.states_or h
    · exact .inr hnew

end ReplayFrame

theorem updateState_frame (s : Store) (state : State) :
    ReplayFrame s (s.updateState state) := by
  refine ⟨rfl, rfl, rfl, rfl, fun h => ?_⟩
  by_cases hh : h = state.lastBlockHeight
  · subst hh
    exact .inr ⟨state, update_self _ _ _, rfl⟩
  · exact .inl (update_of_ne hh _ _)

theorem replayPrevState_cases {genesis : Genesis} {store : Store} {block : StoredBlock}
    {height : ℕ} {prev : State} (hprev : replayPrevState genesis store block height = some prev) :
    (height = genesis.initialHeight ∧ ∃ appHash, prev = { State.zero with
      chainID := genesis.chainID
      initialHeight := genesis.initialHeight
      lastBlockHeight := genesis.initialHeight - 1
      lastBlockTime := genesis.startTime
      appHash := appHash }) ∨
      height ≠ genesis.initialHeight ∧ store.states (height - 1) = some prev := by
  unfold replayPrevState at hprev
  split_ifs at hprev with hfirst
  · exact .inl ⟨hfirst, _, (Option.some.inj hprev).symm⟩
  · exact .inr ⟨hfirst, hprev⟩

section Replays

variable {c : Codec} {genesis : Genesis} {env : ReplayEnv} {P : Store → Prop} {store : Store}
  (hwrite : ∀ store height block prevState appHash, P store → store.blocks height = some block →
    replayPrevState genesis store block height = some prevState →
    (∀ expected, store.states height = some expected → appHash = expected.appHash) →
    P (store.updateState (prevState.nextState c block.header.header appHash)))

include hwrite

theorem replayBlock_induct (hs : P store) (height : ℕ) :
    P (replayBlock c genesis env store height).2 := by
  unfold replayBlock
  rcases hblock : store.blocks height with _ | block
  · exact hs
  dsimp only
  rcases hprev : replayPrevState genesis store block height with _ | prevState
  · exact hs
  rcases env.execute height with err | appHash
  · exact hs
  dsimp only
  split_ifs with hmismatch
  · exact hs
  · exact hs
  · refine hwrite store height block prevState appHash hs hblock hprev fun expected hexpected => ?_
    rw [hexpected] at hmismatch
    simpa using hmismatch

theorem replayBlocks_induct (hs : P store) (heights : List ℕ) :
    P (replayBlocks c genesis env store heights).2 := by
  induction heights generalizing store with
  | nil => exact hs
  | cons h heights ih =>
    have hone : P (replayBlock c genesis env store h).2 := replayBlock_induct hwrite hs h
    unfold replayBlocks
    split
    -- a block that fails ends the replay; what was replayed before it stays
    · rename_i err store' heq
      rw [heq] at hone
      exact hone
    · rename_i store' heq
      rw [heq] at hone
      exact ih hone

theorem syncToHeight_induct (hs : P store) (target : ℕ) :
    P (syncToHeight c genesis env store target).2 := by
  unfold syncToHeight
  rcases env.execHeight with _ | err | execHeight
  · exact hs
  · split_ifs <;> exact hs
  · dsimp only
    split_ifs
    · exact hs
    · split <;> exact hs
    · exact hs
    · exact replayBlocks_induct hwrite hs _
    · exact hs

end Replays

theorem syncToHeight_frame (c : Codec) (genesis : Genesis) (env : ReplayEnv) (store : Store)
    (target : ℕ) : ReplayFrame store (syncToHeight c genesis env store target).2 :=
  syncToHeight_induct (fun _ _ _ _ _ hs _ _ _ => hs.trans (updateState_frame _ _)) (.refl store)
    target

end ChainSdk

/-
No equivocation by the block producer.

A node runs `ProduceBlock` while it is up, and is stopped, killed and started again; the history of
a run is everything that was done with a block.
-/
import ChainSdk.Executor
import ChainSdk.Runs

namespace ChainSdk

open Except Executor Function List Option Store

/-! ## Nodes and their events -/

/-- An executor and whether its loop is running. -/
structure ProducerNode where
  executor : Executor
  running : Bool

/-- What happens to a block producer. A process that is killed in the middle of a call has
done what a call that fails at that point does. -/
inductive ProducerEvent
  | produce (inp : ProduceInput)
  | stop (headerDeleted dataDeleted : Bool)
  | crash
  | start (inp : StartInput)

namespace ProducerNode

def fresh (config : ExecutorConfig) : ProducerNode := ⟨Executor.new config empty, false⟩

def step (n : ProducerNode) : ProducerEvent → ProducerNode
  | .produce inp =>
    if n.running then { n with executor := (n.executor.produceBlock inp).2.1 } else n
  | .stop headerDeleted dataDeleted => ⟨n.executor.stop headerDeleted dataDeleted, false⟩
  | .crash => ⟨Executor.new n.executor.config n.executor.store, false⟩
  | .start inp =>
    let started := n.executor.initializeState inp
    ⟨started.2, started.1.isOk⟩

def acts (n : ProducerNode) : ProducerEvent → List BlockAct
  | .produce inp => if n.running then (n.executor.produceBlock inp).2.2 else []
  | _ => []

def history (n : ProducerNode) (events : List ProducerEvent) : List BlockAct :=
  (Runs.outputs step acts n events).flatten

end ProducerNode

/-! ## Safety -/

def Store.Holds (s : Store) (a : BlockAct) : Prop :=
  ∃ block, s.blocks a.header.height = some block ∧ block.header.header = a.header ∧
    block.data = a.data

def Store.Pends (s : Store) (a : BlockAct) : Prop :=
  ∃ header, s.pendingHeader = some header ∧ header.header = a.header ∧
    s.pendingData = some a.data

/-- Whatever is saved, signed, proposed or committed at the height of a saved block is that block;
one header is signed per height; and a saved block is in the chain or pending. -/
structure NoEquivocation (s : Store) (history : List BlockAct) : Prop where
  later_same : ∀ header data earlier later,
    history = earlier ++ .saved header data :: later →
      ∀ a ∈ later, a.header.height = header.height → a.header = header ∧ a.data = data
  signed_once : ∀ h d h' d', .signed h d ∈ history → .signed h' d' ∈ history →
    h.height = h'.height → h = h'
  txs_kept : ∀ header data, .saved header data ∈ history →
    s.Holds (.saved header data) ∨ s.Pends (.saved header data)

/-- The store has a pending block for the next height that the flag does not show. -/
def Executor.Orphaned (e : Executor) : Prop :=
  e.hasPendingBlock = false ∧
    ∃ header, e.store.pendingHeader = some header ∧
      header.header.height = e.store.height + 1

/-- No block is produced and the node is not stopped with an orphaned pending block. -/
def ProducerEvent.Aware (n : ProducerNode) : ProducerEvent → Prop
  | .produce _ => n.running → ¬ n.executor.Orphaned
  | .stop _ _ => ¬ n.executor.Orphaned
  | _ => True

instance (e : Executor) : Decidable e.Orphaned :=
  decidable_of_iff (e.hasPendingBlock = false ∧ e.store.pendingHeader.any
      (fun header => decide (header.header.height = e.store.height + 1)) = true) (by
    unfold Executor.Orphaned
    rw [Option.any_eq_true]
    simp only [decide_eq_true_eq])

instance (n : ProducerNode) (ev : ProducerEvent) : Decidable (ev.Aware n) := by
  cases ev <;> unfold ProducerEvent.Aware <;> infer_instance

/-! ## What one call does -/

variable {height : ℕ} {data : Data} (e : Executor) (state : State) (header : SignedHeader)
  (inp : ProduceInput)

namespace Executor

def About (header : Header) (data : Data) (acts : List BlockAct) : Prop :=
  ∀ a ∈ acts, a.header = header ∧ a.data = data

theorem About.nil (header : Header) (data : Data) : About header data [] := by
  intro a ha
  exact absurd ha not_mem_nil

theorem About.append {header : Header} {as bs : List BlockAct}
    (ha : About header data as) (hb : About header data bs) :
    About header data (as ++ bs) := by
  intro a hmem
  rcases mem_append.mp hmem with h | h
  · exact ha a h
  · exact hb a h

theorem About.optional {header : Header} {a : BlockAct} (b : Bool)
    (hh : a.header = header) (hd : a.data = data) :
    About header data (if b then [a] else []) := by
  intro x hx
  cases b with
  | false => exact absurd hx not_mem_nil
  | true =>
    rw [if_pos rfl, mem_singleton] at hx
    rw [hx]
    exact ⟨hh, hd⟩

/-- Nothing a block depends on has changed. -/
structure Unchanged (e e' : Executor) : Prop where
  config_eq : e'.config = e.config
  store_eq : e'.store = e.store
  lastState_eq : e'.lastState = e.lastState

def CommitsOn (store : Store) (header : SignedHeader) (data : Data) (e' : Executor) : Prop :=
  ∃ signature newState, newState.lastBlockHeight = header.header.height ∧
    e'.store = commitBatch store { header with signature := signature } data newState ∧
    e'.lastState = some newState

/-- Nothing the next block is built from has changed. -/
structure Kept (e e' : Executor) : Prop where
  config_eq : e'.config = e.config
  store_eq : e'.store = e.store
  lastState_eq : e'.lastState = e.lastState
  lastBlockInfo_eq : e'.lastBlockInfo = e.lastBlockInfo

def newState (e : Executor) (inp : ProduceInput) (header : Header) (root : Hash) : State :=
  { e.getLastState.nextState e.config.codec header root with daHeight := inp.daHeight }

structure Sealed (e : Executor) (inp : ProduceInput) (header : SignedHeader) (data : Data)
    (root : Hash) (signature : Signature) (e' : Executor) : Prop where
  executed : executeTxsWithRetry inp = .ok root
  signed : e.signHeader inp = .ok signature
  sequence : (e.getLastState.assertValidSequence e.hashMismatchSeen header.header).1 = .ok ()
  config_eq : e'.config = e.config
  store_eq : e'.store = commitBatch e.store { header with signature := signature } data
    (e.newState inp header.header root)
  lastState_eq : e'.lastState = some (e.newState inp header.header root)
  lastBlockInfo_eq : e'.lastBlockInfo = some
    ⟨e.config.codec.headerHash header.header, e.config.codec.dataHash data, signature⟩

def NoCommit (acts : List BlockAct) : Prop :=
  ∀ header data, BlockAct.committed header data ∉ acts

theorem NoCommit.nil : NoCommit [] := fun _ _ => not_mem_nil

theorem NoCommit.append {as bs : List BlockAct} (ha : NoCommit as) (hb : NoCommit bs) :
    NoCommit (as ++ bs) := by
  intro header data hmem
  rcases mem_append.mp hmem with h | h
  · exact ha header data h
  · exact hb header data h

theorem commitBlock_cases (data : Data) (st : State) (inp : ProduceInput) :
    About header.header data (e.commitBlock header data st inp).2.2 ∧
      (Kept e (e.commitBlock header data st inp).2.1 ∧
          NoCommit (e.commitBlock header data st inp).2.2 ∨
        (e.commitBlock header data st inp).2.1.config = e.config ∧
          (e.commitBlock header data st inp).2.1.store = commitBatch e.store header data st ∧
          (e.commitBlock header data st inp).2.1.lastState = some st ∧
          (e.commitBlock header data st inp).2.1.lastBlockInfo =
            some ⟨st.lastHeaderHash, e.config.codec.dataHash data, header.signature⟩) := by
  have habout : About header.header data
      (if e.config.raftNode then [.proposed header.header data] else []) :=
    About.optional _ rfl rfl
  have hnone : NoCommit (if e.config.raftNode then [.proposed header.header data] else []) := by
    intro h d
    split_ifs <;> simp
  unfold commitBlock
  -- what is proposed does not depend on which later step fails
  generalize (if e.config.raftNode = true then [BlockAct.proposed header.header data]
    else []) = proposals at habout hnone ⊢
  split_ifs
  · exact ⟨About.nil _ _, .inl ⟨⟨rfl, rfl, rfl, rfl⟩, .nil⟩⟩
  · exact ⟨habout, .inl ⟨⟨rfl, rfl, rfl, rfl⟩, hnone⟩⟩
  · exact ⟨habout, .inl ⟨⟨rfl, rfl, rfl, rfl⟩, hnone⟩⟩
  all_goals
    refine ⟨habout.append ?_, .inr ⟨rfl, rfl, rfl, rfl⟩⟩
    intro a ha
    rw [mem_singleton.mp ha]
    exact ⟨rfl, rfl⟩

theorem sealBlock_cases (data : Data) (inp : ProduceInput) :
    About header.header data (e.sealBlock header data inp).2.2 ∧
      (Kept e (e.sealBlock header data inp).2.1 ∧ NoCommit (e.sealBlock header data inp).2.2 ∨
        ∃ root signature,
          Sealed e inp header data root signature (e.sealBlock header data inp).2.1) := by
  have hsigned : About header.header data
      (if e.config.signer then [.signed header.header data] else []) :=
    About.optional _ rfl rfl
  have hnone : NoCommit (if e.config.signer then [.signed header.header data] else []) := by
    intro h d
    split_ifs <;> simp
  unfold sealBlock
  by_cases hquorum : (e.config.raftNode && !inp.quorumAfter) = true
  · rw [if_pos hquorum]
    exact ⟨About.nil _ _, .inl ⟨⟨rfl, rfl, rfl, rfl⟩, .nil⟩⟩
  rw [if_neg hquorum]
  unfold applyBlock
  rcases hexec : executeTxsWithRetry inp with err | root
  · exact ⟨About.nil _ _, .inl ⟨⟨rfl, rfl, rfl, rfl⟩, .nil⟩⟩
  rcases hsign : e.signHeader inp with err | signature
  · exact ⟨About.nil _ _, .inl ⟨⟨rfl, rfl, rfl, rfl⟩, .nil⟩⟩
  dsimp only
  rcases hvalid : (e.getLastState.assertValidSequence e.hashMismatchSeen header.header).1
    with err | _
  · exact ⟨hsigned, .inl ⟨⟨rfl, rfl, rfl, rfl⟩, hnone⟩⟩
  obtain ⟨habout, hrest⟩ := commitBlock_cases
    { e with hashMismatchSeen :=
        (e.getLastState.assertValidSequence e.hashMismatchSeen header.header).2 }
    { header with signature := signature } data (e.newState inp header.header root) inp
  refine ⟨hsigned.append habout, ?_⟩
  rcases hrest with ⟨hkept, hnone'⟩ | ⟨hconfig, hstore, hstate, hinfo⟩
  · exact .inl ⟨⟨hkept.1, hkept.2, hkept.3, hkept.4⟩, hnone.append hnone'⟩
  · exact .inr ⟨root, signature, hexec, hsign, hvalid, hconfig, hstore, hstate, hinfo⟩

inductive Obtained (e : Executor) (inp : ProduceInput) (header : SignedHeader) (data : Data) :
    Store → Prop
  | pending (h : e.pendingFor e.newHeight = .ok (some (header, data))) :
      Obtained e inp header data e.store
  | created (batchData : BatchData) (hbatch : retrieveBatch inp = .ok batchData)
      (h : e.createBlock e.newHeight batchData inp = .ok (header, data)) :
      Obtained e inp header data (e.store.savePendingBlock header data)

/-- The store with the block of this call in it as the pending one. -/
def ObtainedOn (e : Executor) (header : SignedHeader) (data : Data) (store : Store) : Prop :=
  header.header.height = e.newHeight ∧
    (e.pendingFor e.newHeight = .ok (some (header, data)) ∧ store = e.store ∨
      e.pendingFor e.newHeight = .ok none ∧ store = e.store.savePendingBlock header data)

section

variable {e : Executor} {height : ℕ} {batchData : BatchData} {inp : ProduceInput}
  {header : SignedHeader} {data : Data}
  (h : e.createBlock height batchData inp = .ok (header, data))
include h

theorem createBlock_ok :
    ∃ time last pubKey validatorHash, e.lastBlock height batchData = .ok (time, last) ∧
      e.publicKey inp = .ok pubKey ∧ inp.validatorHash pubKey = .ok validatorHash ∧
      header =
        { header :=
            { height := height
              time := time
              chainID := e.config.genesis.chainID
              version := e.getLastState.version
              lastHeaderHash := last.headerHash
              dataHash := if batchData.batch.transactions.length = 0 then dataHashForEmptyTxs
                else e.config.codec.daCommitment batchData.batch.transactions
              appHash := e.getLastState.appHash
              validatorHash := validatorHash
              proposerAddress := e.config.genesis.proposerAddress
              legacy := none }
          signature := last.signature
          signer := ⟨pubKey, e.config.genesis.proposerAddress⟩ } ∧
      data = ⟨some ⟨e.config.genesis.chainID, height, time, last.dataHash⟩,
        batchData.batch.transactions⟩ := by
  unfold createBlock at h
  split at h
  · simp at h
  rename_i time last hlast
  split at h
  · simp at h
  rename_i pubKey hkey
  split at h
  · simp at h
  · rename_i validatorHash hhasher
    obtain ⟨hheader, hdata⟩ := Prod.mk.inj (ok.inj h)
    exact ⟨time, last, pubKey, validatorHash, hlast, hkey, hhasher, hheader.symm, hdata.symm⟩

theorem createBlock_height :
    header.header.height = height := by
  obtain ⟨time, last, pubKey, validatorHash, -, -, -, rfl, -⟩ := createBlock_ok h
  rfl

end

theorem pendingFor_height {e : Executor} {block : SignedHeader × Data}
    (h : e.pendingFor height = .ok (some block)) : block.1.header.height = height := by
  unfold pendingFor at h
  split_ifs at h
  · split at h
    · simp at h
    · simp at h
    · split_ifs at h with hheight
      · rw [ok.injEq, some.injEq] at h
        rw [← h]
        exact hheight
      · simp at h
  · simp at h

theorem Obtained.next {store : Store} (h : Obtained e inp header data store) :
    header.header.height = e.newHeight ∧ store.height = e.store.height ∧
      store.blocks = e.store.blocks ∧ store.states = e.store.states := by
  rcases h with hpending | ⟨batchData, -, hcreate⟩
  · exact ⟨pendingFor_height hpending, rfl, rfl, rfl⟩
  · exact ⟨createBlock_height hcreate, rfl, rfl, rfl⟩

theorem obtainBlock_cases :
    ((∀ block, (e.obtainBlock inp).1 ≠ .ok (some block)) ∧ (e.obtainBlock inp).2 = (e, [])) ∨
      ∃ header data store, (e.obtainBlock inp).1 = .ok (some (header, data)) ∧
        Obtained e inp header data store ∧ ObtainedOn e header data store ∧
        (e.obtainBlock inp).2.1 = { e with store := store } ∧
        About header.header data (e.obtainBlock inp).2.2 ∧ NoCommit (e.obtainBlock inp).2.2 := by
  unfold obtainBlock
  rcases hpending : e.pendingFor e.newHeight with err | _ | ⟨header, data⟩
  · exact .inl (by simp)
  · rcases hbatch : retrieveBatch inp with err | batchData
    · refine .inl ?_
      cases err <;> simp
    dsimp only
    rcases hcreate : e.createBlock e.newHeight batchData inp with err | ⟨header, data⟩
    · exact .inl (by simp)
    split_ifs
    · refine .inr ⟨header, data, _, rfl, .created batchData hbatch hcreate,
        ⟨createBlock_height hcreate, .inr ⟨hpending, rfl⟩⟩, rfl, ?_, fun h d => by simp⟩
      intro a ha
      rw [mem_singleton.mp ha]
      exact ⟨rfl, rfl⟩
    · exact .inl (by simp)
  · exact .inr ⟨header, data, e.store, rfl, .pending hpending,
      ⟨pendingFor_height hpending, .inl ⟨hpending, rfl⟩⟩, rfl, .nil _ _, .nil⟩

theorem pendingLimitReached_snd :
    ∃ n, (e.pendingLimitReached inp).2 = { e with pendingCheckCounter := n } := by
  unfold pendingLimitReached
  dsimp only
  split_ifs
  · exact ⟨e.pendingCheckCounter, rfl⟩
  · exact ⟨e.pendingCheckCounter + 1, rfl⟩

/-- What a call does: it leaves everything as it is, or obtains a block, which stays pending or is
executed, signed and committed. -/
theorem produceBlock_cases :
    Kept e (e.produceBlock inp).2.1 ∧ (e.produceBlock inp).2.2 = [] ∨
      ∃ header data store, Obtained e inp header data store ∧ ObtainedOn e header data store ∧
        About header.header data (e.produceBlock inp).2.2 ∧
        (Kept { e with store := store } (e.produceBlock inp).2.1 ∧
            NoCommit (e.produceBlock inp).2.2 ∨
          ∃ root signature, Sealed { e with store := store } inp header data root signature
            (e.produceBlock inp).2.1) := by
  unfold produceBlock
  -- the four early returns, each before a block is obtained
  by_cases hcancelled : inp.cancelled = true
  · rw [if_pos hcancelled]
    exact .inl ⟨⟨rfl, rfl, rfl, rfl⟩, rfl⟩
  rw [if_neg hcancelled]
  by_cases hquorum : (e.config.raftNode && !inp.quorumBefore) = true
  · rw [if_pos hquorum]
    exact .inl ⟨⟨rfl, rfl, rfl, rfl⟩, rfl⟩
  rw [if_neg hquorum]
  dsimp only
  obtain ⟨n, hlimited⟩ := pendingLimitReached_snd e inp
  rw [hlimited]
  by_cases hskip : (e.pendingLimitReached inp).1 = true
  · rw [if_pos hskip]
    exact .inl ⟨⟨rfl, rfl, rfl, rfl⟩, rfl⟩
  rw [if_neg hskip]
  rcases obtainBlock_cases { e with pendingCheckCounter := n } inp with
    ⟨hnone, hsame⟩ | ⟨header, data, store, hres, hobtained, hon, hexecutor, habout, hacts⟩
  · left
    split
    · rw [hsame]
      exact ⟨⟨rfl, rfl, rfl, rfl⟩, rfl⟩
    · rw [hsame]
      exact ⟨⟨rfl, rfl, rfl, rfl⟩, rfl⟩
    · rename_i block hblock
      exact absurd hblock (hnone block)
  · right
    -- neither way to a block looks at the counter
    have hsource : Obtained e inp header data store := by
      rcases hobtained with hpending | ⟨batchData, hbatch, hcreate⟩
      · exact .pending hpending
      · exact .created batchData hbatch hcreate
    obtain ⟨hsealing, hend⟩ :=
      sealBlock_cases { e with pendingCheckCounter := n, store := store } header data inp
    rw [hres, hexecutor]
    refine ⟨header, data, store, hsource, hon, habout.append hsealing, ?_⟩
    rcases hend with ⟨hkept, hnone⟩ | ⟨root, signature, hsealed⟩
    · exact .inl ⟨⟨hkept.1, hkept.2, hkept.3, hkept.4⟩, hacts.append hnone⟩
    · exact .inr ⟨root, signature, hsealed.1, hsealed.2, hsealed.3, hsealed.4, hsealed.5,
        hsealed.6, hsealed.7⟩

/-- A call either leaves everything as it is, or is about one block of the next height. -/
theorem produceBlock_spec :
    Unchanged e (e.produceBlock inp).2.1 ∧ (e.produceBlock inp).2.2 = [] ∨
      ∃ header data store, ObtainedOn e header data store ∧
        About header.header data (e.produceBlock inp).2.2 ∧
        ((e.produceBlock inp).2.1.store = store ∧
            (e.produceBlock inp).2.1.lastState = e.lastState ∨
          CommitsOn store header data (e.produceBlock inp).2.1) := by
  rcases e.produceBlock_cases inp with
    ⟨hkept, hnil⟩ | ⟨header, data, store, -, hon, habout, hend⟩
  · exact .inl ⟨⟨hkept.config_eq, hkept.store_eq, hkept.lastState_eq⟩, hnil⟩
  refine .inr ⟨header, data, store, hon, habout, ?_⟩
  rcases hend with ⟨hkept, -⟩ | ⟨root, signature, hsealed⟩
  · exact .inl ⟨hkept.store_eq, hkept.lastState_eq⟩
  · exact .inr ⟨signature, _, rfl, hsealed.store_eq, hsealed.lastState_eq⟩

end Executor

/-! ## The invariant -/

/-- Where the block of an act is: in the chain if its height has been reached, pending if
it is the next one. -/
def Store.Keeps (s : Store) (a : BlockAct) : Prop :=
  a.header.height ≤ s.height ∧ s.Holds a ∨ a.header.height = s.height + 1 ∧ s.Pends a

/-- The store of a chain: the state of its height is there and is of that height, there is
no block above it, and a pending header has its data. -/
structure Store.Sound (s : Store) : Prop where
  state : ∃ st, s.getState = some st ∧ st.lastBlockHeight = s.height
  no_block_above : ∀ h, s.height < h → s.blocks h = none
  pending_whole : ∀ header, s.pendingHeader = some header → ∃ data, s.pendingData = some data

structure ProducerInv (config : ExecutorConfig) (n : ProducerNode) (history : List BlockAct) :
    Prop where
  config_eq : n.executor.config = config
  sound_or_new : n.executor.store.Sound ∨
    n.running = false ∧ n.executor.store = empty ∧ history = []
  at_tip : n.running = true →
    n.executor.getLastState.lastBlockHeight = n.executor.store.height
  keeps : ∀ a ∈ history, n.executor.store.Keeps a

namespace Store

section

variable {s : Store} {a : BlockAct} {header : SignedHeader} {data : Data} {st : State} {s' : Store}

theorem Keeps.agree {b : BlockAct} (ha : s.Keeps a) (hb : s.Keeps b)
    (hheight : a.header.height = b.header.height) : a.header = b.header ∧ a.data = b.data := by
  -- both blocks are in the chain at one height, or both are the pending one
  rcases ha with ⟨hle, block, hblock, hheader, hdata⟩ | ⟨hnext, ph, hph, hheader, hdata⟩
  · rcases hb with ⟨_, block', hblock', hheader', hdata'⟩ | ⟨hnext', _⟩
    · rw [hheight, hblock', some.injEq] at hblock
      subst hblock
      exact ⟨hheader.symm.trans hheader', hdata.symm.trans hdata'⟩
    · omega
  · rcases hb with ⟨hle', _⟩ | ⟨_, ph', hph', hheader', hdata'⟩
    · omega
    · rw [hph', some.injEq] at hph
      subst hph
      rw [hdata', some.injEq] at hdata
      exact ⟨hheader.symm.trans hheader', hdata.symm⟩

theorem commitBatch_eq (hheight : header.header.height = s.height + 1) :
    commitBatch s header data st =
      { s with
        height := s.height + 1
        blocks := update s.blocks (s.height + 1)
          (some ⟨header, data, header.signature⟩)
        states := update s.states st.lastBlockHeight (some st) } := by
  unfold commitBatch updateState setHeight saveBlockData
  dsimp only
  rw [hheight, if_neg (by omega)]

theorem Keeps.commitBatch (hheight : header.header.height = s.height + 1) (ha : s.Keeps a)
    (hsame : a.header.height = s.height + 1 → a.header = header.header ∧ a.data = data) :
    (commitBatch s header data st).Keeps a := by
  rw [commitBatch_eq hheight]
  refine .inl ?_
  rcases ha with ⟨hle, block, hblock, hrest⟩ | ⟨hnext, -⟩
  · refine ⟨Nat.le_succ_of_le hle, block, ?_, hrest⟩
    dsimp only
    rw [update_of_ne (by omega)]
    exact hblock
  -- the pending block of the next height is the one that is committed
  · obtain ⟨hh, hd⟩ := hsame hnext
    refine ⟨hnext.le, ⟨header, data, header.signature⟩, ?_, hh.symm, hd.symm⟩
    dsimp only
    rw [hnext, update_self]

theorem Sound.commitBatch (hs : s.Sound) (hheight : header.header.height = s.height + 1)
    (hst : st.lastBlockHeight = header.header.height) :
    (commitBatch s header data st).Sound := by
  rw [commitBatch_eq hheight]
  refine ⟨⟨st, ?_, hst.trans hheight⟩, ?_, hs.pending_whole⟩
  · unfold getState
    dsimp only
    rw [hst, hheight, update_self]
  · intro h hlt
    dsimp only at hlt ⊢
    rw [update_of_ne (by omega)]
    exact hs.no_block_above h (by omega)

theorem Sound.savePendingBlock (hs : s.Sound) (header : SignedHeader)
    (data : Data) : (s.savePendingBlock header data).Sound :=
  ⟨hs.state, hs.no_block_above, fun _ _ => ⟨data, rfl⟩⟩

theorem Keeps.savePendingBlock (ha : s.Keeps a)
    (hnone : ∀ header, s.pendingHeader = some header → header.header.height ≠ s.height + 1)
    (header : SignedHeader) (data : Data) : (s.savePendingBlock header data).Keeps a := by
  rcases ha with hchain | ⟨hnext, ph, hph, hheader, -⟩
  · exact .inl hchain
  -- an act kept only by a pending block of the next height: there was none
  · exact absurd (by rw [hheader, hnext]) (hnone ph hph)

theorem Keeps.of_frame (ha : s.Keeps a) (hframe : ReplayFrame s s') : s'.Keeps a := by
  unfold Keeps Holds Pends at ha ⊢
  rw [hframe.height_eq, hframe.blocks_eq, hframe.pendingHeader_eq, hframe.pendingData_eq]
  exact ha

theorem Sound.of_frame (hs : s.Sound) (hframe : ReplayFrame s s') :
    s'.Sound := by
  obtain ⟨st, hst, hheight⟩ := hs.state
  refine ⟨?_, ?_, ?_⟩
  · unfold getState
    rw [hframe.height_eq]
    rcases hframe.states_or s.height with hsame | ⟨st', hst', hheight'⟩
    · exact ⟨st, hsame.trans hst, hheight⟩
    · exact ⟨st', hst', hheight'⟩
  · rw [hframe.height_eq, hframe.blocks_eq]
    exact hs.no_block_above
  · rw [hframe.pendingHeader_eq, hframe.pendingData_eq]
    exact hs.pending_whole

end

end Store

/-! ## Producing -/

namespace Executor

theorem pendingFor_some {e : Executor} {header : SignedHeader}
    (h : e.pendingFor height = .ok (some (header, data))) :
    e.store.pendingHeader = some header ∧ e.store.pendingData = some data := by
  unfold pendingFor getPendingBlock at h
  rcases hflag : e.hasPendingBlock with _ | _
  · simp [hflag] at h
  rcases hph : e.store.pendingHeader with _ | ph
  · simp [hph] at h
  rcases hpd : e.store.pendingData with _ | pd
  · simp [hflag, hph, hpd] at h
  rw [hph, hpd] at h
  dsimp only at h
  split_ifs at h
  · rw [ok.injEq, some.injEq, Prod.mk.injEq] at h
    exact ⟨congrArg some h.1, congrArg some h.2⟩
  · simp at h

theorem pendingFor_none {e : Executor} (h : e.pendingFor e.newHeight = .ok none)
    (htip : e.newHeight = e.store.height + 1) (hnot : ¬ e.Orphaned) :
    ∀ header, e.store.pendingHeader = some header →
      header.header.height ≠ e.store.height + 1 := by
  intro header hpending hheight
  rcases hflag : e.hasPendingBlock with _ | _
  -- the flag is down and the block is there: that is an orphan
  · exact hnot ⟨hflag, header, hpending, hheight⟩
  · unfold pendingFor getPendingBlock at h
    rw [if_pos hflag, hpending] at h
    rcases hdata : e.store.pendingData with _ | data
    · simp [hdata] at h
    · rw [hdata] at h
      dsimp only at h
      rw [if_pos (by rw [hheight, htip])] at h
      simp at h

theorem ObtainedOn.keeps {e : Executor} {header : SignedHeader} {store : Store}
    (hon : ObtainedOn e header data store) (hsound : e.store.Sound)
    (htip : e.newHeight = e.store.height + 1) (hnot : ¬ e.Orphaned) :
    store.Sound ∧ header.header.height = store.height + 1 ∧
      (∀ a, e.store.Keeps a → store.Keeps a) ∧
      ∀ a : BlockAct, a.header = header.header ∧ a.data = data → store.Keeps a := by
  obtain ⟨hheight, ⟨hfound, rfl⟩ | ⟨hnone, rfl⟩⟩ := hon
  · obtain ⟨hph, hpd⟩ := pendingFor_some hfound
    -- a block that was already pending is used as it is, and the store does not change
    refine ⟨hsound, hheight.trans htip, fun _ ha => ha, ?_⟩
    rintro a ⟨hh, hd⟩
    exact .inr ⟨by rw [hh, hheight, htip], header, hph, hh.symm, by rw [hpd, hd]⟩
  -- a new block overwrites the pending slot, which was free
  · have hfree := pendingFor_none hnone htip hnot
    refine ⟨hsound.savePendingBlock header data, hheight.trans htip,
      fun a ha => ha.savePendingBlock hfree header data, ?_⟩
    rintro a ⟨hh, hd⟩
    exact .inr ⟨by rw [hh, hheight, htip]; rfl, header, rfl, hh.symm, by rw [hd]; rfl⟩

theorem produceBlock_config :
    (e.produceBlock inp).2.1.config = e.config := by
  rcases e.produceBlock_cases inp with
    ⟨hkept, -⟩ | ⟨header, data, store, -, -, -, ⟨hkept, -⟩ | ⟨root, signature, hsealed⟩⟩
  · exact hkept.config_eq
  · exact hkept.config_eq
  · exact hsealed.config_eq

end Executor

theorem ProducerInv.produce {config : ExecutorConfig} {n : ProducerNode}
    {history : List BlockAct} (hinv : ProducerInv config n history) (inp : ProduceInput)
    (haware : n.running = true → ¬ n.executor.Orphaned) :
    ProducerInv config (n.step (.produce inp)) (history ++ n.acts (.produce inp)) := by
  dsimp only [ProducerNode.step, ProducerNode.acts]
  by_cases hrun : n.running = true
  · rw [if_pos hrun, if_pos hrun]
    have hsound : n.executor.store.Sound := by
      rcases hinv.sound_or_new with hsound | ⟨hoff, -⟩
      · exact hsound
      · exact absurd hrun (by rw [hoff]; decide)
    have htip : n.executor.newHeight = n.executor.store.height + 1 := by
      unfold newHeight
      rw [hinv.at_tip hrun]
    have hconfig := (n.executor.produceBlock_config inp).trans hinv.config_eq
    rcases n.executor.produceBlock_spec inp with
      ⟨hsame, hnil⟩ | ⟨header, data, store, hon, habout, hend⟩
    · -- nothing was obtained: only counters differ
      refine ⟨hconfig, .inl ?_, fun _ => ?_, ?_⟩
      · rw [hsame.store_eq]
        exact hsound
      · unfold getLastState
        rw [hsame.lastState_eq, hsame.store_eq]
        exact hinv.at_tip hrun
      · rw [hnil, append_nil, hsame.store_eq]
        exact hinv.keeps
    · obtain ⟨hsound', hheight, hold, hnew⟩ := hon.keeps hsound htip (haware hrun)
      have hkeeps : ∀ a ∈ history ++ (n.executor.produceBlock inp).2.2, store.Keeps a := by
        intro a ha
        rcases mem_append.mp ha with ha | ha
        · exact hold a (hinv.keeps a ha)
        · exact hnew a (habout a ha)
      rcases hend with ⟨hstore, hstate⟩ | ⟨signature, newState, hst, hstore, hstate⟩
      · -- the block stays pending
        refine ⟨hconfig, .inl ?_, fun _ => ?_, ?_⟩
        · rw [hstore]
          exact hsound'
        · have hsameHeight : store.height = n.executor.store.height := by
            have := hon.1
            omega
          unfold getLastState
          rw [hstate, hstore, hsameHeight]
          exact hinv.at_tip hrun
        · rw [hstore]
          exact hkeeps
      · -- the block becomes the tip
        have hsigned : ({ header with signature := signature } : SignedHeader).header.height =
            store.height + 1 := hheight
        refine ⟨hconfig, .inl ?_, fun _ => ?_, ?_⟩
        · rw [hstore]
          exact hsound'.commitBatch hsigned hst
        · unfold getLastState
          rw [hstate, hstore, commitBatch_eq hsigned]
          exact hst.trans hheight
        · rw [hstore]
          intro a ha
          -- what was kept for this height is what has just been committed, since the
          -- producer's own act at that height is kept too
          refine (hkeeps a ha).commitBatch hsigned (fun hnext => ?_)
          exact (hkeeps a ha).agree (hnew (.saved header.header data) ⟨rfl, rfl⟩)
            (hnext.trans hheight.symm)
  · rw [if_neg hrun, if_neg hrun, append_nil]
    exact hinv

/-! ## Starting -/

namespace Executor

theorem loadState_of_sound {e : Executor} {inp : StartInput} {state : State}
    (hsound : e.store.Sound) (hload : e.loadState inp = .ok state) :
    e.store.getState = some state ∧ state.lastBlockHeight = e.store.height := by
  obtain ⟨st, hst, hheight⟩ := hsound.state
  unfold loadState at hload
  rw [hst] at hload
  obtain rfl : st = state := ok.inj hload
  exact ⟨hst, hheight⟩

theorem migrate_of_none {e : Executor} (inp : StartInput)
    (hnone : e.store.blocks e.newHeight = none) :
    e.migrateLegacyPendingBlock inp = (.ok (), e) := by
  unfold migrateLegacyPendingBlock
  rw [hnone]

theorem syncExecution_spec (inp : StartInput) :
    (e.syncExecution state inp).2 = { e with
      store := (syncToHeight e.config.codec e.config.genesis inp.replay e.store
        (e.syncTarget state inp.raftTarget)).2 } := by
  unfold syncExecution
  dsimp only
  split
  · rfl
  · split_ifs <;> rfl

theorem initializeState_spec (inp : StartInput) :
    (e.initializeState inp).1.isOk = false ∧
        ((e.initializeState inp).2 = e ∨ ∃ state, e.loadState inp = .ok state ∧
          (e.initializeState inp).2 = { e with lastState := some state }) ∨
      ∃ state, e.loadState inp = .ok state ∧
        (e.store.blocks (state.lastBlockHeight + 1) = none → ∃ target,
          (e.initializeState inp).2 =
            { warmCaches { e with
                lastState := some state
                store := (e.store.setHeight state.lastBlockHeight).updateState state } state with
              store := (syncToHeight e.config.codec e.config.genesis inp.replay
                ((e.store.setHeight state.lastBlockHeight).updateState state) target).2 }) := by
  unfold initializeState
  rcases hload : e.loadState inp with err | state
  · exact .inl ⟨rfl, .inl rfl⟩
  dsimp only
  rcases e.checkRaft state inp.raftBefore with err | _
  · exact .inl ⟨rfl, .inl rfl⟩
  by_cases hsaved : (!inp.stateSaved) = true
  · rw [if_pos hsaved]
    exact .inl ⟨rfl, .inr ⟨state, rfl, rfl⟩⟩
  rw [if_neg hsaved]
  refine .inr ⟨state, rfl, fun hnone => ?_⟩
  -- there is no block above the tip, so there is nothing to migrate
  rw [migrate_of_none inp (by
    unfold newHeight setHeight
    split_ifs <;> exact hnone)]
  rw [syncExecution_spec]
  exact ⟨_, rfl⟩

end Executor

section

variable {config : ExecutorConfig} {n : ProducerNode} {history : List BlockAct} {e : Executor}

theorem Store.sound_genesis :
    ((empty.setHeight state.lastBlockHeight).updateState state).Sound := by
  refine ⟨⟨state, ?_, ?_⟩, ?_, ?_⟩
  · unfold getState updateState setHeight empty
    split_ifs with hzero
    · dsimp only
      rw [Nat.le_zero.mp hzero, update_self]
    · exact update_self _ _ _
  · unfold setHeight empty
    split_ifs with hzero
    · exact Nat.le_zero.mp hzero
    · rfl
  · intro h _
    unfold setHeight empty
    split_ifs <;> rfl
  · intro header hpending
    unfold updateState setHeight empty at hpending
    split_ifs at hpending

theorem ProducerInv.start (hinv : ProducerInv config n history) (inp : StartInput) :
    ProducerInv config (n.step (.start inp)) (history ++ n.acts (.start inp)) := by
  dsimp only [ProducerNode.step, ProducerNode.acts]
  rw [append_nil]
  rcases n.executor.initializeState_spec inp with ⟨hfailed, hsame⟩ | ⟨state, hload, hrest⟩
  · -- nothing written and not running
    have hconfig : (n.executor.initializeState inp).2.config = n.executor.config := by
      rcases hsame with heq | ⟨state, -, heq⟩ <;> rw [heq]
    have hstore : (n.executor.initializeState inp).2.store = n.executor.store := by
      rcases hsame with heq | ⟨state, -, heq⟩ <;> rw [heq]
    refine ⟨hconfig.trans hinv.config_eq, ?_, ?_, ?_⟩
    · rw [hstore, hfailed]
      rcases hinv.sound_or_new with hsound | ⟨-, hempty, hnil⟩
      · exact .inl hsound
      · exact .inr ⟨rfl, hempty, hnil⟩
    · intro hrun
      rw [hfailed] at hrun
      exact absurd hrun Bool.false_ne_true
    · rw [hstore]
      exact hinv.keeps
  · rcases hinv.sound_or_new with hsound | ⟨-, hempty, hnil⟩
    -- a restart: the loaded state is that of the tip
    · obtain ⟨hst, hheight⟩ := loadState_of_sound hsound hload
      obtain ⟨target, heq⟩ := hrest (hsound.no_block_above _ (by omega))
      have hframe := syncToHeight_frame n.executor.config.codec n.executor.config.genesis
        inp.replay ((n.executor.store.setHeight state.lastBlockHeight).updateState state) target
      -- the height is the store's own, so the write only refreshes the tip's state
      have hwrite : n.executor.store.setHeight state.lastBlockHeight = n.executor.store :=
        if_pos hheight.le
      rw [hwrite] at hframe heq
      have hall := (updateState_frame n.executor.store state).trans hframe
      rw [heq]
      refine ⟨hinv.config_eq, .inl (hsound.of_frame hall), fun _ => ?_,
        fun a ha => (hinv.keeps a ha).of_frame hall⟩
      show state.lastBlockHeight = _
      rw [hall.height_eq]
      exact hheight
    -- the first start: the state is that of genesis, and there is no history
    · obtain ⟨target, heq⟩ := hrest (by rw [hempty]; rfl)
      rw [hempty] at heq
      have hframe := syncToHeight_frame n.executor.config.codec n.executor.config.genesis
        inp.replay ((empty.setHeight state.lastBlockHeight).updateState state) target
      have hgenesis := sound_genesis state
      rw [heq]
      refine ⟨hinv.config_eq, .inl (hgenesis.of_frame hframe), fun _ => ?_, ?_⟩
      · show state.lastBlockHeight = _
        rw [hframe.height_eq]
        unfold setHeight empty
        split_ifs with hzero
        · exact Nat.le_zero.mp hzero
        · rfl
      · rw [hnil]
        intro a ha
        exact absurd ha not_mem_nil

/-! ## Stopping, and the whole run -/

/-- Stopping leaves the executor, or deletes the pending header and perhaps its data. -/
theorem Executor.stop_cases (e : Executor) (headerDeleted dataDeleted : Bool) :
    e.stop headerDeleted dataDeleted = e ∨ e.hasPendingBlock = false ∧
      ∃ data, (data = none ∨ data = e.store.pendingData) ∧ e.stop headerDeleted dataDeleted =
        { e with store := { e.store with pendingHeader := none, pendingData := data } } := by
  unfold Executor.stop deletePendingBlock
  split_ifs with hflag
  · exact .inl rfl
  · exact .inr ⟨Bool.eq_false_iff.mpr hflag, _, .inl rfl, rfl⟩
  · exact .inr ⟨Bool.eq_false_iff.mpr hflag, _, .inr rfl, rfl⟩
  · exact .inl rfl

theorem Executor.stop_store (hnot : ¬ e.Orphaned) (hsound : e.store.Sound)
    (headerDeleted dataDeleted : Bool) :
    (e.stop headerDeleted dataDeleted).store.Sound ∧
      ∀ a, e.store.Keeps a → (e.stop headerDeleted dataDeleted).store.Keeps a := by
  rcases e.stop_cases headerDeleted dataDeleted with heq | ⟨hflag, data, -, heq⟩
  · rw [heq]
    exact ⟨hsound, fun _ ha => ha⟩
  -- the flag is down, so a block pending for the next height would be an orphan
  have hchain : ∀ a, e.store.Keeps a → a.header.height ≤ e.store.height ∧ e.store.Holds a := by
    rintro a (hchain | ⟨hnext, ph, hph, hheader, -⟩)
    · exact hchain
    · exact absurd ⟨hflag, ph, hph, by rw [hheader, hnext]⟩ hnot
  rw [heq]
  exact ⟨⟨hsound.state, hsound.no_block_above, fun _ h => absurd h (by simp)⟩,
    fun a ha => .inl (hchain a ha)⟩

theorem Executor.stop_empty (hempty : e.store = empty) (headerDeleted dataDeleted : Bool) :
    (e.stop headerDeleted dataDeleted).store = empty := by
  rcases e.stop_cases headerDeleted dataDeleted with heq | ⟨-, data, hdata, heq⟩
  · rw [heq, hempty]
  rw [heq, hempty]
  rcases hdata with rfl | rfl
  · rfl
  · rw [hempty]
    rfl

theorem ProducerInv.step (hinv : ProducerInv config n history) (ev : ProducerEvent)
    (haware : ev.Aware n) : ProducerInv config (n.step ev) (history ++ n.acts ev) := by
  cases ev with
  | produce inp => exact hinv.produce inp haware
  | start inp => exact hinv.start inp
  | crash =>
    dsimp only [ProducerNode.acts]
    rw [append_nil]
    refine ⟨hinv.config_eq, ?_, fun hrun => absurd hrun Bool.false_ne_true, hinv.keeps⟩
    rcases hinv.sound_or_new with hsound | ⟨-, hempty, hnil⟩
    · exact .inl hsound
    · exact .inr ⟨rfl, hempty, hnil⟩
  | stop headerDeleted dataDeleted =>
    have hconfig : (n.executor.stop headerDeleted dataDeleted).config = config := by
      rcases n.executor.stop_cases headerDeleted dataDeleted with heq | ⟨-, data, -, heq⟩
      all_goals
        rw [heq]
        exact hinv.config_eq
    dsimp only [ProducerNode.acts]
    rw [append_nil]
    rcases hinv.sound_or_new with hsound | ⟨-, hempty, rfl⟩
    · obtain ⟨hsound', hkeeps⟩ :=
        stop_store haware hsound headerDeleted dataDeleted
      exact ⟨hconfig, .inl hsound', fun hrun => absurd hrun Bool.false_ne_true,
        fun a ha => hkeeps a (hinv.keeps a ha)⟩
    · exact ⟨hconfig, .inr ⟨rfl, stop_empty hempty _ _, rfl⟩,
        fun hrun => absurd hrun Bool.false_ne_true,
        fun a ha => absurd ha not_mem_nil⟩

theorem ProducerInv.fresh (config : ExecutorConfig) :
    ProducerInv config (ProducerNode.fresh config) [] :=
  ⟨rfl, .inr ⟨rfl, rfl, rfl⟩, fun hrun => absurd hrun Bool.false_ne_true,
    fun _ ha => absurd ha not_mem_nil⟩

theorem ProducerInv.noEquivocation (hinv : ProducerInv config n history) :
    NoEquivocation n.executor.store history where
  later_same := by
    rintro header data earlier later rfl a ha hheight
    exact (hinv.keeps a (by simp [ha])).agree
      (hinv.keeps (.saved header data) (by simp)) hheight
  signed_once := by
    intro h d h' d' hsigned hsigned' hheight
    exact ((hinv.keeps _ hsigned).agree (hinv.keeps _ hsigned') hheight).1
  txs_kept := by
    intro header data hsaved
    rcases hinv.keeps _ hsaved with ⟨-, hholds⟩ | ⟨-, hpends⟩
    · exact .inl hholds
    · exact .inr hpends

end

/-- In every run in which no block is produced and the node is not stopped while a pending
block is orphaned, there is no equivocation at any point: whichever steps of whichever calls
fail, whatever the sequencer returns, and whenever the node is stopped, killed and started. -/
theorem no_equivocation_of_aware (config : ExecutorConfig) (events : List ProducerEvent)
    (haware : ∀ p ∈ Runs.steps ProducerNode.step (ProducerNode.fresh config) events,
      p.2.Aware p.1) :
    NoEquivocation (events.foldl ProducerNode.step (ProducerNode.fresh config)).executor.store
      ((ProducerNode.fresh config).history events) := by
  have hrun := Runs.history_invariant ProducerNode.step ProducerNode.acts
    (ProducerInv config) (fun n ev => ev.Aware n)
    (fun n ev _ hinv haware => hinv.step ev haware)
    (ProducerInv.fresh config) haware
  exact hrun.noEquivocation

/-! ## A small node -/

def toyCodec : Codec where
  headerBytes := fun h => [UInt8.ofNat h.height]
  headerBytesLegacy := fun h => [UInt8.ofNat h.height]
  dataBytes := fun d => d.txs.flatten
  sha256 := id

def toyConfig : ExecutorConfig where
  genesis := ⟨"chain", 0, 1, [7], 1, 1⟩
  codec := toyCodec
  raftNode := false
  signer := true
  maxPendingHeadersAndData := 0
  basedSequencer := false

def toyStart : ProducerEvent :=
  .start ⟨.ok [0], ⟨0, []⟩, ⟨0, []⟩, ⟨0, []⟩, true, true, true,
    ⟨none, none, fun _ => .ok [], fun _ => true⟩, true⟩

/-- A call in which nothing fails. -/
def ProduceInput.smooth (response : GetNextBatchResponse) (key : PubKey) (root : Hash)
    (daHeight : ℕ) (signature : Signature) : ProduceInput where
  cancelled := false
  quorumBefore := true
  numPendingHeaders := 0
  numPendingData := 0
  getNextBatch := .ok (some response)
  getPublic := .ok key
  validatorHash := fun _ => .ok []
  pendingSaved := true
  quorumAfter := true
  executeTxs := fun _ => .ok root
  cancelledDuringRetry := fun _ => false
  daHeight := daHeight
  sign := .ok signature
  batchFilled := true
  broadcast := true
  committed := true
  finalSet := true

def toyProduce (tx : UInt8) (committed : Bool) : ProducerEvent :=
  .produce { ProduceInput.smooth ⟨⟨[[tx]]⟩, 5, []⟩ ⟨1, [9]⟩ [1] 1 [8] with committed := committed }

def signsTwice (history : List BlockAct) : Bool :=
  history.any fun a => history.any fun b =>
    match a, b with
    | .signed h _, .signed h' _ => decide (h.height = h'.height ∧ h ≠ h')
    | _, _ => false

theorem signsTwice_spec {s : Store} {history : List BlockAct}
    (h : signsTwice history = true) : ¬ NoEquivocation s history := by
  intro hno
  unfold signsTwice at h
  simp only [List.any_eq_true] at h
  obtain ⟨a, ha, b, hb, hab⟩ := h
  split at hab
  · obtain ⟨hheight, hne⟩ := of_decide_eq_true hab
    exact hne (hno.signed_once _ _ _ _ ha hb hheight)
  · exact absurd hab Bool.false_ne_true

/-- The commit of a signed block fails; the next call, in the same process, is given other
transactions and signs another header for the same height. -/
theorem equivocation_after_failed_commit :
    ¬ NoEquivocation
      ([toyStart, toyProduce 1 false, toyProduce 2 true].foldl ProducerNode.step
        (ProducerNode.fresh toyConfig)).executor.store
      ((ProducerNode.fresh toyConfig).history
        [toyStart, toyProduce 1 false, toyProduce 2 true]) :=
  signsTwice_spec (by decide +kernel)

/-- The same failure followed by a crash: after the restart the flag is up, the pending
block is taken up again, and what the sequencer offers is not asked for. -/
theorem no_equivocation_across_crash :
    NoEquivocation
      ([toyStart, toyProduce 1 false, .crash, toyStart, toyProduce 2 true].foldl
        ProducerNode.step (ProducerNode.fresh toyConfig)).executor.store
      ((ProducerNode.fresh toyConfig).history
        [toyStart, toyProduce 1 false, .crash, toyStart, toyProduce 2 true]) :=
  no_equivocation_of_aware toyConfig
    [toyStart, toyProduce 1 false, .crash, toyStart, toyProduce 2 true] (by decide +kernel)

end ChainSdk

/-
`DefaultStore.Rollback` as the inverse of committing blocks.

`Rollback` reads the datastore while it fills a batch, and every read and write may fail.
-/
import ChainSdk.HashLookup

namespace ChainSdk

open DefaultStore Except List Option

/-! ## Programs over a batch -/

inductive BatchError
  | datastore
  | store (err : StoreError)
  deriving DecidableEq

/-- Which calls to the datastore fail. Writes to a batch are counted from the first. -/
structure Faults where
  newBatch : Bool
  get : Key → Bool
  write : ℕ → Bool
  commit : Bool

def Faults.none : Faults := ⟨false, fun _ => false, fun _ => false, false⟩

/-- The datastore, and the writes of the batch that is being filled. -/
structure BatchState where
  db : Db
  batch : List Write

/-- Programs that read the datastore and fill a batch; an error keeps what was done so far. -/
abbrev BatchM := ExceptT BatchError (StateM BatchState)

namespace BatchM

variable {α β : Type}

/-- The result of a program, and what it leaves behind. -/
def exec (m : BatchM α) (s : BatchState) : Except BatchError α × BatchState :=
  (ExceptT.run m).run s

variable (f : Faults)

/-- `db.Batch`. The batch it makes is the empty one programs start with. -/
def newBatch : BatchM Unit := if f.newBatch then throw .datastore else pure ()

def get (key : Key) : BatchM (Option Bytes) :=
  if f.get key then throw .datastore else return (← MonadState.get).db key

def write (w : Write) : BatchM Unit :=
  ExceptT.mk fun s =>
    if f.write s.batch.length then (.error .datastore, s)
    else (.ok (), { s with batch := s.batch ++ [w] })

def writes : List Write → BatchM Unit
  | [] => pure ()
  | w :: ws => do
      write f w
      writes ws

def commit : BatchM Unit :=
  if f.commit then throw (.store .commit) else modify (fun s => ⟨s.db.commit s.batch, []⟩)

/-! ### What a program adds to the batch -/

/-- The program leaves the datastore as it is, and if it returns a value it has added writes to the
batch, of which `Q` holds. -/
def Adds (db : Db) (m : BatchM α) (Q : α → List Write → Prop) : Prop :=
  ∀ batch, (m.exec ⟨db, batch⟩).2.db = db ∧
    ∀ a, (m.exec ⟨db, batch⟩).1 = .ok a →
      ∃ ws, (m.exec ⟨db, batch⟩).2.batch = batch ++ ws ∧ Q a ws

theorem exec_bind_ok {m : BatchM α} {k : α → BatchM β} {s s' : BatchState} {a : α}
    (hm : m.exec s = (.ok a, s')) : (m >>= k).exec s = (k a).exec s' := by
  have hrun : (ExceptT.run m).run s = (.ok a, s') := hm
  simp only [exec, ExceptT.run_bind, StateT.run_bind, hrun]
  rfl

theorem exec_bind_error {m : BatchM α} {k : α → BatchM β} {s s' : BatchState} {err : BatchError}
    (hm : m.exec s = (.error err, s')) : (m >>= k).exec s = (.error err, s') := by
  have hrun : (ExceptT.run m).run s = (.error err, s') := hm
  simp only [exec, ExceptT.run_bind, StateT.run_bind, hrun]
  rfl

variable {db : Db} {f : Faults}

section

variable {Q : α → List Write → Prop} {m : BatchM α}

theorem Adds.pure {a : α} (hQ : Q a []) :
    Adds db (pure a : BatchM α) Q := by
  intro batch
  refine ⟨rfl, fun b hb => ⟨[], (append_nil batch).symm, ?_⟩⟩
  rw [← ok.inj hb]
  exact hQ

theorem Adds.throw {err : BatchError} :
    Adds db (throw err : BatchM α) Q := by
  intro batch
  have hexec : (MonadExcept.throw err : BatchM α).exec ⟨db, batch⟩ = (.error err, ⟨db, batch⟩) :=
    rfl
  rw [hexec]
  exact ⟨rfl, fun a ha => absurd ha (by simp)⟩

theorem Adds.bind {k : α → BatchM β} {R : β → List Write → Prop} (hm : Adds db m Q)
    (hk : ∀ a ws, Q a ws → Adds db (k a) (fun b ws' => R b (ws ++ ws'))) :
    Adds db (m >>= k) R := by
  intro batch
  obtain ⟨hdb, hok⟩ := hm batch
  rcases hrun : m.exec ⟨db, batch⟩ with ⟨err | a, s⟩
  · rw [hrun] at hdb
    rw [exec_bind_error hrun]
    exact ⟨hdb, fun b hb => absurd hb (by simp)⟩
  rw [hrun] at hdb hok
  obtain ⟨ws, hbatch, hQ⟩ := hok a rfl
  obtain rfl : s = ⟨db, batch ++ ws⟩ := by
    cases s
    simp_all
  rw [exec_bind_ok hrun]
  obtain ⟨hdb', hok'⟩ := hk a ws hQ (batch ++ ws)
  refine ⟨hdb', fun b hb => ?_⟩
  obtain ⟨ws', hbatch', hR⟩ := hok' b hb
  exact ⟨ws ++ ws', by rw [hbatch', append_assoc], hR⟩

theorem Adds.get (key : Key) :
    Adds db (get f key) (fun value ws => ws = [] ∧ value = db key) := by
  unfold BatchM.get
  split_ifs
  · exact Adds.throw
  · intro batch
    refine ⟨rfl, fun value hvalue => ⟨[], (append_nil batch).symm, rfl, ?_⟩⟩
    exact (ok.inj hvalue).symm

theorem Adds.write (w : Write) : Adds db (write f w) (fun _ ws => ws = [w]) := by
  intro batch
  have hexec : (BatchM.write f w).exec ⟨db, batch⟩ =
      if f.write batch.length then (.error .datastore, ⟨db, batch⟩)
      else (.ok (), ⟨db, batch ++ [w]⟩) := rfl
  rw [hexec]
  split_ifs
  · exact ⟨rfl, fun a ha => absurd ha (by simp)⟩
  · exact ⟨rfl, fun a _ => ⟨[w], rfl, rfl⟩⟩

theorem Adds.mono {R : α → List Write → Prop} (hm : Adds db m Q)
    (hQR : ∀ a ws, Q a ws → R a ws) : Adds db m R := by
  intro batch
  obtain ⟨hdb, hok⟩ := hm batch
  refine ⟨hdb, fun a ha => ?_⟩
  obtain ⟨ws, hbatch, hQ⟩ := hok a ha
  exact ⟨ws, hbatch, hQR a ws hQ⟩

end

theorem Adds.writes (ws : List Write) : Adds db (writes f ws) (fun _ ws' => ws' = ws) := by
  induction ws with
  | nil => exact Adds.pure rfl
  | cons w ws ih =>
    refine Adds.bind (Adds.write w) (fun _ ws₁ hws₁ => ih.mono (fun _ ws₂ hws₂ => ?_))
    rw [hws₁, hws₂]
    rfl

/-! ### Programs that succeed -/

def Returns (db : Db) (m : BatchM α) (a : α) (ws : List Write) : Prop :=
  ∀ batch, m.exec ⟨db, batch⟩ = (.ok a, ⟨db, batch ++ ws⟩)

theorem Returns.pure (a : α) : Returns db (pure a : BatchM α) a [] := by
  intro batch
  rw [append_nil]
  rfl

theorem Returns.bind {m : BatchM α} {k : α → BatchM β} {a : α} {b : β} {ws ws' : List Write}
    (hm : Returns db m a ws) (hk : Returns db (k a) b ws') :
    Returns db (m >>= k) b (ws ++ ws') := by
  intro batch
  rw [exec_bind_ok (hm batch), hk, append_assoc]

theorem Returns.get (key : Key) : Returns db (get .none key) (db key) [] := by
  intro batch
  rw [append_nil]
  rfl

theorem Returns.write (w : Write) : Returns db (write .none w) () [w] := fun _ => rfl

theorem Returns.writes (ws : List Write) : Returns db (writes .none ws) () ws := by
  induction ws with
  | nil => exact Returns.pure ()
  | cons w ws ih => exact Returns.bind (Returns.write w) ih

end BatchM

/-! ## Rollback -/

namespace DefaultStore

section

variable (f : Faults) (c : BlockCodec)

def heightM : BatchM ℕ := do
  match ← BatchM.get f .height with
  | none => pure 0
  | some bz =>
    match decodeHeight bz with
    | none => throw (.store (.invalidHeightLength bz.length))
    | some height => pure height

def rollbackDAIncludedM (height : ℕ) (aggregator : Bool) : BatchM Unit := do
  let daIncludedHeightBz ← BatchM.get f (.metadata .daIncludedHeight)
  match daIncludedHeightBz.bind decodeHeight with
  | none => pure ()
  | some daIncludedHeight =>
    if height < daIncludedHeight then
      if aggregator then throw (.store .rollbackFinalized)
      else BatchM.write f (.metadata .daIncludedHeight, some (encodeHeight height))
    else pure ()

def rollbackLoopM (height : ℕ) : ℕ → BatchM Unit
  | 0 => pure ()
  | count + 1 => do
      match ← BatchM.get f (.header (height + (count + 1))) with
      | none => throw (.store (.notFound (.header (height + (count + 1)))))
      | some headerBlob => do
          BatchM.writes f (blockDeletes c (height + (count + 1)) headerBlob ++
            [(.stateAt (height + (count + 1)), none)])
          rollbackLoopM height count

def fillRollback (height : ℕ) (aggregator : Bool) : BatchM Unit := do
  BatchM.newBatch f
  let currentHeight ← heightM f
  if currentHeight ≤ height then throw (.store (.rollbackAbove currentHeight height))
  else do
    rollbackDAIncludedM f height aggregator
    rollbackLoopM f c height (currentHeight - height)
    BatchM.write f (.height, some (encodeHeight height))

def rollbackM (height : ℕ) (aggregator : Bool) : BatchM Unit := do
  fillRollback f c height aggregator
  BatchM.commit f

end

variable {f : Faults} {c : BlockCodec} {db : Db}

section

variable {height : ℕ} {aggregator : Bool} {writes : List Write} {count : ℕ}

theorem heightM_adds :
    BatchM.Adds db (heightM f)
      (fun height ws => ws = [] ∧ DefaultStore.height db = .ok height) := by
  refine BatchM.Adds.bind (BatchM.Adds.get .height) ?_
  rintro value ws ⟨rfl, rfl⟩
  unfold DefaultStore.height
  rcases hvalue : db .height with _ | bz
  · exact BatchM.Adds.pure ⟨rfl, rfl⟩
  · dsimp only
    rcases decodeHeight bz with _ | height
    · exact BatchM.Adds.throw
    · exact BatchM.Adds.pure ⟨rfl, rfl⟩

theorem rollbackDAIncludedM_adds (height : ℕ) (aggregator : Bool) :
    BatchM.Adds db (rollbackDAIncludedM f height aggregator)
      (fun _ ws => rollbackDAIncluded db height aggregator = .ok ws) := by
  refine BatchM.Adds.bind (BatchM.Adds.get _) ?_
  rintro value ws ⟨rfl, rfl⟩
  unfold rollbackDAIncluded
  rcases (db (.metadata .daIncludedHeight)).bind decodeHeight with _ | daIncludedHeight
  · exact BatchM.Adds.pure rfl
  dsimp only
  split_ifs
  · exact BatchM.Adds.throw
  · refine (BatchM.Adds.write _).mono (fun _ ws hws => ?_)
    rw [hws]
    rfl
  · exact BatchM.Adds.pure rfl

theorem rollbackLoopM_adds (height count : ℕ) :
    BatchM.Adds db (rollbackLoopM f c height count)
      (fun _ ws => rollbackLoop c db height count = .ok ws) := by
  induction count with
  | zero => exact BatchM.Adds.pure rfl
  | succ count ih =>
    refine BatchM.Adds.bind (BatchM.Adds.get _) ?_
    rintro value ws ⟨rfl, rfl⟩
    rw [rollbackLoop]
    rcases db (.header (height + (count + 1))) with _ | headerBlob
    · exact BatchM.Adds.throw
    refine BatchM.Adds.bind (BatchM.Adds.writes _) ?_
    rintro - ws rfl
    refine ih.mono (fun _ ws' hws' => ?_)
    rw [hws']
    rfl

theorem fillRollback_adds (height : ℕ) (aggregator : Bool) :
    BatchM.Adds db (fillRollback f c height aggregator)
      (fun _ ws => rollback c db true height aggregator = .ok (db.commit ws)) := by
  have hnew : BatchM.Adds db (BatchM.newBatch f) (fun _ ws => ws = []) := by
    unfold BatchM.newBatch
    split_ifs
    · exact BatchM.Adds.throw
    · exact BatchM.Adds.pure rfl
  refine BatchM.Adds.bind hnew ?_
  rintro - ws rfl
  refine BatchM.Adds.bind heightM_adds ?_
  rintro currentHeight ws ⟨rfl, hcurrent⟩
  unfold rollback
  rw [hcurrent]
  dsimp only
  by_cases habove : currentHeight ≤ height
  · rw [if_pos habove]
    exact BatchM.Adds.throw
  rw [if_neg habove, if_neg habove]
  refine BatchM.Adds.bind (rollbackDAIncludedM_adds height aggregator)
    (fun _ included hincluded => ?_)
  refine BatchM.Adds.bind (rollbackLoopM_adds height _) (fun _ writes hwrites => ?_)
  refine (BatchM.Adds.write _).mono (fun _ ws hws => ?_)
  rw [hincluded, hwrites, hws]
  simp

/-- A `Rollback` that returns an error leaves the datastore alone, and one that does not has
committed the batch of `rollback`. -/
theorem rollbackM_exec (f : Faults) (c : BlockCodec) (db : Db) (height : ℕ) (aggregator : Bool) :
    (∀ err, ((rollbackM f c height aggregator).exec ⟨db, []⟩).1 = .error err →
      ((rollbackM f c height aggregator).exec ⟨db, []⟩).2.db = db) ∧
    (((rollbackM f c height aggregator).exec ⟨db, []⟩).1 = .ok () →
      rollback c db true height aggregator =
        .ok ((rollbackM f c height aggregator).exec ⟨db, []⟩).2.db) := by
  have hadds : BatchM.Adds db (fillRollback f c height aggregator) _ :=
    fillRollback_adds height aggregator
  obtain ⟨hdb, hok⟩ := hadds []
  rcases hfill : (fillRollback f c height aggregator).exec ⟨db, []⟩ with ⟨err | _, s⟩
  · rw [hfill] at hdb
    have hexec : (rollbackM f c height aggregator).exec ⟨db, []⟩ = (.error err, s) :=
      BatchM.exec_bind_error hfill
    rw [hexec]
    exact ⟨fun _ _ => hdb, fun hcontra => absurd hcontra (by simp)⟩
  · rw [hfill] at hdb hok
    obtain ⟨ws, hbatch, hrollback⟩ := hok () rfl
    have hexec : (rollbackM f c height aggregator).exec ⟨db, []⟩ = (BatchM.commit f).exec s :=
      BatchM.exec_bind_ok hfill
    have hcommit : (BatchM.commit f).exec s =
        if f.commit then (.error (.store .commit), s) else (.ok (), ⟨s.db.commit s.batch, []⟩) := by
      unfold BatchM.commit
      split_ifs
      · rfl
      · rfl
    rw [hexec, hcommit]
    split_ifs
    · exact ⟨fun _ _ => hdb, fun hcontra => absurd hcontra (by simp)⟩
    · refine ⟨fun err hcontra => absurd hcontra (by simp), fun _ => ?_⟩
      rw [hrollback, hdb, hbatch, nil_append]

theorem heightM_returns (hheight : DefaultStore.height db = .ok height) :
    BatchM.Returns db (heightM .none) height [] := by
  refine BatchM.Returns.bind (BatchM.Returns.get .height) ?_
  unfold DefaultStore.height at hheight
  rcases hvalue : db .height with _ | bz
  · rw [hvalue] at hheight
    obtain rfl := ok.inj hheight
    exact BatchM.Returns.pure 0
  rw [hvalue] at hheight
  dsimp only at hheight ⊢
  rcases hdecode : decodeHeight bz with _ | height'
  · simp [hdecode] at hheight
  · rw [hdecode] at hheight
    obtain rfl := ok.inj hheight
    exact BatchM.Returns.pure _

theorem rollbackDAIncludedM_returns
    (hincluded : rollbackDAIncluded db height aggregator = .ok writes) :
    BatchM.Returns db (rollbackDAIncludedM .none height aggregator) () writes := by
  refine BatchM.Returns.bind (BatchM.Returns.get _) ?_
  unfold rollbackDAIncluded at hincluded
  rcases hrecorded : (db (.metadata .daIncludedHeight)).bind decodeHeight with _ | d
  · rw [hrecorded] at hincluded
    obtain rfl := ok.inj hincluded
    exact BatchM.Returns.pure ()
  rw [hrecorded] at hincluded
  dsimp only at hincluded ⊢
  split_ifs at hincluded ⊢
  · obtain rfl := ok.inj hincluded
    exact BatchM.Returns.write _
  · obtain rfl := ok.inj hincluded
    exact BatchM.Returns.pure ()

theorem rollbackLoopM_returns (hloop : rollbackLoop c db height count = .ok writes) :
    BatchM.Returns db (rollbackLoopM .none c height count) () writes := by
  induction count generalizing writes with
  | zero =>
    obtain rfl := ok.inj hloop
    exact BatchM.Returns.pure ()
  | succ count ih =>
    refine BatchM.Returns.bind (BatchM.Returns.get _) ?_
    obtain ⟨headerBlob, rest, htop, hrest, rfl⟩ := rollbackLoop_succ_ok hloop
    rw [htop]
    exact BatchM.Returns.bind (BatchM.Returns.writes _) (ih hrest)

theorem rollbackM_returns {db' : Db} (hrollback : rollback c db true height aggregator = .ok db') :
    (rollbackM .none c height aggregator).exec ⟨db, []⟩ = (.ok (), ⟨db', []⟩) := by
  obtain ⟨currentHeight, included, writes, hcurrent, habove, hincluded, hloop, rfl⟩ :=
    rollback_eq_ok hrollback
  have hfill : BatchM.Returns db (fillRollback .none c height aggregator) ()
      (included ++ (writes ++ [(.height, some (encodeHeight height))])) := by
    have hnew : BatchM.Returns db (BatchM.newBatch .none) () [] := BatchM.Returns.pure ()
    refine hnew.bind ((heightM_returns hcurrent).bind ?_)
    rw [if_neg (by omega)]
    exact (rollbackDAIncludedM_returns hincluded).bind
      ((rollbackLoopM_returns hloop).bind (BatchM.Returns.write _))
  have hexec : (rollbackM .none c height aggregator).exec ⟨db, []⟩ = _ :=
    BatchM.exec_bind_ok (hfill [])
  rw [hexec, nil_append, ← append_assoc]
  rfl

end

/-! ### The entries a rollback writes besides those of the blocks -/

section

variable {aggregator : Bool} {height : ℕ} {db' : Db}

theorem rollback_stateAt (hrollback : rollback c db true height aggregator = .ok db') :
    ∃ currentHeight, DefaultStore.height db = .ok currentHeight ∧
      ∀ h, db' (.stateAt h) =
        if height < h ∧ h ≤ currentHeight then none else db (.stateAt h) := by
  obtain ⟨currentHeight, included, writes, hcurrent, habove, hincluded, hloop, rfl⟩ :=
    rollback_eq_ok hrollback
  obtain ⟨-, hstates, hstatesOnly⟩ := rollbackLoop_ok hloop
  rw [Nat.add_sub_of_le habove.le] at hstates hstatesOnly
  refine ⟨currentHeight, hcurrent, fun h => ?_⟩
  -- only the loop writes states
  have honly : ∀ w ∈ included ++ writes ++ [((.height, some (encodeHeight height)) : Write)],
      w.1 = .stateAt h → w.2 = none ∧ height < h ∧ h ≤ currentHeight := by
    intro w hw hkey
    rcases mem_append.mp hw with hw | hw
    · rcases mem_append.mp hw with hw | hw
      · obtain ⟨k, hk⟩ := rollbackDAIncluded_ok hincluded w hw
        exact absurd (hkey.symm.trans hk) (by simp)
      obtain ⟨h', hrange, ⟨blob, -, hw⟩ | rfl⟩ := hstatesOnly w hw
      · simp only [blockDeletes, mem_cons, not_mem_nil, or_false] at hw
        rcases hw with rfl | rfl | rfl | rfl <;> exact absurd hkey (by simp)
      · obtain rfl := Key.stateAt.inj hkey
        exact ⟨rfl, hrange⟩
    · simp [mem_singleton.mp hw] at hkey
  split_ifs with hin
  · refine Db.commit_written ?_ (fun w hw hkey => (honly w hw hkey).1)
    exact mem_append_left _ (mem_append_right _ (hstates h hin.1 hin.2))
  · exact Db.commit_other (fun w hw hkey => hin (honly w hw hkey).2)

theorem rollback_height (hlt : height < 2 ^ 64)
    (hrollback : rollback c db true height aggregator = .ok db') :
    DefaultStore.height db' = .ok height := by
  obtain ⟨currentHeight, included, writes, -, -, -, -, rfl⟩ := rollback_eq_ok hrollback
  unfold DefaultStore.height
  rw [Db.commit_concat]
  dsimp only
  rw [decodeHeight_encodeHeight hlt]

def recordedDAIncluded (db : Db) : Option ℕ :=
  (db (.metadata .daIncludedHeight)).bind decodeHeight

theorem rollback_daIncluded (hlt : height < 2 ^ 64)
    (hrollback : rollback c db true height aggregator = .ok db') :
    (∀ d, recordedDAIncluded db' = some d → d ≤ height) ∧
      (aggregator = true → ∀ d, recordedDAIncluded db = some d → d ≤ height) := by
  obtain ⟨currentHeight, included, writes, -, -, hincluded, hloop, rfl⟩ :=
    rollback_eq_ok hrollback
  -- neither the loop nor the height is about metadata
  have hkept : db.commit (included ++ writes ++ [(.height, some (encodeHeight height))])
      (.metadata .daIncludedHeight) = db.commit included (.metadata .daIncludedHeight) := by
    rw [append_assoc, Db.commit_append]
    refine Db.commit_other (fun w hw hkey => ?_)
    rcases mem_append.mp hw with hw | hw
    · obtain ⟨h, -, ⟨blob, -, hw⟩ | rfl⟩ := (rollbackLoop_ok hloop).2.2 w hw
      · simp only [blockDeletes, mem_cons, not_mem_nil, or_false] at hw
        rcases hw with rfl | rfl | rfl | rfl <;> exact absurd hkey (by simp)
      · exact absurd hkey (by simp)
    · simp [mem_singleton.mp hw] at hkey
  unfold recordedDAIncluded
  rw [hkept]
  unfold rollbackDAIncluded at hincluded
  rcases hrecorded : (db (.metadata .daIncludedHeight)).bind decodeHeight with _ | d
  · rw [hrecorded] at hincluded
    obtain rfl := ok.inj hincluded
    exact ⟨fun d hd => absurd (hrecorded.symm.trans hd) (by simp), fun _ d hd => by simp at hd⟩
  rw [hrecorded] at hincluded
  dsimp only at hincluded
  split_ifs at hincluded with habove haggregator
  · -- lowered to the height
    obtain rfl := ok.inj hincluded
    have hwritten : db.commit [(.metadata .daIncludedHeight, some (encodeHeight height))]
        (.metadata .daIncludedHeight) = some (encodeHeight height) := Db.commit_concat [] _
    rw [hwritten, bind_some, decodeHeight_encodeHeight hlt]
    refine ⟨fun d hd => (some.inj hd).ge, fun h => absurd h haggregator⟩
  · obtain rfl := ok.inj hincluded
    have hle : ∀ d', some d = some d' → d' ≤ height := by
      rintro d' ⟨rfl⟩
      omega
    refine ⟨fun d' hd' => hle d' (hrecorded.symm.trans hd'), fun _ => hle⟩

end

/-! ## Committing blocks -/

def commitBlock (c : BlockCodec) (db : Db) (b : StoredBlock × State) : Except StoreError Db :=
  (blockBatch c db b.1.header b.1.data b.1.signature b.2).map db.commit

def commitBlocks (c : BlockCodec) (db : Db) (blocks : List (StoredBlock × State)) :
    Except StoreError Db :=
  blocks.foldlM (commitBlock c) db

theorem blockBatch_above {block : StoredBlock} {state : State} {writes : List Write} {n : ℕ}
    (hheight : height db = .ok n) (habove : n < block.header.header.height)
    (hbatch : blockBatch c db block.header block.data block.signature state = .ok writes) :
    ∃ blob bz, c.signedHeaderBytes block.header = some blob ∧
      writes = saveBlockDataFromBytes c block.header blob (c.dataBytes block.data)
          block.signature ++
        [(.height, some (encodeHeight block.header.header.height)),
          (.stateAt state.lastBlockHeight, some bz)] := by
  unfold blockBatch saveBlockData setHeight updateState at hbatch
  rw [hheight] at hbatch
  rcases hblob : c.signedHeaderBytes block.header with _ | blob
  · rw [hblob] at hbatch
    exact absurd hbatch (by simp [bind, Except.bind])
  rcases hstate : c.stateBytes state with _ | bz
  · rw [hblob, hstate] at hbatch
    dsimp only at hbatch
    rw [if_neg (by omega)] at hbatch
    exact absurd hbatch (by simp [bind, Except.bind])
  rw [hblob, hstate] at hbatch
  dsimp only at hbatch
  rw [if_neg (by omega)] at hbatch
  obtain rfl := ok.inj hbatch
  exact ⟨blob, bz, rfl, append_assoc _ _ _⟩

structure Extends (c : BlockCodec) (S : Db) (h n : ℕ) (db : Db) : Prop where
  height : height db = .ok n
  le : h ≤ n
  header : ∀ k, ¬ (h < k ∧ k ≤ n) → db (.header k) = S (.header k)
  data : ∀ k, ¬ (h < k ∧ k ≤ n) → db (.data k) = S (.data k)
  signature : ∀ k, ¬ (h < k ∧ k ≤ n) → db (.signature k) = S (.signature k)
  stateAt : ∀ k, ¬ (h < k ∧ k ≤ n) → db (.stateAt k) = S (.stateAt k)
  fresh : ∀ k, h < k → k ≤ n →
    ∃ blob, db (.header k) = some blob ∧ S (.index (c.sha256 blob)) = none
  index : ∀ hash, (∀ k blob, h < k → k ≤ n → db (.header k) = some blob → c.sha256 blob ≠ hash) →
    db (.index hash) = S (.index hash)

variable {S : Db} {h n : ℕ}

theorem Extends.refl (hheight : DefaultStore.height S = .ok h) : Extends c S h h S where
  height := hheight
  le := le_rfl
  header := fun _ _ => rfl
  data := fun _ _ => rfl
  signature := fun _ _ => rfl
  stateAt := fun _ _ => rfl
  fresh := fun k hlt hle => by omega
  index := fun _ _ => rfl

theorem Extends.congr (hdb : Extends c S h n db) {db' : Db}
    (hsame : ∀ key, (∀ k, key ≠ .metadata k) → db' key = db key) : Extends c S h n db' where
  height := by
    unfold DefaultStore.height
    rw [hsame .height (by simp)]
    exact hdb.height
  le := hdb.le
  header := fun k hk => (hsame _ (by simp)).trans (hdb.header k hk)
  data := fun k hk => (hsame _ (by simp)).trans (hdb.data k hk)
  signature := fun k hk => (hsame _ (by simp)).trans (hdb.signature k hk)
  stateAt := fun k hk => (hsame _ (by simp)).trans (hdb.stateAt k hk)
  fresh := fun k hlt hle => by
    obtain ⟨blob, hblob, hnone⟩ := hdb.fresh k hlt hle
    exact ⟨blob, (hsame _ (by simp)).trans hblob, hnone⟩
  index := fun hash hne => by
    rw [hsame _ (by simp)]
    refine hdb.index hash (fun k blob hlt hle hblob => hne k blob hlt hle ?_)
    rw [hsame _ (by simp)]
    exact hblob

theorem Extends.commitBlock (hdb : Extends c S h n db) {b : StoredBlock × State} {db' : Db}
    (hheight : b.1.header.header.height = n + 1) (hstate : b.2.lastBlockHeight = n + 1)
    (hlt : n + 1 < 2 ^ 64) (hfresh : ∀ blob, c.signedHeaderBytes b.1.header = some blob →
      S (.index (c.sha256 blob)) = none)
    (hcommit : commitBlock c db b = .ok db') : Extends c S h (n + 1) db' := by
  unfold DefaultStore.commitBlock at hcommit
  rcases hbatch : blockBatch c db b.1.header b.1.data b.1.signature b.2 with err | writes
  · rw [hbatch] at hcommit
    exact absurd hcommit (by simp [Except.map])
  rw [hbatch] at hcommit
  obtain rfl := ok.inj hcommit
  obtain ⟨blob, bz, hblob, rfl⟩ := blockBatch_above hdb.height (by omega) hbatch
  rw [saveBlockDataFromBytes, hheight, hstate]
  -- the keys of the new height and of the new header are written, no others
  have hle := hdb.le
  have hnew : ∀ k, ¬ (h < k ∧ k ≤ n + 1) → k ≠ n + 1 ∧ ¬ (h < k ∧ k ≤ n) := fun k hk => by omega
  refine ⟨?_, by omega, fun k hk => ?_, fun k hk => ?_, fun k hk => ?_, fun k hk => ?_,
    fun k hk hkn => ?_, fun hash hne => ?_⟩
  · unfold DefaultStore.height
    simp [Db.commit, decodeHeight_encodeHeight hlt]
  · rw [← hdb.header k (hnew k hk).2]
    simp [Db.commit, (hnew k hk).1]
  · rw [← hdb.data k (hnew k hk).2]
    simp [Db.commit, (hnew k hk).1]
  · rw [← hdb.signature k (hnew k hk).2]
    simp [Db.commit, (hnew k hk).1]
  · rw [← hdb.stateAt k (hnew k hk).2]
    simp [Db.commit, (hnew k hk).1]
  · by_cases htop : k = n + 1
    · refine ⟨blob, ?_, hfresh blob hblob⟩
      simp [Db.commit, htop]
    · obtain ⟨old, hold, hnone⟩ := hdb.fresh k hk (by omega)
      refine ⟨old, ?_, hnone⟩
      simp [Db.commit, htop, hold]
  · have hhash : hash ≠ c.sha256 blob := by
      rintro rfl
      refine hne (n + 1) blob (by omega) le_rfl ?_ rfl
      simp [Db.commit]
    rw [← hdb.index hash (fun k old hk hkn hold => hne k old hk (by omega) ?_)]
    · simp [Db.commit, hhash]
    · have htop : k ≠ n + 1 := by omega
      simp [Db.commit, htop, hold]

theorem Extends.commitBlocks {blocks : List (StoredBlock × State)} :
    ∀ {n : ℕ} {db db' : Db}, Extends c S h n db →
      (∀ i b, blocks[i]? = some b → b.1.header.header.height = n + 1 + i ∧
        b.2.lastBlockHeight = n + 1 + i) →
      (∀ b ∈ blocks, b.1.header.header.height < 2 ^ 64) →
      (∀ b ∈ blocks, ∀ blob, c.signedHeaderBytes b.1.header = some blob →
        S (.index (c.sha256 blob)) = none) →
      commitBlocks c db blocks = .ok db' → Extends c S h (n + blocks.length) db' := by
  induction blocks with
  | nil =>
    intro n db db' hdb _ _ _ hcommit
    obtain rfl := ok.inj hcommit
    exact hdb
  | cons b blocks ih =>
    intro n db db' hdb hheights hlt hfresh hcommit
    unfold DefaultStore.commitBlocks at hcommit
    rw [foldlM_cons] at hcommit
    rcases hfirst : DefaultStore.commitBlock c db b with err | db₁
    · rw [hfirst] at hcommit
      exact absurd hcommit (by simp [bind, Except.bind])
    rw [hfirst] at hcommit
    obtain ⟨hheight, hstate⟩ := hheights 0 b rfl
    have hn := hlt b mem_cons_self
    have hdb₁ := hdb.commitBlock hheight hstate (by omega) (hfresh b mem_cons_self) hfirst
    have hdb' := ih hdb₁
      (fun i b' hb' => by
        obtain ⟨hh, hs⟩ := hheights (i + 1) b' hb'
        exact ⟨by omega, by omega⟩)
      (fun b' hb' => hlt b' (mem_cons_of_mem _ hb'))
      (fun b' hb' => hfresh b' (mem_cons_of_mem _ hb')) hcommit
    rw [length_cons, ← Nat.add_assoc, Nat.add_right_comm]
    exact hdb'

theorem Extends.removes (hdb : Extends c S h n db)
    (habove : ∀ k, h < k → S (.header k) = none ∧ S (.data k) = none ∧ S (.signature k) = none)
    {db' : Db} (hremoves : Removes c db (fun k => h < k ∧ k ≤ n) db') :
    (∀ k, db' (.header k) = S (.header k)) ∧ (∀ k, db' (.data k) = S (.data k)) ∧
      (∀ k, db' (.signature k) = S (.signature k)) ∧
      ∀ hash, db' (.index hash) = S (.index hash) := by
  -- at the new heights nothing is left, and nothing was there
  have hgone : ∀ k, h < k ∧ k ≤ n →
      db' (.header k) = none ∧ db' (.data k) = none ∧ db' (.signature k) = none := by
    intro k hk
    obtain ⟨blob, hblob, -⟩ := hdb.fresh k hk.1 hk.2
    obtain ⟨hheader, hrest⟩ := hremoves.removed k hk
    exact ⟨hheader, hrest (by rw [hblob]; rfl)⟩
  refine ⟨fun k => ?_, fun k => ?_, fun k => ?_, fun hash => ?_⟩
  · by_cases hk : h < k ∧ k ≤ n
    · rw [(hgone k hk).1, (habove k hk.1).1]
    · rw [(hremoves.kept k hk).1, hdb.header k hk]
  · by_cases hk : h < k ∧ k ≤ n
    · rw [(hgone k hk).2.1, (habove k hk.1).2.1]
    · rw [(hremoves.kept k hk).2.1, hdb.data k hk]
  · by_cases hk : h < k ∧ k ≤ n
    · rw [(hgone k hk).2.2, (habove k hk.1).2.2]
    · rw [(hremoves.kept k hk).2.2, hdb.signature k hk]
  · by_cases hnew : ∃ k blob, (h < k ∧ k ≤ n) ∧ db (.header k) = some blob ∧ c.sha256 blob = hash
    · obtain ⟨k, blob, hk, hblob, rfl⟩ := hnew
      obtain ⟨blob', hblob', hnone⟩ := hdb.fresh k hk.1 hk.2
      obtain rfl := some.inj (hblob.symm.trans hblob')
      rw [hremoves.index_removed k blob hk hblob, hnone]
    · have hother : ∀ k blob, h < k ∧ k ≤ n → db (.header k) = some blob →
          c.sha256 blob ≠ hash := fun k blob hk hblob heq => hnew ⟨k, blob, hk, hblob, heq⟩
      rw [hremoves.index_kept hash hother]
      exact hdb.index hash (fun k blob hlt hle => hother k blob ⟨hlt, hle⟩)

theorem Extends.rollback_ok (hdb : Extends c S h n db) (hlt : h < n) {aggregator : Bool}
    (hincluded : aggregator = true → ∀ d, recordedDAIncluded db = some d → d ≤ h) :
    ∃ db', rollback c db true h aggregator = .ok db' := by
  have hloop : ∀ count, h + count ≤ n → ∃ writes, rollbackLoop c db h count = .ok writes := by
    intro count hcount
    induction count with
    | zero => exact ⟨[], rfl⟩
    | succ count ih =>
      obtain ⟨writes, hwrites⟩ := ih (by omega)
      obtain ⟨blob, hblob, -⟩ := hdb.fresh (h + (count + 1)) (by omega) hcount
      rw [rollbackLoop, hblob, hwrites]
      exact ⟨_, rfl⟩
  have hmeta : ∃ writes, rollbackDAIncluded db h aggregator = .ok writes := by
    unfold rollbackDAIncluded
    rcases hrecorded : (db (.metadata .daIncludedHeight)).bind decodeHeight with _ | d
    · exact ⟨_, rfl⟩
    dsimp only
    split_ifs with habove haggregator
    · have hle := hincluded haggregator d hrecorded
      omega
    · exact ⟨_, rfl⟩
    · exact ⟨_, rfl⟩
  obtain ⟨writes, hwrites⟩ := hloop (n - h) (by omega)
  obtain ⟨included, hincluded'⟩ := hmeta
  unfold rollback
  rw [hdb.height]
  dsimp only
  rw [if_neg (by omega), hincluded', hwrites]
  exact ⟨_, rfl⟩

/-- All entries of blocks and states, the index and the height are those of `S`. -/
structure Restores (S db : Db) : Prop where
  header : ∀ k, db (.header k) = S (.header k)
  data : ∀ k, db (.data k) = S (.data k)
  signature : ∀ k, db (.signature k) = S (.signature k)
  index : ∀ hash, db (.index hash) = S (.index hash)
  stateAt : ∀ k, db (.stateAt k) = S (.stateAt k)
  height : height db = height S

/-- `Rollback` to the height `h` of a store `S` to which blocks from `h + 1` on, with header bytes
new to `S`, have been committed, whatever metadata was written meanwhile and whichever calls to the
datastore fail. If it returns nil, all is as in `S` and the DA included height is at most `h`; if it
returns an error, nothing has changed; and on an aggregator it returns one if the DA included height
is above `h`. It does return nil if nothing of this stands in the way. -/
theorem rollback_inverts_commits {committed : Db} {blocks : List (StoredBlock × State)}
    (f : Faults) (aggregator : Bool) (hheight : DefaultStore.height S = .ok h)
    (hempty : ∀ k, h < k → S (.header k) = none ∧ S (.data k) = none ∧
      S (.signature k) = none ∧ S (.stateAt k) = none)
    (hheights : ∀ i b, blocks[i]? = some b → b.1.header.header.height = h + 1 + i ∧
      b.2.lastBlockHeight = h + 1 + i)
    (hlt : ∀ b ∈ blocks, b.1.header.header.height < 2 ^ 64)
    (hfresh : ∀ b ∈ blocks, ∀ blob, c.signedHeaderBytes b.1.header = some blob →
      S (.index (c.sha256 blob)) = none)
    (hcommit : commitBlocks c S blocks = .ok committed)
    (hmeta : ∀ key, (∀ k, key ≠ .metadata k) → db key = committed key) :
    let r := (rollbackM f c h aggregator).exec ⟨db, []⟩
    (r.1 = .ok () → Restores S r.2.db) ∧ (∀ err, r.1 = .error err → r.2.db = db) ∧
      (aggregator = true → (∃ d, recordedDAIncluded db = some d ∧ h < d) →
        ∃ err, r.1 = .error err) ∧
      (r.1 = .ok () → ∀ d, recordedDAIncluded r.2.db = some d → d ≤ h) ∧
      (f = .none → blocks ≠ [] →
        (aggregator = true → ∀ d, recordedDAIncluded db = some d → d ≤ h) → r.1 = .ok ()) := by
  intro r
  have hdb := ((Extends.refl hheight).commitBlocks hheights hlt hfresh hcommit).congr hmeta
  obtain ⟨herror, hok⟩ := rollbackM_exec f c db h aggregator
  -- if it returns nil there was something to roll back, so that `h` is not the last height
  have hfits : r.1 = .ok () → h < 2 ^ 64 := by
    intro hnil
    obtain ⟨n, -, -, hn, habove, -⟩ := rollback_eq_ok (hok hnil)
    obtain rfl := ok.inj (hdb.height.symm.trans hn)
    obtain ⟨b, hb⟩ := exists_mem_of_length_pos (l := blocks) (by omega)
    obtain ⟨i, hi⟩ := mem_iff_getElem?.mp hb
    have hblock := hlt b hb
    rw [(hheights i b hi).1] at hblock
    omega
  refine ⟨fun hnil => ?_, herror, fun haggregator ⟨d, hd, habove⟩ => ?_, fun hnil => ?_,
    fun hf hne hincluded => ?_⟩
  · obtain ⟨n, hn, hremoves⟩ := rollback_removes (hok hnil)
    obtain rfl := ok.inj (hdb.height.symm.trans hn)
    obtain ⟨n, hn, hstates⟩ := rollback_stateAt (hok hnil)
    obtain rfl := ok.inj (hdb.height.symm.trans hn)
    obtain ⟨hheader, hdata, hsignature, hindex⟩ := hdb.removes
      (fun k hk => ⟨(hempty k hk).1, (hempty k hk).2.1, (hempty k hk).2.2.1⟩) hremoves
    refine ⟨hheader, hdata, hsignature, hindex, fun k => ?_, ?_⟩
    · rw [hstates k]
      split_ifs with hk
      · exact (hempty k hk.1).2.2.2.symm
      · exact hdb.stateAt k hk
    · rw [rollback_height (hfits hnil) (hok hnil), hheight]
  · rcases hr : r.1 with err | _
    · exact ⟨err, rfl⟩
    · have hle := (rollback_daIncluded (hfits hr) (hok hr)).2 haggregator d hd
      omega
  · exact (rollback_daIncluded (hfits hnil) (hok hnil)).1
  · have hpos := length_pos_iff.mpr hne
    obtain ⟨db', hrollback⟩ := hdb.rollback_ok (by omega) hincluded
    subst hf
    exact congrArg Prod.fst (rollbackM_returns hrollback)

private def heightCodec : BlockCodec where
  headerBytes := fun header => [UInt8.ofNat header.height]
  headerBytesLegacy := fun header => [UInt8.ofNat header.height]
  dataBytes := fun _ => []
  sha256 := id
  signedHeaderBytes := fun header => some [UInt8.ofNat header.header.height]
  unmarshalHeader := fun _ => none
  unmarshalData := fun _ => none
  stateBytes := fun _ => some []

private def bareBlock (height : ℕ) : StoredBlock × State :=
  (⟨⟨⟨height, 0, "", ⟨0, 0⟩, [], [], [], [], [], none⟩, [], ⟨none, []⟩⟩, ⟨none, []⟩, []⟩,
    { State.zero with lastBlockHeight := height })

theorem rollback_inverts_two_commits :
    ∃ db, commitBlocks heightCodec (fun _ => none) [bareBlock 1, bareBlock 2] = .ok db ∧
      ((rollbackM .none heightCodec 0 false).exec ⟨db, []⟩).1 = .ok () ∧
      Restores (fun _ => none) ((rollbackM .none heightCodec 0 false).exec ⟨db, []⟩).2.db := by
  have hcommit : commitBlocks heightCodec (fun _ => none) [bareBlock 1, bareBlock 2] = .ok _ := rfl
  refine ⟨_, hcommit, ?_⟩
  have hboth := rollback_inverts_commits .none false rfl (fun _ _ => ⟨rfl, rfl, rfl, rfl⟩)
    (by
      rintro (_ | _ | i) b hb
      · obtain rfl := some.inj hb
        exact ⟨rfl, rfl⟩
      · obtain rfl := some.inj hb
        exact ⟨rfl, rfl⟩
      · exact absurd hb (by simp))
    (by decide) (fun _ _ _ _ => rfl) hcommit (fun _ _ => rfl)
  have hnil := hboth.2.2.2.2 rfl (by simp) (fun hfalse => absurd hfalse (by simp))
  exact ⟨hnil, hboth.1 hnil⟩

end DefaultStore

end ChainSdk

/-
`pkg/store`: the datastore of a node, batches of writes to it, and `DefaultStore`, which keeps
blocks in it.

A block of height `h` takes four entries: header, data and signature under `h`, and an index entry
from a hash to `h`. `Rollback` and `PruneBlocks` remove all four of a range of heights, in one
batch.
-/
import ChainSdk.FixedDigits
import ChainSdk.SignedBlocks

namespace ChainSdk

open Except Function List

/-! ## The datastore -/

/-- The keys below `m`, as far as they are named. -/
inductive MetaKey
  | pendingHeader
  | pendingData
  | daIncludedHeight
  | lastPrunedBlockHeight
  | headerDAHeight (height : ℕ)
  | dataDAHeight (height : ℕ)
  | other (name : String)
  deriving DecidableEq

/-- The keys of the store. Each kind has a prefix of its own. -/
inductive Key
  | header (height : ℕ)
  | data (height : ℕ)
  | signature (height : ℕ)
  | stateAt (height : ℕ)
  | index (hash : Hash)
  | height
  | metadata (key : MetaKey)
  deriving DecidableEq

abbrev Db := Key → Option Bytes

/-- A write of a batch; `none` deletes. -/
abbrev Write := Key × Option Bytes

namespace Db

variable {db : Db} {key : Key}

/-- `Batch.Commit`: the writes take effect in their order. -/
def commit (db : Db) (writes : List Write) : Db :=
  writes.foldl (fun db w => update db w.1 w.2) db

theorem commit_cons (w : Write) (writes : List Write) :
    db.commit (w :: writes) = Db.commit (update db w.1 w.2) writes := rfl

theorem commit_append (writes writes' : List Write) :
    db.commit (writes ++ writes') = (db.commit writes).commit writes' := by
  unfold commit
  rw [foldl_append]

theorem commit_concat (writes : List Write) (value : Option Bytes) :
    db.commit (writes ++ [(key, value)]) key = value := by
  unfold commit
  rw [foldl_concat]
  simp only [update_self]

theorem commit_other {writes : List Write} (hother : ∀ w ∈ writes, w.1 ≠ key) :
    db.commit writes key = db key := by
  induction writes generalizing db with
  | nil => rfl
  | cons w writes ih =>
    rw [commit_cons, ih (fun w hw => hother w (mem_cons_of_mem _ hw))]
    exact update_of_ne (hother w mem_cons_self).symm _ _

theorem commit_written {writes : List Write} {value : Option Bytes}
    (hwritten : (key, value) ∈ writes) (hsame : ∀ w ∈ writes, w.1 = key → w.2 = value) :
    db.commit writes key = value := by
  induction writes generalizing db with
  | nil => exact absurd hwritten not_mem_nil
  | cons w writes ih =>
    rw [commit_cons]
    by_cases hlater : ∃ w' ∈ writes, w'.1 = key
    · -- a later write decides
      obtain ⟨w', hmem, hkey⟩ := hlater
      refine ih ?_ (fun w hw => hsame w (mem_cons_of_mem _ hw))
      have hvalue := hsame w' (mem_cons_of_mem _ hmem) hkey
      rw [← hkey, ← hvalue]
      exact hmem
    · have hother : ∀ w' ∈ writes, w'.1 ≠ key := fun w' hmem hkey => hlater ⟨w', hmem, hkey⟩
      rw [commit_other hother]
      rcases mem_cons.mp hwritten with rfl | hmem
      · exact update_self _ _ _
      · exact absurd rfl (hother _ hmem)

end Db

/-! ## Heights as bytes -/

def encodeHeight (height : ℕ) : Bytes :=
  ((FixedDigits.digits 256 8 height).map UInt8.ofNat).reverse

def decodeHeight (bz : Bytes) : Option ℕ :=
  if bz.length ≠ 8 then none else some (FixedDigits.value 256 (bz.reverse.map UInt8.toNat))

theorem decodeHeight_encodeHeight {height : ℕ} (hlt : height < 2 ^ 64) :
    decodeHeight (encodeHeight height) = some height := by
  have hlength : (encodeHeight height).length = 8 := by
    simp [encodeHeight, FixedDigits.digits]
  have hbytes : ((FixedDigits.digits 256 8 height).map UInt8.ofNat).map UInt8.toNat =
      FixedDigits.digits 256 8 height := by
    rw [map_map]
    refine (map_congr_left fun d hd => ?_).trans (map_id _)
    have hdigit := FixedDigits.digits_lt_base (by decide) d hd
    exact UInt8.toNat_ofNat_of_lt' hdigit
  unfold decodeHeight
  rw [if_neg (not_not.mpr hlength), encodeHeight, reverse_reverse, hbytes,
    FixedDigits.value_digits (by omega)]

/-! ## Blocks as bytes -/

/-- The encodings the store uses, beside those that are hashed. -/
structure BlockCodec extends Codec where
  /-- `SignedHeader.MarshalBinary`; a public key may fail to be marshalled. -/
  signedHeaderBytes : SignedHeader → Option Bytes
  /-- `SignedHeader.UnmarshalBinary`. -/
  unmarshalHeader : Bytes → Option SignedHeader
  /-- `Data.UnmarshalBinary`. -/
  unmarshalData : Bytes → Option Data
  /-- `State.ToProto` and `proto.Marshal`. -/
  stateBytes : State → Option Bytes

inductive StoreError
  | notFound (key : Key)
  | invalidHeightLength (length : ℕ)
  | unmarshalHeader
  | unmarshalData
  | marshal
  | rollbackAbove (currentHeight height : ℕ)
  | rollbackFinalized
  | commit
  deriving DecidableEq

namespace DefaultStore

variable (c : BlockCodec) (db : Db)

/-! ## Reading -/

def height : Except StoreError ℕ :=
  match db .height with
  | none => .ok 0
  | some bz =>
    match decodeHeight bz with
    | none => .error (.invalidHeightLength bz.length)
    | some height => .ok height

def getHeader (height : ℕ) : Except StoreError SignedHeader :=
  match db (.header height) with
  | none => .error (.notFound (.header height))
  | some headerBlob =>
    match c.unmarshalHeader headerBlob with
    | none => .error .unmarshalHeader
    | some header => .ok header

def getBlockData (height : ℕ) : Except StoreError (SignedHeader × Data) :=
  match getHeader c db height with
  | .error err => .error err
  | .ok header =>
    match db (.data height) with
    | none => .error (.notFound (.data height))
    | some dataBlob =>
      match c.unmarshalData dataBlob with
      | none => .error .unmarshalData
      | some data => .ok (header, data)

variable {c db} in
theorem getHeader_congr {db' : Db} {height : ℕ}
    (hheader : db' (.header height) = db (.header height)) :
    getHeader c db' height = getHeader c db height := by
  unfold getHeader
  rw [hheader]

variable {c db} in
theorem getBlockData_congr {db' : Db} {height : ℕ}
    (hheader : db' (.header height) = db (.header height))
    (hdata : db' (.data height) = db (.data height)) :
    getBlockData c db' height = getBlockData c db height := by
  unfold getBlockData
  rw [getHeader_congr hheader, hdata]

def getSignature (height : ℕ) : Except StoreError Signature :=
  match db (.signature height) with
  | none => .error (.notFound (.signature height))
  | some signature => .ok signature

def getHeightByHash (hash : Hash) : Except StoreError ℕ :=
  match db (.index hash) with
  | none => .error (.notFound (.index hash))
  | some bz =>
    match decodeHeight bz with
    | none => .error (.invalidHeightLength bz.length)
    | some height => .ok height

def getBlockByHash (hash : Hash) : Except StoreError (SignedHeader × Data) :=
  match getHeightByHash db hash with
  | .error err => .error err
  | .ok height => getBlockData c db height

def getSignatureByHash (hash : Hash) : Except StoreError Signature :=
  match getHeightByHash db hash with
  | .error err => .error err
  | .ok height => getSignature db height

/-! ## Writing -/

def setHeight (newHeight : ℕ) : Except StoreError (List Write) :=
  match height db with
  | .error err => .error err
  | .ok currentHeight =>
    if newHeight ≤ currentHeight then .ok []
    else .ok [(.height, some (encodeHeight newHeight))]

def saveBlockDataFromBytes (header : SignedHeader) (headerBlob dataBlob : Bytes)
    (signature : Signature) : List Write :=
  let height := header.header.height
  [(.header height, some headerBlob), (.data height, some dataBlob),
    (.signature height, some signature),
    (.index (c.sha256 headerBlob), some (encodeHeight height))]

def saveBlockData (header : SignedHeader) (data : Data) (signature : Signature) :
    Except StoreError (List Write) :=
  match c.signedHeaderBytes header with
  | none => .error .marshal
  | some headerBlob =>
    .ok (saveBlockDataFromBytes c header headerBlob (c.dataBytes data) signature)

def updateState (state : State) : Except StoreError (List Write) :=
  match c.stateBytes state with
  | none => .error .marshal
  | some bz => .ok [(.stateAt state.lastBlockHeight, some bz)]

/-- The batch in which a block is committed, by the executor and by the syncer. -/
def blockBatch (header : SignedHeader) (data : Data) (signature : Signature) (state : State) :
    Except StoreError (List Write) := do
  let block ← saveBlockData c header data signature
  let newHeight ← setHeight db header.header.height
  let newState ← updateState c state
  return block ++ newHeight ++ newState

/-! ## Removing -/

def blockDeletes (height : ℕ) (headerBlob : Bytes) : List Write :=
  [(.header height, none), (.data height, none), (.signature height, none),
    (.index (c.sha256 headerBlob), none)]

def rollbackDAIncluded (height : ℕ) (aggregator : Bool) : Except StoreError (List Write) :=
  match (db (.metadata .daIncludedHeight)).bind decodeHeight with
  -- missing, or of another length: not checked
  | none => .ok []
  | some daIncludedHeight =>
    if height < daIncludedHeight then
      -- an aggregator must not roll back a finalized height
      if aggregator then .error .rollbackFinalized
      else .ok [(.metadata .daIncludedHeight, some (encodeHeight height))]
    else .ok []

def rollbackLoop (height : ℕ) : ℕ → Except StoreError (List Write)
  | 0 => .ok []
  | count + 1 =>
    match db (.header (height + (count + 1))) with
    | none => .error (.notFound (.header (height + (count + 1))))
    | some headerBlob =>
      match rollbackLoop height count with
      | .error err => .error err
      | .ok writes =>
        .ok (blockDeletes c (height + (count + 1)) headerBlob ++
          [(.stateAt (height + (count + 1)), none)] ++ writes)

/-- `Rollback`, with whether its batch commits. -/
def rollback (committed : Bool) (height : ℕ) (aggregator : Bool) : Except StoreError Db :=
  match DefaultStore.height db with
  | .error err => .error err
  | .ok currentHeight =>
    if currentHeight ≤ height then .error (.rollbackAbove currentHeight height)
    else
      match rollbackDAIncluded db height aggregator with
      | .error err => .error err
      | .ok included =>
        match rollbackLoop c db height (currentHeight - height) with
        | .error err => .error err
        | .ok writes =>
          if !committed then .error .commit
          else .ok (db.commit (included ++ writes ++ [(.height, some (encodeHeight height))]))

def lastPruned : ℕ := ((db (.metadata .lastPrunedBlockHeight)).bind decodeHeight).getD 0

/-- One round of the loop of `PruneBlocks`; a height without a header is skipped. -/
def pruneHeight (height : ℕ) : List Write :=
  match db (.header height) with
  | none => []
  | some headerBlob =>
    blockDeletes c height headerBlob ++
      [(.metadata (.headerDAHeight height), none), (.metadata (.dataDAHeight height), none)]

def pruneBlocks (committed : Bool) (height : ℕ) : Except StoreError Db :=
  if height ≤ lastPruned db then .ok db
  else if !committed then .error .commit
  else
    .ok (db.commit
      ((List.range' (lastPruned db + 1) (height - lastPruned db)).flatMap (pruneHeight c db) ++
        [(.metadata .lastPrunedBlockHeight, some (encodeHeight height))]))

/-! ## What is removed -/

/-- Of the blocks in `db`, those of the heights `R` are gone in `db'`, with their index entries,
and all others are as they were. -/
structure Removes (db : Db) (R : ℕ → Prop) (db' : Db) : Prop where
  removed : ∀ h, R h → db' (.header h) = none ∧
    ((db (.header h)).isSome → db' (.data h) = none ∧ db' (.signature h) = none)
  kept : ∀ h, ¬ R h → db' (.header h) = db (.header h) ∧ db' (.data h) = db (.data h) ∧
    db' (.signature h) = db (.signature h)
  index_removed : ∀ h blob, R h → db (.header h) = some blob →
    db' (.index (c.sha256 blob)) = none
  index_kept : ∀ hash, (∀ h blob, R h → db (.header h) = some blob → c.sha256 blob ≠ hash) →
    db' (.index hash) = db (.index hash)

variable {c : BlockCodec} {db : Db}

section

variable {writes : List Write} {height : ℕ} {aggregator committed : Bool} {db' : Db}

theorem removes_of_writes {R : ℕ → Prop}
    (hall : ∀ h blob, R h → db (.header h) = some blob → ∀ w ∈ blockDeletes c h blob, w ∈ writes)
    (honly : ∀ w ∈ writes, (∃ h blob, R h ∧ db (.header h) = some blob ∧
        w ∈ blockDeletes c h blob) ∨
      (∃ h, w.1 = .stateAt h) ∨ w.1 = .height ∨ ∃ k, w.1 = .metadata k) :
    Removes c db R (db.commit writes) := by
  -- a delete of a block's entry is the only kind of write there is at its key
  have hdeleted : ∀ h blob key, R h → db (.header h) = some blob →
      (key, none) ∈ blockDeletes c h blob → db.commit writes key = none := by
    intro h blob key hR hblob hmem
    refine Db.commit_written (hall h blob hR hblob _ hmem) (fun w hw hkey => ?_)
    rcases honly w hw with ⟨h', blob', -, -, hw'⟩ | ⟨h', hstate⟩ | hheight | ⟨k, hmeta⟩
    · simp only [blockDeletes, mem_cons, not_mem_nil, or_false] at hw'
      rcases hw' with rfl | rfl | rfl | rfl <;> rfl
    all_goals
      subst hkey
      simp only [blockDeletes, mem_cons, not_mem_nil, or_false, Prod.mk.injEq,
        and_true] at hmem
      simp_all
  have hsame : ∀ key, (∀ w ∈ writes, w.1 ≠ key) → db.commit writes key = db key :=
    fun key hother => Db.commit_other hother
  -- which heights a write at an entry of a block is for
  have hheights : ∀ h, ¬ (R h ∧ (db (.header h)).isSome) → ∀ w ∈ writes,
      w.1 ≠ .header h ∧ w.1 ≠ .data h ∧ w.1 ≠ .signature h := by
    intro h hnot w hw
    rcases honly w hw with ⟨h', blob', hR, hblob, hw'⟩ | ⟨h', hstate⟩ | hheight | ⟨k, hmeta⟩
    · have hne : h' ≠ h := by
        rintro rfl
        exact hnot ⟨hR, by simp [hblob]⟩
      simp only [blockDeletes, mem_cons, not_mem_nil, or_false] at hw'
      rcases hw' with rfl | rfl | rfl | rfl <;> simp [hne]
    · simp [hstate]
    · simp [hheight]
    · simp [hmeta]
  refine ⟨fun h hR => ?_, fun h hR => ?_, fun h blob hR hblob => ?_, fun hash hnone => ?_⟩
  · rcases hblob : db (.header h) with _ | blob
    · have hother := hheights h (by simp [hblob])
      exact ⟨(hsame _ fun w hw => (hother w hw).1).trans hblob, by simp⟩
    · refine ⟨hdeleted h blob _ hR hblob ?_, fun _ => ⟨hdeleted h blob _ hR hblob ?_,
        hdeleted h blob _ hR hblob ?_⟩⟩ <;> simp [blockDeletes]
  · have hother := hheights h (fun hand => hR hand.1)
    exact ⟨hsame _ fun w hw => (hother w hw).1, hsame _ fun w hw => (hother w hw).2.1,
      hsame _ fun w hw => (hother w hw).2.2⟩
  · exact hdeleted h blob _ hR hblob (by simp [blockDeletes])
  · refine hsame _ (fun w hw hkey => ?_)
    rcases honly w hw with ⟨h', blob', hR, hblob, hw'⟩ | ⟨h', hstate⟩ | hheight | ⟨k, hmeta⟩
    · simp only [blockDeletes, mem_cons, not_mem_nil, or_false] at hw'
      rcases hw' with rfl | rfl | rfl | rfl <;> simp at hkey
      exact hnone h' blob' hR hblob hkey
    · simp [hstate] at hkey
    · simp [hheight] at hkey
    · simp [hmeta] at hkey

theorem rollbackLoop_succ_ok {count : ℕ}
    (hloop : rollbackLoop c db height (count + 1) = .ok writes) :
    ∃ blob rest, db (.header (height + (count + 1))) = some blob ∧
      rollbackLoop c db height count = .ok rest ∧ writes =
        blockDeletes c (height + (count + 1)) blob ++
          [(.stateAt (height + (count + 1)), none)] ++ rest := by
  rw [rollbackLoop] at hloop
  rcases htop : db (.header (height + (count + 1))) with _ | blob
  · simp [htop] at hloop
  rw [htop] at hloop
  rcases hrest : rollbackLoop c db height count with err | rest
  · simp [hrest] at hloop
  rw [hrest] at hloop
  exact ⟨blob, rest, rfl, rfl, (ok.inj hloop).symm⟩

theorem rollbackLoop_ok {count : ℕ} (hloop : rollbackLoop c db height count = .ok writes) :
    (∀ h blob, height < h → h ≤ height + count → db (.header h) = some blob →
      ∀ w ∈ blockDeletes c h blob, w ∈ writes) ∧
    (∀ h, height < h → h ≤ height + count → ((.stateAt h, none) : Write) ∈ writes) ∧
    ∀ w ∈ writes, ∃ h, (height < h ∧ h ≤ height + count) ∧
      ((∃ blob, db (.header h) = some blob ∧ w ∈ blockDeletes c h blob) ∨
        w = (.stateAt h, none)) := by
  induction count generalizing writes with
  | zero =>
    obtain rfl := ok.inj hloop
    exact ⟨fun h blob hlt hle => by omega, fun h hlt hle => by omega,
      fun w hw => absurd hw not_mem_nil⟩
  | succ count ih =>
    obtain ⟨headerBlob, rest, htop, hrest, rfl⟩ := rollbackLoop_succ_ok hloop
    obtain ⟨hall, hstates, honly⟩ := ih hrest
    refine ⟨fun h blob hlt hle hblob w hw => ?_, fun h hlt hle => ?_, fun w hw => ?_⟩
    · by_cases htopmost : h = height + (count + 1)
      · subst htopmost
        obtain rfl := Option.some.inj (htop.symm.trans hblob)
        exact mem_append_left _ (mem_append_left _ hw)
      · exact mem_append_right _ (hall h blob hlt (by omega) hblob w hw)
    · by_cases htopmost : h = height + (count + 1)
      · rw [htopmost]
        simp
      · exact mem_append_right _ (hstates h hlt (by omega))
    · rcases mem_append.mp hw with hw | hw
      · refine ⟨_, ⟨by omega, le_rfl⟩, ?_⟩
        rcases mem_append.mp hw with hw | hw
        · exact .inl ⟨headerBlob, htop, hw⟩
        · exact .inr (mem_singleton.mp hw)
      · obtain ⟨h, hrange, hentry⟩ := honly w hw
        exact ⟨h, ⟨hrange.1, by omega⟩, hentry⟩

theorem rollbackDAIncluded_ok (hincluded : rollbackDAIncluded db height aggregator = .ok writes) :
    ∀ w ∈ writes, ∃ k, w.1 = .metadata k := by
  unfold rollbackDAIncluded at hincluded
  split at hincluded
  · obtain rfl := ok.inj hincluded
    exact fun w hw => absurd hw not_mem_nil
  split_ifs at hincluded
  · obtain rfl := ok.inj hincluded
    exact fun w hw => ⟨_, congrArg Prod.fst (mem_singleton.mp hw)⟩
  · obtain rfl := ok.inj hincluded
    exact fun w hw => absurd hw not_mem_nil

theorem rollback_eq_ok (hrollback : rollback c db committed height aggregator = .ok db') :
    ∃ currentHeight included writes, DefaultStore.height db = .ok currentHeight ∧
      height < currentHeight ∧ rollbackDAIncluded db height aggregator = .ok included ∧
      rollbackLoop c db height (currentHeight - height) = .ok writes ∧
      db' = db.commit (included ++ writes ++ [(.height, some (encodeHeight height))]) := by
  unfold rollback at hrollback
  rcases hcurrent : DefaultStore.height db with err | currentHeight
  · simp [hcurrent] at hrollback
  rw [hcurrent] at hrollback
  dsimp only at hrollback
  by_cases habove : currentHeight ≤ height
  · simp [if_pos habove] at hrollback
  rw [if_neg habove] at hrollback
  rcases hincluded : rollbackDAIncluded db height aggregator with err | included
  · simp [hincluded] at hrollback
  rcases hloop : rollbackLoop c db height (currentHeight - height) with err | writes
  · simp [hincluded, hloop] at hrollback
  rw [hincluded, hloop] at hrollback
  split_ifs at hrollback
  exact ⟨currentHeight, included, writes, rfl, Nat.lt_of_not_le habove, rfl, hloop,
    (ok.inj hrollback).symm⟩

theorem rollback_removes (hrollback : rollback c db committed height aggregator = .ok db') :
    ∃ currentHeight, DefaultStore.height db = .ok currentHeight ∧
      Removes c db (fun h => height < h ∧ h ≤ currentHeight) db' := by
  obtain ⟨currentHeight, included, writes, hcurrent, habove, hincluded, hloop, rfl⟩ :=
    rollback_eq_ok hrollback
  obtain ⟨hall, -, honly⟩ := rollbackLoop_ok hloop
  have hmeta := rollbackDAIncluded_ok hincluded
  refine ⟨currentHeight, hcurrent, removes_of_writes ?_ ?_⟩
  · intro h blob hrange hblob w hw
    exact mem_append_left _
      (mem_append_right _ (hall h blob hrange.1 (by omega) hblob w hw))
  · intro w hw
    rcases mem_append.mp hw with hw | hw
    · rcases mem_append.mp hw with hw | hw
      · exact .inr (.inr (.inr (hmeta w hw)))
      · obtain ⟨h, hrange, ⟨blob, hblob, hw⟩ | rfl⟩ := honly w hw
        · exact .inl ⟨h, blob, ⟨hrange.1, by omega⟩, hblob, hw⟩
        · exact .inr (.inl ⟨h, rfl⟩)
    · exact .inr (.inr (.inl (congrArg Prod.fst (mem_singleton.mp hw))))

theorem pruneBlocks_removes (hprune : pruneBlocks c db committed height = .ok db') :
    Removes c db (fun h => lastPruned db < h ∧ h ≤ height) db' := by
  unfold pruneBlocks at hprune
  split_ifs at hprune with hle hcommitted
  · -- nothing new to prune
    obtain rfl := ok.inj hprune
    exact ⟨fun h hR => by omega, fun h _ => ⟨rfl, rfl, rfl⟩, fun h blob hR => by omega,
      fun hash _ => rfl⟩
  obtain rfl := ok.inj hprune
  refine removes_of_writes ?_ ?_
  · intro h blob hrange hblob w hw
    refine mem_append_left _ (mem_flatMap.mpr ⟨h, ?_, ?_⟩)
    · rw [mem_range'_1]
      omega
    · unfold pruneHeight
      rw [hblob]
      exact mem_append_left _ hw
  · intro w hw
    rcases mem_append.mp hw with hw | hw
    · obtain ⟨h, hmem, hw⟩ := mem_flatMap.mp hw
      rw [mem_range'_1] at hmem
      unfold pruneHeight at hw
      rcases hblob : db (.header h) with _ | headerBlob
      · rw [hblob] at hw
        exact absurd hw not_mem_nil
      rw [hblob] at hw
      rcases mem_append.mp hw with hw | hw
      · exact .inl ⟨h, headerBlob, by omega, hblob, hw⟩
      refine .inr (.inr (.inr ?_))
      simp only [mem_cons, not_mem_nil, or_false] at hw
      rcases hw with rfl | rfl
      · exact ⟨_, rfl⟩
      · exact ⟨_, rfl⟩
    · exact .inr (.inr (.inr ⟨_, congrArg Prod.fst (mem_singleton.mp hw)⟩))

end

end DefaultStore

end ChainSdk

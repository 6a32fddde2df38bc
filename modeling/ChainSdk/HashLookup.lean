/-
Finding blocks by hash: the index of `DefaultStore`, and the adapters through which headers and data
are looked up by the P2P layer.

The index entry of a block is for the sha256 of its stored header blob, signature and signer
included. Those who look something up hold `Header.Hash` or `Data.Hash`.
-/
import ChainSdk.DaRetriever
import ChainSdk.DefaultStore
import ChainSdk.Runs
import ChainSdk.Store

namespace ChainSdk

open DefaultStore Except Function List Option

/-! ## Items and the pending cache -/

structure P2PItem (α : Type) where
  value : α
  daHeightHint : ℕ

/-- What the adapter asks of an item. There is no height if the metadata pointer is nil. -/
structure Entity (α : Type) where
  height : α → Option ℕ
  hash : α → Hash

/-- `pendingCache`, without the height of its highest item. Items are filed under their height. -/
structure PendingCache {α : Type} (entity : Entity α) where
  items : AList (fun _ : ℕ => P2PItem α)
  byHash : AList (fun _ : Hash => ℕ)
  daHints : AList (fun _ : ℕ => ℕ)
  height_eq : ∀ h item, items.lookup h = some item → entity.height item.value = some h

namespace PendingCache

variable {α : Type} {entity : Entity α}

def new : PendingCache entity := ⟨∅, ∅, ∅, by simp⟩

variable (p : PendingCache entity)

def add (item : P2PItem α) (height : ℕ) (hheight : entity.height item.value = some height) :
    PendingCache entity where
  items := p.items.insert height item
  byHash := p.byHash.insert (entity.hash item.value) height
  daHints := if 0 < item.daHeightHint then p.daHints.insert height item.daHeightHint
    else p.daHints
  height_eq := forall_lookup_insert p.height_eq hheight

def delete (height : ℕ) : PendingCache entity where
  items := p.items.erase height
  byHash :=
    match p.items.lookup height with
    | none => p.byHash
    | some item => p.byHash.erase (entity.hash item.value)
  daHints := p.daHints.erase height
  height_eq := fun h item hlookup => p.height_eq h item (lookup_of_lookup_erase hlookup)

def getByHash (hash : Hash) : Option (P2PItem α) :=
  (p.byHash.lookup hash).bind p.items.lookup

end PendingCache

/-! ## Getters and adapters -/

structure StoreGetter (α : Type) where
  getByHash : Hash → Except Panic (Except StoreError (P2PItem α))
  getDAHint : ℕ → Option ℕ

/-- `GetDAHint` of both getters: eight bytes, or an error. -/
def getDAHint (db : Db) (key : MetaKey) : Option ℕ := (db (.metadata key)).bind decodeHeight

def headerStoreGetter (c : BlockCodec) (db : Db) : StoreGetter SignedHeader where
  getByHash := fun hash =>
    match getBlockByHash c db hash with
    | .error err => .ok (.error err)
    | .ok (header, _) =>
      .ok (.ok ⟨header, (getDAHint db (.headerDAHeight header.header.height)).getD 0⟩)
  getDAHint := fun height => getDAHint db (.headerDAHeight height)

/-- `DataStoreGetter`. The height is read through the metadata pointer. -/
def dataStoreGetter (c : BlockCodec) (db : Db) : StoreGetter Data where
  getByHash := fun hash =>
    match getBlockByHash c db hash with
    | .error err => .ok (.error err)
    | .ok (_, data) =>
      match data.metadata with
      | none => .error .nilMetadata
      | some metadata =>
        .ok (.ok ⟨data, (getDAHint db (.dataDAHeight metadata.height)).getD 0⟩)
  getDAHint := fun height => getDAHint db (.dataDAHeight height)

/-- `types.P2PSignedHeader` as an item. -/
def headerEntity (c : Codec) : Entity SignedHeader :=
  ⟨fun header => some header.header.height, fun header => c.headerHash header.header⟩

/-- `types.P2PData` as an item. -/
def dataEntity (c : Codec) : Entity Data :=
  ⟨fun data => data.metadata.map Metadata.height, c.dataHash⟩

namespace StoreAdapter

variable {α : Type} {entity : Entity α}

section

variable (getter : StoreGetter α)

def applyDAHint (p : PendingCache entity) (item : P2PItem α) :
    Except Panic (P2PItem α × PendingCache entity) :=
  match entity.height item.value with
  | none => .error .nilMetadata
  | some height =>
    match p.daHints.lookup height with
    | some hint => .ok ({ item with daHeightHint := hint }, p)
    | none =>
      match getter.getDAHint height with
      | none => .ok (item, p)
      | some hint =>
        if 0 < hint then
          .ok ({ item with daHeightHint := hint },
            { p with daHints := p.daHints.insert height hint })
        else .ok (item, p)

def get (p : PendingCache entity) (hash : Hash) :
    Except Panic (Option (P2PItem α) × PendingCache entity) :=
  match getter.getByHash hash with
  | .error panic => .error panic
  | .ok (.ok item) => (applyDAHint getter p item).map (fun r => (some r.1, r.2))
  | .ok (.error _) =>
    match p.getByHash hash with
    | some item => (applyDAHint getter p item).map (fun r => (some r.1, r.2))
    | none => .ok (none, p)

theorem applyDAHint_value (p : PendingCache entity) {item : P2PItem α} {height : ℕ}
    (hheight : entity.height item.value = some height) :
    ∃ hint p', applyDAHint getter p item = .ok (⟨item.value, hint⟩, p') := by
  unfold applyDAHint
  rw [hheight]
  dsimp only
  rcases p.daHints.lookup height with _ | hint
  · rcases getter.getDAHint height with _ | hint
    · exact ⟨_, _, rfl⟩
    · dsimp only
      split_ifs
      · exact ⟨_, _, rfl⟩
      · exact ⟨_, _, rfl⟩
  · exact ⟨_, _, rfl⟩

def Resolves (p : PendingCache entity) (hash : Hash) (value : α) : Prop :=
  ∃ hint p', get getter p hash = .ok (some ⟨value, hint⟩, p')

end

theorem resolves_iff {getter : StoreGetter α} {p : PendingCache entity} {hash : Hash} {value : α}
    {height : ℕ} (hheight : entity.height value = some height)
    (hgone : p.items.lookup height = none) :
    Resolves getter p hash value ↔
      ∃ item, getter.getByHash hash = .ok (.ok item) ∧ item.value = value := by
  -- what comes out of `applyDAHint` is what has gone in
  have hout : ∀ item, (∃ hint p', (applyDAHint getter p item).map (fun r => (some r.1, r.2)) =
      .ok (some ⟨value, hint⟩, p')) ↔ item.value = value := by
    intro item
    constructor
    · rintro ⟨hint, p', happlied⟩
      rcases hitem : entity.height item.value with _ | k
      · unfold applyDAHint at happlied
        rw [hitem] at happlied
        exact absurd happlied (by simp [Except.map])
      · obtain ⟨hint', p'', heq⟩ := applyDAHint_value getter p hitem
        rw [heq] at happlied
        have hpair := ok.inj happlied
        exact (P2PItem.mk.inj (some.inj (Prod.mk.inj hpair).1)).1
    · intro hvalue
      rw [← hvalue] at hheight
      obtain ⟨hint, p', heq⟩ := applyDAHint_value getter p hheight
      refine ⟨hint, p', ?_⟩
      rw [heq, hvalue]
      rfl
  unfold Resolves get
  rcases getter.getByHash hash with panic | err | item
  · simp
  · -- an item of this height is no longer pending
    have hnot : ¬ ∃ item, (.ok (.error err) : Except Panic (Except StoreError (P2PItem α))) =
        .ok (.ok item) ∧ item.value = value := by
      rintro ⟨item, hitem, -⟩
      exact absurd (ok.inj hitem) (by simp)
    refine iff_of_false ?_ hnot
    rintro ⟨hint, p', hget⟩
    rcases hpending : p.getByHash hash with _ | item
    · rw [hpending] at hget
      exact absurd (ok.inj hget) (by simp)
    rw [hpending] at hget
    have hvalue := (hout item).mp ⟨hint, p', hget⟩
    obtain ⟨k, -, hlookup⟩ := bind_eq_some_iff.mp hpending
    have hk := p.height_eq k item hlookup
    rw [hvalue, hheight] at hk
    obtain rfl := some.inj hk
    simp [hgone] at hlookup
  · rw [hout item]
    constructor
    · exact fun hvalue => ⟨item, rfl, hvalue⟩
    · rintro ⟨item', hitem, hvalue⟩
      rw [ok.inj (ok.inj hitem)]
      exact hvalue

end StoreAdapter

/-! ## Runs of the store -/

inductive ChainOp
  | commit (block : StoredBlock) (state : State) (committed : Bool)
  | rollback (height : ℕ) (aggregator committed : Bool)
  | pruneBlocks (height : ℕ) (committed : Bool)
  | setMetadata (key : MetaKey) (value : Option Bytes)

/-- The datastore, and the blocks that have been committed to it. -/
structure StoreRun where
  db : Db
  committed : List StoredBlock

namespace StoreRun

/-- A store nothing has been written to. -/
def new : StoreRun := ⟨fun _ => none, []⟩

def step (c : BlockCodec) (r : StoreRun) : ChainOp → StoreRun
  | .commit block state committed =>
    match blockBatch c r.db block.header block.data block.signature state with
    | .error _ => r
    | .ok writes =>
      if committed then ⟨r.db.commit writes, r.committed ++ [block]⟩ else r
  | .rollback height aggregator committed =>
    match DefaultStore.rollback c r.db committed height aggregator with
    | .error _ => r
    | .ok db => { r with db := db }
  | .pruneBlocks height committed =>
    match pruneBlocks c r.db committed height with
    | .error _ => r
    | .ok db => { r with db := db }
  | .setMetadata key value => { r with db := update r.db (.metadata key) value }

/-- A block the store can keep: its encodings can be read back, its height fits, and its data
carries the height. -/
structure Storable (c : BlockCodec) (block : StoredBlock) : Prop where
  header : ∃ blob, c.signedHeaderBytes block.header = some blob ∧
    c.unmarshalHeader blob = some block.header
  data : c.unmarshalData (c.dataBytes block.data) = some block.data
  height_lt : block.header.header.height < 2 ^ 64
  metadata : block.data.metadata.map Metadata.height = some block.header.header.height

structure Holds (c : BlockCodec) (db : Db) (block : StoredBlock) (blob : Bytes) : Prop where
  encodes : c.signedHeaderBytes block.header = some blob
  header : db (.header block.header.header.height) = some blob
  data : db (.data block.header.header.height) = some (c.dataBytes block.data)
  signature : db (.signature block.header.header.height) = some block.signature
  index : db (.index (c.sha256 blob)) = some (encodeHeight block.header.header.height)

/-- Every header that is there is that of a committed block which is there as a whole, and every
index entry is for one of them. -/
structure Indexed (c : BlockCodec) (r : StoreRun) : Prop where
  header : ∀ h blob, r.db (.header h) = some blob →
    ∃ block ∈ r.committed, block.header.header.height = h ∧ Holds c r.db block blob
  index : ∀ hash bz, r.db (.index hash) = some bz →
    ∃ h blob, r.db (.header h) = some blob ∧ c.sha256 blob = hash

variable {c : BlockCodec} {r : StoreRun}

section

variable {db : Db} {block : StoredBlock} {state : State} {writes : List Write} {blob : Bytes}
  {hash : Hash}

theorem committed_grows (op : ChainOp) : r.committed <+: (r.step c op).committed := by
  cases op with
  | commit block state committed =>
    unfold step
    dsimp only
    split
    · exact prefix_rfl
    · split_ifs
      · exact prefix_append _ _
      · exact prefix_rfl
  | rollback height aggregator committed | pruneBlocks height committed =>
    unfold step
    dsimp only
    split
    · exact prefix_rfl
    · exact prefix_rfl
  | setMetadata key value => exact prefix_rfl

theorem committed_grows_run (ops : List ChainOp) :
    r.committed <+: (ops.foldl (step c) r).committed := by
  induction ops generalizing r with
  | nil => exact prefix_rfl
  | cons op ops ih => exact (committed_grows op).trans ih

/-- Removing blocks with their index entries leaves an index of the others: their blobs are
different, and so are the hashes. -/
theorem Indexed.removes (hr : Indexed c r) (hsha : Function.Injective c.sha256)
    (hstorable : ∀ block ∈ r.committed, Storable c block) {R : ℕ → Prop}
    (hremoves : DefaultStore.Removes c r.db R db) : Indexed c { r with db := db } := by
  have hheight : ∀ h h' blob, r.db (.header h) = some blob → r.db (.header h') = some blob →
      h = h' := by
    intro h h' blob hblob hblob'
    obtain ⟨block, hmem, rfl, hholds⟩ := hr.header h blob hblob
    obtain ⟨block', hmem', rfl, hholds'⟩ := hr.header h' blob hblob'
    obtain ⟨blob₁, henc, hdec⟩ := (hstorable block hmem).header
    obtain ⟨blob₂, henc', hdec'⟩ := (hstorable block' hmem').header
    obtain rfl := some.inj (hholds.encodes.symm.trans henc)
    obtain rfl := some.inj (hholds'.encodes.symm.trans henc')
    rw [some.inj (hdec.symm.trans hdec')]
  -- what is there afterwards was not removed
  have hkept : ∀ h blob, db (.header h) = some blob → ¬ R h ∧ r.db (.header h) = some blob := by
    intro h blob hblob
    have hR : ¬ R h := fun hR => by
      simp [(hremoves.removed h hR).1] at hblob
    exact ⟨hR, (hremoves.kept h hR).1 ▸ hblob⟩
  have hindex : ∀ h blob, ¬ R h → r.db (.header h) = some blob →
      db (.index (c.sha256 blob)) = r.db (.index (c.sha256 blob)) := by
    intro h blob hR hblob
    refine hremoves.index_kept _ (fun h' blob' hR' hblob' heq => hR ?_)
    obtain rfl := hsha heq
    rw [hheight h h' _ hblob hblob']
    exact hR'
  refine ⟨fun h blob hblob => ?_, fun hash bz hbz => ?_⟩
  · obtain ⟨hR, hold⟩ := hkept h blob hblob
    obtain ⟨block, hmem, rfl, hholds⟩ := hr.header h blob hold
    obtain ⟨hheader, hdata, hsignature⟩ := hremoves.kept _ hR
    exact ⟨block, hmem, rfl, hholds.encodes, hblob, hdata.trans hholds.data,
      hsignature.trans hholds.signature, (hindex _ blob hR hold).trans hholds.index⟩
  · -- an index entry that is left is not for a block removed
    dsimp only at hbz
    have hleft : ∀ h blob, R h → r.db (.header h) = some blob → c.sha256 blob ≠ hash := by
      rintro h blob hR hblob rfl
      simp [hremoves.index_removed h blob hR hblob] at hbz
    rw [hremoves.index_kept hash hleft] at hbz
    obtain ⟨h, blob, hblob, heq⟩ := hr.index hash bz hbz
    have hR : ¬ R h := fun hR => hleft h blob hR hblob heq
    exact ⟨h, blob, (hremoves.kept h hR).1.trans hblob, heq⟩

theorem blockBatch_ok (hbatch : blockBatch c db block.header block.data block.signature state =
      .ok writes) :
    ∃ blob rest, c.signedHeaderBytes block.header = some blob ∧
      writes = saveBlockDataFromBytes c block.header blob (c.dataBytes block.data)
        block.signature ++ rest ∧
      ∀ w ∈ rest, w.1 = .height ∨ ∃ h, w.1 = .stateAt h := by
  unfold blockBatch saveBlockData at hbatch
  rcases hblob : c.signedHeaderBytes block.header with _ | blob
  · rw [hblob] at hbatch
    exact absurd hbatch (by simp [bind, Except.bind])
  rw [hblob] at hbatch
  rcases hheight : setHeight db block.header.header.height with err | newHeight
  · rw [hheight] at hbatch
    exact absurd hbatch (by simp [bind, Except.bind])
  rcases hstate : updateState c state with err | newState
  · rw [hheight, hstate] at hbatch
    exact absurd hbatch (by simp [bind, Except.bind])
  rw [hheight, hstate] at hbatch
  obtain rfl := ok.inj hbatch
  refine ⟨blob, newHeight ++ newState, rfl, append_assoc _ _ _, fun w hw => ?_⟩
  rcases mem_append.mp hw with hw | hw
  · left
    unfold setHeight at hheight
    split at hheight
    · simp at hheight
    split_ifs at hheight
    · rw [← ok.inj hheight] at hw
      exact absurd hw not_mem_nil
    · rw [← ok.inj hheight] at hw
      exact congrArg Prod.fst (mem_singleton.mp hw)
  · right
    unfold updateState at hstate
    split at hstate
    · simp at hstate
    · rw [← ok.inj hstate] at hw
      exact ⟨_, congrArg Prod.fst (mem_singleton.mp hw)⟩

theorem commit_saved (db : Db) {rest : List Write}
    (hblob : c.signedHeaderBytes block.header = some blob)
    (hwrites : writes = saveBlockDataFromBytes c block.header blob (c.dataBytes block.data)
      block.signature ++ rest) (hrest : ∀ w ∈ rest, w.1 = .height ∨ ∃ h, w.1 = .stateAt h) :
    Holds c (db.commit writes) block blob ∧
      ∀ key, key ∉ [Key.height, .header block.header.header.height,
          .data block.header.header.height, .signature block.header.header.height,
          .index (c.sha256 blob)] → (∀ h, key ≠ .stateAt h) → db.commit writes key = db key := by
  have hother : ∀ key, key ≠ .height → (∀ h, key ≠ .stateAt h) →
      db.commit writes key = db.commit (saveBlockDataFromBytes c block.header blob
        (c.dataBytes block.data) block.signature) key := by
    intro key hheight hstate
    rw [hwrites, Db.commit_append]
    refine Db.commit_other (fun w hw hkey => ?_)
    rcases hrest w hw with h | ⟨k, h⟩
    · exact hheight (hkey.symm.trans h)
    · exact hstate k (hkey.symm.trans h)
  refine ⟨?_, fun key hkey hstate => ?_⟩
  · constructor
    · exact hblob
    all_goals
      rw [hother _ (by simp) (by simp)]
      simp [Db.commit, saveBlockDataFromBytes]
  · simp only [mem_cons, not_mem_nil, or_false, not_or] at hkey
    rw [hother key hkey.1 hstate]
    simp [Db.commit, saveBlockDataFromBytes, hkey]

theorem Indexed.commit (hr : Indexed c r) (hsha : Function.Injective c.sha256)
    (hstorable : ∀ block ∈ r.committed, Storable c block) (hblock : Storable c block)
    (hnew : ∀ block' ∈ r.committed, block'.header.header.height ≠ block.header.header.height)
    (hbatch : blockBatch c r.db block.header block.data block.signature state =
      .ok writes) : Indexed c ⟨r.db.commit writes, r.committed ++ [block]⟩ := by
  obtain ⟨blob, rest, hblob, hwrites, hrest⟩ := blockBatch_ok hbatch
  obtain ⟨hholds, hother⟩ := commit_saved r.db hblob hwrites hrest
  -- the blocks stored before are of other heights, and have other blobs
  have hold : ∀ h old, r.db (.header h) = some old →
      h ≠ block.header.header.height ∧ c.sha256 old ≠ c.sha256 blob := by
    intro h old hstored
    obtain ⟨block', hmem, rfl, hholds'⟩ := hr.header h old hstored
    refine ⟨hnew block' hmem, fun heq => hnew block' hmem ?_⟩
    obtain rfl := hsha heq
    obtain ⟨blob₁, henc, hdec⟩ := (hstorable block' hmem).header
    obtain ⟨blob₂, henc', hdec'⟩ := hblock.header
    obtain rfl := some.inj (hholds'.encodes.symm.trans henc)
    obtain rfl := some.inj (hblob.symm.trans henc')
    rw [some.inj (hdec.symm.trans hdec')]
  refine ⟨fun h stored hstored => ?_, fun hash bz hbz => ?_⟩
  · dsimp only at hstored ⊢
    by_cases hh : h = block.header.header.height
    · subst hh
      obtain rfl := some.inj (hholds.header.symm.trans hstored)
      exact ⟨block, by simp, rfl, hholds⟩
    rw [hother _ (by simp [hh]) (by simp)] at hstored
    obtain ⟨block', hmem, rfl, hholds'⟩ := hr.header h stored hstored
    have hne := (hold _ _ hstored).2
    refine ⟨block', mem_append_left _ hmem, rfl, hholds'.encodes, ?_, ?_, ?_, ?_⟩
    · rw [hother _ (by simp [hh]) (by simp)]
      exact hstored
    · rw [hother _ (by simp [hh]) (by simp)]
      exact hholds'.data
    · rw [hother _ (by simp [hh]) (by simp)]
      exact hholds'.signature
    · rw [hother _ (by simp [hne]) (by simp)]
      exact hholds'.index
  · dsimp only at hbz ⊢
    by_cases hhash : hash = c.sha256 blob
    · exact ⟨_, blob, hholds.header, hhash.symm⟩
    rw [hother _ (by simp [hhash]) (by simp)] at hbz
    obtain ⟨h, stored, hstored, heq⟩ := hr.index hash bz hbz
    have hne := (hold h stored hstored).1
    refine ⟨h, stored, ?_, heq⟩
    rw [hother _ (by simp [hne]) (by simp)]
    exact hstored

theorem Indexed.step (hr : Indexed c r) (hsha : Function.Injective c.sha256) {op : ChainOp}
    (hstorable : ∀ block ∈ (r.step c op).committed, Storable c block)
    (hheights : ((r.step c op).committed.map (fun b => b.header.header.height)).Nodup) :
    Indexed c (r.step c op) := by
  have hstored : ∀ block ∈ r.committed, Storable c block := fun block hmem =>
    hstorable block ((committed_grows op).subset hmem)
  cases op with
  | commit block state committed =>
    unfold StoreRun.step at hstorable hheights ⊢
    dsimp only at hstorable hheights ⊢
    rcases hbatch : blockBatch c r.db block.header block.data block.signature state
      with err | writes
    · exact hr
    rw [hbatch] at hstorable hheights
    dsimp only at hstorable hheights ⊢
    by_cases hcommitted : committed = true
    swap
    · rw [if_neg hcommitted]
      exact hr
    rw [if_pos hcommitted] at hstorable hheights ⊢
    refine hr.commit hsha hstored (hstorable block (by simp)) (fun block' hmem => ?_) hbatch
    rw [map_append, nodup_append] at hheights
    exact hheights.2.2 _ (mem_map_of_mem hmem) _ (by simp)
  | rollback height aggregator committed =>
    unfold StoreRun.step
    dsimp only
    rcases hrollback : DefaultStore.rollback c r.db committed height aggregator with err | db
    · exact hr
    · obtain ⟨currentHeight, -, hremoves⟩ := rollback_removes hrollback
      exact hr.removes hsha hstored hremoves
  | pruneBlocks height committed =>
    unfold StoreRun.step
    dsimp only
    rcases hprune : pruneBlocks c r.db committed height with err | db
    · exact hr
    · exact hr.removes hsha hstored (pruneBlocks_removes hprune)
  | setMetadata key value =>
    -- none of the entries of a block is metadata
    have hsame : ∀ k, (∀ m, k ≠ .metadata m) →
        update r.db (.metadata key) value k = r.db k :=
      fun k hk => update_of_ne (hk key) _ _
    refine ⟨fun h blob hblob => ?_, fun hash bz hbz => ?_⟩
    · unfold StoreRun.step at hblob ⊢
      dsimp only at hblob ⊢
      obtain ⟨block, hmem, hh, hholds⟩ := hr.header h blob hblob
      refine ⟨block, hmem, hh, hholds.encodes, ?_, ?_, ?_, ?_⟩
      · exact hholds.header
      · exact hholds.data
      · exact hholds.signature
      · exact hholds.index
    · unfold StoreRun.step at hbz ⊢
      dsimp only at hbz ⊢
      obtain ⟨h, blob, hblob, heq⟩ := hr.index hash bz hbz
      exact ⟨h, blob, (hsame _ (by simp)).trans hblob, heq⟩

theorem Indexed.run (hsha : Function.Injective c.sha256) {ops : List ChainOp} :
    ∀ {r : StoreRun}, Indexed c r →
      (∀ block ∈ (ops.foldl (StoreRun.step c) r).committed, Storable c block) →
      ((ops.foldl (StoreRun.step c) r).committed.map
        (fun b => b.header.header.height)).Nodup →
      Indexed c (ops.foldl (StoreRun.step c) r) := by
  induction ops with
  | nil => exact fun hr _ _ => hr
  | cons op ops ih =>
    intro r hr hstorable hheights
    have hgrows : (r.step c op).committed <+:
        (ops.foldl (StoreRun.step c) (r.step c op)).committed := committed_grows_run ops
    refine ih (hr.step hsha ?_ ?_) hstorable hheights
    · exact fun block hmem => hstorable block (hgrows.subset hmem)
    · exact hheights.sublist (hgrows.sublist.map _)

theorem new_indexed : Indexed c new :=
  ⟨fun _ _ hblob => absurd hblob (by simp [new]), fun _ _ hbz => absurd hbz (by simp [new])⟩

/-! ## Looking up -/

theorem Indexed.getHeightByHash_iff (hr : Indexed c r)
    (hstorable : ∀ block ∈ r.committed, Storable c block) {h : ℕ} :
    getHeightByHash r.db hash = .ok h ↔
      ∃ blob, r.db (.header h) = some blob ∧ c.sha256 blob = hash := by
  -- the entry for a stored blob, decoded
  have hentry : ∀ k blob, r.db (.header k) = some blob →
      getHeightByHash r.db (c.sha256 blob) = .ok k := by
    intro k blob hblob
    obtain ⟨block, hmem, rfl, hholds⟩ := hr.header k blob hblob
    unfold getHeightByHash
    rw [hholds.index]
    dsimp only
    rw [decodeHeight_encodeHeight (hstorable block hmem).height_lt]
  constructor
  · intro hget
    rcases hindex : r.db (.index hash) with _ | bz
    · unfold getHeightByHash at hget
      simp [hindex] at hget
    · obtain ⟨k, blob, hblob, rfl⟩ := hr.index hash bz hindex
      obtain rfl := ok.inj ((hentry k blob hblob).symm.trans hget)
      exact ⟨blob, hblob, rfl⟩
  · rintro ⟨blob, hblob, rfl⟩
    exact hentry h blob hblob

theorem Holds.getBlockData (hholds : Holds c r.db block blob) (hblock : Storable c block) :
    getBlockData c r.db block.header.header.height =
      .ok (block.header, block.data) := by
  obtain ⟨blob', henc, hdec⟩ := hblock.header
  obtain rfl := some.inj (hholds.encodes.symm.trans henc)
  unfold DefaultStore.getBlockData DefaultStore.getHeader
  rw [hholds.header]
  dsimp only
  rw [hdec]
  rw [hholds.data]
  dsimp only
  rw [hblock.data]

theorem Indexed.getBlockByHash_ok (hr : Indexed c r)
    (hstorable : ∀ block ∈ r.committed, Storable c block) {header : SignedHeader}
    {data : Data} (hget : getBlockByHash c r.db hash = .ok (header, data)) :
    ∃ block ∈ r.committed, ∃ blob, Holds c r.db block blob ∧ c.sha256 blob = hash ∧
      block.header = header ∧ block.data = data := by
  unfold getBlockByHash at hget
  rcases hheight : getHeightByHash r.db hash with err | h
  · simp [hheight] at hget
  rw [hheight] at hget
  obtain ⟨blob, hblob, rfl⟩ := (hr.getHeightByHash_iff hstorable).mp hheight
  obtain ⟨block, hmem, rfl, hholds⟩ := hr.header h blob hblob
  have hpair := ok.inj ((hholds.getBlockData (hstorable block hmem)).symm.trans hget)
  exact ⟨block, hmem, blob, hholds, rfl, (Prod.mk.inj hpair).1, (Prod.mk.inj hpair).2⟩

end

section

variable {block : StoredBlock} {blob : Bytes}

theorem Indexed.getBlockByHash_self (hr : Indexed c r)
    (hstorable : ∀ block ∈ r.committed, Storable c block) (hmem : block ∈ r.committed)
    (hholds : Holds c r.db block blob) :
    getBlockByHash c r.db (c.sha256 blob) = .ok (block.header, block.data) := by
  unfold getBlockByHash
  rw [(hr.getHeightByHash_iff hstorable).mpr ⟨blob, hholds.header, rfl⟩]
  exact hholds.getBlockData (hstorable block hmem)

theorem Holds.blob_eq {block' : StoredBlock} {blob' : Bytes} (hholds : Holds c r.db block blob)
    (hholds' : Holds c r.db block' blob')
    (hheight : block'.header.header.height = block.header.header.height) : blob' = blob := by
  have hheader := hholds'.header
  rw [hheight] at hheader
  exact some.inj (hheader.symm.trans hholds.header)

section

variable (hr : Indexed c r) (hstorable : ∀ block ∈ r.committed, Storable c block)
  (hmem : block ∈ r.committed) (hholds : Holds c r.db block blob)
include hr hstorable hmem hholds

theorem Indexed.getBlockByHash_iff (hash : Hash) :
    getBlockByHash c r.db hash = .ok (block.header, block.data) ↔
      c.sha256 blob = hash := by
  constructor
  · intro hget
    obtain ⟨block', -, blob', hholds', rfl, hheader, -⟩ := hr.getBlockByHash_ok hstorable hget
    rw [hholds.blob_eq hholds' (by rw [hheader])]
  · rintro rfl
    exact hr.getBlockByHash_self hstorable hmem hholds

theorem Indexed.header_resolves_iff (p : PendingCache (headerEntity c.toCodec))
    (hgone : p.items.lookup block.header.header.height = none) (hash : Hash) :
    StoreAdapter.Resolves (headerStoreGetter c r.db) p hash block.header ↔
      c.sha256 blob = hash := by
  have hheight : (headerEntity c.toCodec).height block.header =
      some block.header.header.height := rfl
  rw [StoreAdapter.resolves_iff hheight hgone]
  unfold headerStoreGetter
  dsimp only
  constructor
  · rintro ⟨item, hitem, hvalue⟩
    rcases hget : getBlockByHash c r.db hash with err | ⟨header, data⟩
    · rw [hget] at hitem
      exact absurd (ok.inj hitem) (by simp)
    rw [hget] at hitem
    have hheader : header = block.header := by
      rw [← hvalue, ← ok.inj (ok.inj hitem)]
    obtain ⟨block', -, blob', hholds', rfl, hheader', -⟩ := hr.getBlockByHash_ok hstorable hget
    rw [hholds.blob_eq hholds' (by rw [hheader', hheader])]
  · rintro rfl
    rw [hr.getBlockByHash_self hstorable hmem hholds]
    exact ⟨_, rfl, rfl⟩

theorem Indexed.data_resolves_iff (p : PendingCache (dataEntity c.toCodec))
    (hgone : p.items.lookup block.header.header.height = none) (hash : Hash) :
    StoreAdapter.Resolves (dataStoreGetter c r.db) p hash block.data ↔ c.sha256 blob = hash := by
  have hmetadata := (hstorable block hmem).metadata
  have hheight : (dataEntity c.toCodec).height block.data = some block.header.header.height :=
    hmetadata
  rw [StoreAdapter.resolves_iff hheight hgone]
  unfold dataStoreGetter
  dsimp only
  constructor
  · rintro ⟨item, hitem, hvalue⟩
    rcases hget : getBlockByHash c r.db hash with err | ⟨header, data⟩
    · rw [hget] at hitem
      exact absurd (ok.inj hitem) (by simp)
    obtain ⟨block', hmem', blob', hholds', rfl, -, rfl⟩ := hr.getBlockByHash_ok hstorable hget
    rw [hget] at hitem
    dsimp only at hitem
    rcases hnil : block'.data.metadata with _ | metadata
    · simp [hnil] at hitem
    rw [hnil] at hitem
    have hdata : block'.data = block.data := by
      rw [← hvalue, ← ok.inj (ok.inj hitem)]
    have hmetadata' := (hstorable block' hmem').metadata
    rw [hdata, hmetadata] at hmetadata'
    rw [hholds.blob_eq hholds' (some.inj hmetadata').symm]
  · rintro rfl
    rw [hr.getBlockByHash_self hstorable hmem hholds]
    dsimp only
    obtain ⟨metadata, hsome, -⟩ := map_eq_some_iff.mp hmetadata
    rw [hsome]
    exact ⟨_, rfl, rfl⟩

end

end

/-- The block and its signature are found under `hash`, its header item too, and neither under any
other value. -/
structure HeaderFound (c : BlockCodec) (db : Db) (p : PendingCache (headerEntity c.toCodec))
    (block : StoredBlock) (hash : Hash) : Prop where
  found : getBlockByHash c db hash = .ok (block.header, block.data)
  signature : getSignatureByHash db hash = .ok block.signature
  item : StoreAdapter.Resolves (headerStoreGetter c db) p hash block.header
  found_only : ∀ hash', getBlockByHash c db hash' = .ok (block.header, block.data) →
    hash' = hash
  item_only : ∀ hash', StoreAdapter.Resolves (headerStoreGetter c db) p hash' block.header →
    hash' = hash

/-- The data item is found under `hash` and under no other value. -/
structure DataFound (c : BlockCodec) (db : Db) (p : PendingCache (dataEntity c.toCodec))
    (block : StoredBlock) (hash : Hash) : Prop where
  item : StoreAdapter.Resolves (dataStoreGetter c db) p hash block.data
  item_only : ∀ hash', StoreAdapter.Resolves (dataStoreGetter c db) p hash' block.data →
    hash' = hash

/-- After every run of commits of blocks of different heights, rollbacks and prunings, for every
block that is still stored and whose items are no longer pending: it is found under the hash of its
header exactly if that is the hash of its stored blob, and its data under its own hash exactly if
that is. -/
theorem lookup_by_hash_iff (c : BlockCodec) (ops : List ChainOp)
    (hsha : Function.Injective c.sha256)
    (hstorable : ∀ block ∈ (ops.foldl (step c) new).committed, Storable c block)
    (hheights : ((ops.foldl (step c) new).committed.map (fun b => b.header.header.height)).Nodup)
    (block : StoredBlock) (hmem : block ∈ (ops.foldl (step c) new).committed) (blob : Bytes)
    (hblob : c.signedHeaderBytes block.header = some blob)
    (hstored : ((ops.foldl (step c) new).db (.header block.header.header.height)).isSome)
    (headers : PendingCache (headerEntity c.toCodec)) (datas : PendingCache (dataEntity c.toCodec))
    (hheader : headers.items.lookup block.header.header.height = none)
    (hdata : datas.items.lookup block.header.header.height = none) :
    (HeaderFound c (ops.foldl (step c) new).db headers block (c.headerHash block.header.header) ↔
      c.sha256 blob = c.headerHash block.header.header) ∧
    (DataFound c (ops.foldl (step c) new).db datas block (c.dataHash block.data) ↔
      c.sha256 blob = c.dataHash block.data) := by
  have hr := new_indexed.run hsha hstorable hheights
  -- the block of this height that is stored is this one
  obtain ⟨blob', hblob'⟩ := isSome_iff_exists.mp hstored
  obtain ⟨block', hmem', hheight, hholds⟩ := hr.header _ blob' hblob'
  have hsame : block' = block := inj_on_of_nodup_map hheights hmem' hmem hheight
  subst hsame
  obtain rfl := some.inj (hblob.symm.trans hholds.encodes)
  have hblock_iff := hr.getBlockByHash_iff hstorable hmem hholds
  have hheader_iff := hr.header_resolves_iff hstorable hmem hholds headers hheader
  have hdata_iff := hr.data_resolves_iff hstorable hmem hholds datas hdata
  refine ⟨⟨fun hfound => (hblock_iff _).mp hfound.found, fun heq => ?_⟩,
    ⟨fun hfound => (hdata_iff _).mp hfound.item, fun heq => ?_⟩⟩
  · refine ⟨(hblock_iff _).mpr heq, ?_, (hheader_iff _).mpr heq, fun hash' hget => ?_,
      fun hash' hget => ?_⟩
    · have hindex := (hr.getHeightByHash_iff hstorable).mpr ⟨blob, hholds.header, heq⟩
      simp only [getSignatureByHash, hindex, getSignature, hholds.signature]
    · exact ((hblock_iff hash').mp hget).symm.trans heq
    · exact ((hheader_iff hash').mp hget).symm.trans heq
  · refine ⟨(hdata_iff _).mpr heq, fun hash' hget => ?_⟩
    exact ((hdata_iff hash').mp hget).symm.trans heq

/-! ## One block -/

def signedBlock : StoredBlock where
  header := ⟨⟨1, 1, "chain", ⟨0, 0⟩, [], [2], [], [], [7], none⟩, [7, 1], ⟨none, []⟩⟩
  data := ⟨some ⟨"chain", 1, 1, []⟩, [[5]]⟩
  signature := [7, 1]

/-- Field by field, with tag and length, as protobuf writes it: the header in the signed header. -/
def taggedCodec : BlockCodec where
  headerBytes := fun h => [16, UInt8.ofNat h.height]
  headerBytesLegacy := fun h => [16, UInt8.ofNat h.height]
  dataBytes := fun d => d.txs.flatten
  sha256 := id
  signedHeaderBytes := fun h =>
    some ([10, 2, 16, UInt8.ofNat h.header.height, 18, 2] ++ h.signature)
  unmarshalHeader := fun bz =>
    if bz = [10, 2, 16, 1, 18, 2, 7, 1] then some signedBlock.header else none
  unmarshalData := fun bz => if bz = [5] then some signedBlock.data else none
  stateBytes := fun _ => some []

def oneCommit : List ChainOp := [.commit signedBlock State.zero true]

/-- The block has been committed and is there, but not under the hash of its header, nor is its
data under its own hash. -/
theorem block_not_found_by_hash :
    signedBlock ∈ (oneCommit.foldl (step taggedCodec) new).committed ∧
      getBlockData taggedCodec (oneCommit.foldl (step taggedCodec) new).db 1 =
        .ok (signedBlock.header, signedBlock.data) ∧
      getBlockByHash taggedCodec (oneCommit.foldl (step taggedCodec) new).db
        (taggedCodec.headerHash signedBlock.header.header) =
          .error (.notFound (.index (taggedCodec.headerHash signedBlock.header.header))) ∧
      getSignatureByHash (oneCommit.foldl (step taggedCodec) new).db
        (taggedCodec.headerHash signedBlock.header.header) =
          .error (.notFound (.index (taggedCodec.headerHash signedBlock.header.header))) ∧
      StoreAdapter.get (headerStoreGetter taggedCodec (oneCommit.foldl (step taggedCodec) new).db)
        (PendingCache.new : PendingCache (headerEntity taggedCodec.toCodec))
        (taggedCodec.headerHash signedBlock.header.header) = .ok (none, PendingCache.new) ∧
      StoreAdapter.get (dataStoreGetter taggedCodec (oneCommit.foldl (step taggedCodec) new).db)
        (PendingCache.new : PendingCache (dataEntity taggedCodec.toCodec))
        (taggedCodec.dataHash signedBlock.data) = .ok (none, PendingCache.new) :=
  ⟨by decide +kernel, by decide +kernel, by decide +kernel, by decide +kernel, rfl, rfl⟩

theorem lookup_by_hash_iff_of_one :
    (HeaderFound taggedCodec (oneCommit.foldl (step taggedCodec) new).db PendingCache.new
        signedBlock (taggedCodec.headerHash signedBlock.header.header) ↔
      taggedCodec.sha256 [10, 2, 16, 1, 18, 2, 7, 1] =
        taggedCodec.headerHash signedBlock.header.header) ∧
    (DataFound taggedCodec (oneCommit.foldl (step taggedCodec) new).db PendingCache.new
        signedBlock (taggedCodec.dataHash signedBlock.data) ↔
      taggedCodec.sha256 [10, 2, 16, 1, 18, 2, 7, 1] =
        taggedCodec.dataHash signedBlock.data) := by
  have hcommitted : (oneCommit.foldl (step taggedCodec) new).committed = [signedBlock] := by
    decide +kernel
  refine lookup_by_hash_iff taggedCodec oneCommit injective_id ?_ ?_ signedBlock ?_ _ rfl
    (by decide +kernel) PendingCache.new PendingCache.new rfl rfl
  · intro block hmem
    rw [hcommitted, mem_singleton] at hmem
    subst hmem
    exact ⟨⟨_, rfl, by decide⟩, by decide, by decide, rfl⟩
  · exact nodup_singleton _
  · exact mem_singleton_self _

end StoreRun

end ChainSdk

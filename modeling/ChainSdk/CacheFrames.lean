/-
The header and data caches over whole runs: what an operation for one height does to the DA
inclusion of another, and whether a DA inclusion that is known stays known.

Deleting a height, or filing another key for it, takes away the DA inclusion of the key the index
had, whoever else uses it.
-/
import ChainSdk.BlockCache
import ChainSdk.Runs
import ChainSdk.Store

namespace ChainSdk

open BlockCache List Option Runs

/-! ## One operation -/

namespace BlockCache

variable {c : BlockCache} {key : CacheKey} {d h h₁ h₂ : ℕ}

theorem getDAIncludedByHeight_eq (hkey : c.hashByHeight.lookup h = some key) :
    c.getDAIncludedByHeight h = c.getDAIncluded key := by
  unfold getDAIncludedByHeight
  rw [hkey, bind_some]

theorem getDAIncludedByHeight_setSeen (c : BlockCache) (key : CacheKey) (height h : ℕ) :
    (c.setSeen key height).getDAIncludedByHeight h =
      if h = height then c.getDAIncluded key else c.getDAIncludedByHeight h := by
  unfold getDAIncludedByHeight
  rw [lookup_setSeen]
  split_ifs
  · rfl
  · rfl

theorem getDAIncluded_removeDAIncluded (c : BlockCache) (key key' : CacheKey) :
    (c.removeDAIncluded key).getDAIncluded key' =
      if key' = key then none else c.getDAIncluded key' := by
  unfold getDAIncluded removeDAIncluded
  split_ifs with hkey
  · rw [hkey, AList.lookup_erase]
  · rw [AList.lookup_erase_ne hkey]

theorem deleteAllForHeight_frame_iff (hne : h₁ ≠ h₂) :
    (c.deleteAllForHeight h₁).getDAIncludedByHeight h₂ = c.getDAIncludedByHeight h₂ ↔
      ∀ key, c.hashByHeight.lookup h₁ = some key → c.hashByHeight.lookup h₂ = some key →
        c.getDAIncluded key = none := by
  unfold deleteAllForHeight
  rcases hfirst : c.hashByHeight.lookup h₁ with _ | key
  · simp
  have hlookup : (c.hashByHeight.erase h₁).lookup h₂ = c.hashByHeight.lookup h₂ :=
    AList.lookup_erase_ne hne.symm
  rcases hsecond : c.hashByHeight.lookup h₂ with _ | key₂
  · unfold getDAIncludedByHeight
    rw [hlookup, hsecond]
    simp
  rw [getDAIncludedByHeight_eq (hlookup.trans hsecond), getDAIncludedByHeight_eq hsecond]
  have herased := getDAIncluded_removeDAIncluded c key key₂
  unfold removeDAIncluded getDAIncluded at herased
  unfold getDAIncluded
  by_cases hkey : key₂ = key
  · subst hkey
    simp [eq_comm]
  · simp [hkey]

/-- Filing a key for a height leaves that of another alone exactly if neither the key nor the one
it replaces is shared, or if that makes no difference. -/
theorem setDAIncluded_frame_iff (hne : h₁ ≠ h₂) :
    (c.setDAIncluded key d h₁).getDAIncludedByHeight h₂ = c.getDAIncludedByHeight h₂ ↔
      ∀ key₂, c.hashByHeight.lookup h₂ = some key₂ →
        (key₂ = key → c.getDAIncluded key₂ = some d) ∧
        (key₂ ≠ key → c.hashByHeight.lookup h₁ = some key₂ → c.getDAIncluded key₂ = none) := by
  have hlookup : (c.setDAIncluded key d h₁).hashByHeight.lookup h₂ =
      c.hashByHeight.lookup h₂ := by
    rw [lookup_setDAIncluded, if_neg hne.symm]
  rcases hsecond : c.hashByHeight.lookup h₂ with _ | key₂
  · unfold getDAIncludedByHeight
    rw [hlookup, hsecond]
    simp
  rw [getDAIncludedByHeight_eq (hlookup.trans hsecond), getDAIncludedByHeight_eq hsecond]
  have hinserted : (c.setDAIncluded key d h₁).getDAIncluded key₂ =
      if key₂ = key then some d else (c.evictPrevious key h₁).getDAIncluded key₂ := by
    unfold setDAIncluded getDAIncluded setMaxDAHeight
    split_ifs with hkey
    · rw [hkey, AList.lookup_insert]
    · rw [AList.lookup_insert_ne hkey]
  rw [hinserted]
  by_cases hkey : key₂ = key
  · simp [hkey, eq_comm]
  unfold evictPrevious
  rcases hfirst : c.hashByHeight.lookup h₁ with _ | prev
  · simp [hkey]
  dsimp only
  by_cases hprev : prev = key
  · rw [if_neg (not_not.mpr hprev)]
    have hother : prev ≠ key₂ := fun heq => hkey (heq.symm.trans hprev)
    simp [hkey, hother]
  rw [if_pos hprev, getDAIncluded_removeDAIncluded]
  by_cases heq : key₂ = prev
  · subst heq
    rw [eq_comm]
    simp [hprev]
  · simp [heq, Ne.symm heq, hkey]

end BlockCache

/-! ## Runs -/

inductive CacheOp
  | setSeen (hash : Hash) (height : ℕ)
  | setDAIncluded (hash : Hash) (daHeight blockHeight : ℕ)
  | removeDAIncluded (hash : Hash)
  | restoreFromStore (snapshot : List (ℕ × ℕ))
  | deleteAllForHeight (height : ℕ)
  deriving DecidableEq

namespace BlockCache

def apply (c : BlockCache) : CacheOp → BlockCache
  | .setSeen hash height => c.setSeen (.hash hash) height
  | .setDAIncluded hash daHeight blockHeight => c.setDAIncluded (.hash hash) daHeight blockHeight
  | .removeDAIncluded hash => c.removeDAIncluded (.hash hash)
  | .restoreFromStore snapshot => c.restoreFromStore snapshot
  | .deleteAllForHeight height => c.deleteAllForHeight height

end BlockCache

section

variable (K : ℕ → Hash → Prop)

/-- The operation files a hash only under a height that `K` has it for. -/
def CacheOp.Keyed : CacheOp → Prop
  | .setSeen hash height => K height hash
  | .setDAIncluded hash _ blockHeight => K blockHeight hash
  | _ => True

def ContentsApart : Prop := ∀ h₁ h₂ hash, K h₁ hash → K h₂ hash → h₁ = h₂

def StandsFor (h : ℕ) (key : CacheKey) : Prop :=
  key = .placeholder h ∨ ∃ hash, key = .hash hash ∧ K h hash

def BlockCache.Filed (c : BlockCache) : Prop :=
  ∀ h key, c.hashByHeight.lookup h = some key → StandsFor K h key

end

section

variable {K : ℕ → Hash → Prop} {c : BlockCache} {h₁ h₂ : ℕ}

theorem StandsFor.height_eq (hK : ContentsApart K) {key : CacheKey} (h₁key : StandsFor K h₁ key)
    (h₂key : StandsFor K h₂ key) : h₁ = h₂ := by
  rcases h₁key with rfl | ⟨hash, rfl, hhash⟩
  · rcases h₂key with hkey | ⟨hash, hkey, -⟩
    · exact CacheKey.placeholder.inj hkey
    · simp at hkey
  · rcases h₂key with hkey | ⟨hash', hkey, hhash'⟩
    · simp at hkey
    · obtain rfl := CacheKey.hash.inj hkey
      exact hK h₁ h₂ hash hhash hhash'

namespace BlockCache

theorem Filed.new : new.Filed K := by
  intro h key hkey
  exact absurd hkey (by simp [BlockCache.new])

theorem Filed.insert (hc : c.Filed K) {h : ℕ} {key : CacheKey} (hkey : StandsFor K h key) :
    ∀ h' key', (c.hashByHeight.insert h key).lookup h' = some key' → StandsFor K h' key' :=
  forall_lookup_insert hc hkey

theorem Filed.restoreFromStore (hc : c.Filed K) (snapshot : List (ℕ × ℕ)) :
    (c.restoreFromStore snapshot).Filed K := by
  induction snapshot generalizing c with
  | nil => exact hc
  | cons entry snapshot ih => exact ih (hc.insert (.inl rfl))

theorem Filed.apply (hc : c.Filed K) {op : CacheOp} (hop : op.Keyed K) : (c.apply op).Filed K := by
  cases op with
  | setSeen hash height => exact hc.insert (.inr ⟨hash, rfl, hop⟩)
  | setDAIncluded hash daHeight blockHeight =>
    have hevicted : (c.evictPrevious (.hash hash) blockHeight).Filed K := by
      intro h key hkey
      rw [evictPrevious_hashByHeight] at hkey
      exact hc h key hkey
    exact hevicted.insert (.inr ⟨hash, rfl, hop⟩)
  | removeDAIncluded hash => exact hc
  | restoreFromStore snapshot => exact hc.restoreFromStore snapshot
  | deleteAllForHeight height =>
    exact fun h key hkey => hc h key (lookup_deleteAllForHeight hkey)

/-! ## Other heights -/

/-- Neither deleting `h₁` nor filing one of its hashes changes what is known of `h₂`. -/
def Frames (K : ℕ → Hash → Prop) (c : BlockCache) (h₁ h₂ : ℕ) : Prop :=
  (c.deleteAllForHeight h₁).getDAIncludedByHeight h₂ = c.getDAIncludedByHeight h₂ ∧
    ∀ hash d, K h₁ hash →
      (c.setDAIncluded (.hash hash) d h₁).getDAIncludedByHeight h₂ = c.getDAIncludedByHeight h₂

theorem Filed.frames (hc : c.Filed K) (hK : ContentsApart K) (hne : h₁ ≠ h₂) :
    c.Frames K h₁ h₂ := by
  constructor
  · rw [deleteAllForHeight_frame_iff hne]
    intro key hfirst hsecond
    exact absurd ((hc h₁ key hfirst).height_eq hK (hc h₂ key hsecond)) hne
  · intro hash d hhash
    rw [setDAIncluded_frame_iff hne]
    refine fun key₂ hsecond => ⟨fun hkey => ?_, fun _ hfirst => ?_⟩
    · have hkey₁ : StandsFor K h₁ key₂ := .inr ⟨hash, hkey, hhash⟩
      exact absurd (hkey₁.height_eq hK (hc h₂ key₂ hsecond)) hne
    · exact absurd ((hc h₁ key₂ hfirst).height_eq hK (hc h₂ key₂ hsecond)) hne

theorem shared_lost (hash : Hash) (d : ℕ) (hne : h₁ ≠ h₂) :
    ¬ (((new.apply (.setDAIncluded hash d h₁)).apply
      (.setDAIncluded hash d h₂)).deleteAllForHeight h₁).getDAIncludedByHeight h₂ =
      ((new.apply (.setDAIncluded hash d h₁)).apply
        (.setDAIncluded hash d h₂)).getDAIncludedByHeight h₂ := by
  rw [deleteAllForHeight_frame_iff hne]
  intro hnone
  have hincluded := hnone (.hash hash) ?_ ?_
  · exact absurd hincluded (by simp [apply, setDAIncluded, getDAIncluded,
      setMaxDAHeight])
  · unfold apply
    rw [lookup_setDAIncluded, if_neg hne, lookup_setDAIncluded, if_pos rfl]
  · unfold apply
    rw [lookup_setDAIncluded, if_pos rfl]

/-! ## One height -/

/-- The operation is one that may make a cache forget the DA inclusion of the height: its deletion,
or the removal of the hash it is indexed under. -/
def Drops (h : ℕ) (c : BlockCache) (op : CacheOp) : Prop :=
  op = .deleteAllForHeight h ∨
    ∃ hash, op = .removeDAIncluded hash ∧ c.hashByHeight.lookup h = some (.hash hash)

variable {h : ℕ}

theorem known_restoreEntry (hknown : (c.getDAIncludedByHeight h).isSome) (entry : ℕ × ℕ) :
    ((c.restoreEntry entry).getDAIncludedByHeight h).isSome := by
  obtain ⟨d, hd⟩ := isSome_iff_exists.mp hknown
  obtain ⟨key, hkey, hincluded⟩ := bind_eq_some_iff.mp hd
  by_cases hh : h = entry.1
  · have hlookup : (c.restoreEntry entry).hashByHeight.lookup h = some (.placeholder h) := by
      rw [hh]
      exact AList.lookup_insert _
    rw [getDAIncludedByHeight_eq hlookup]
    exact isSome_lookup_insert (.inr (by rw [hh]))
  · have hlookup : (c.restoreEntry entry).hashByHeight.lookup h = some key :=
      (AList.lookup_insert_ne hh).trans hkey
    rw [getDAIncludedByHeight_eq hlookup]
    refine isSome_lookup_insert (.inl ?_)
    exact isSome_iff_exists.mpr ⟨d, hincluded⟩

theorem known_restoreFromStore (hknown : (c.getDAIncludedByHeight h).isSome)
    (snapshot : List (ℕ × ℕ)) : ((c.restoreFromStore snapshot).getDAIncludedByHeight h).isSome := by
  induction snapshot generalizing c with
  | nil => exact hknown
  | cons entry snapshot ih => exact ih (known_restoreEntry hknown entry)

theorem Filed.known_apply_iff (hc : c.Filed K) (hK : ContentsApart K)
    (hknown : (c.getDAIncludedByHeight h).isSome) {op : CacheOp} (hop : op.Keyed K)
    (hkept : ¬ Drops h c op) :
    ((c.apply op).getDAIncludedByHeight h).isSome ↔
      ∀ hash, op = .setSeen hash h → (c.getDAIncluded (.hash hash)).isSome := by
  cases op with
  | setSeen hash height =>
    unfold BlockCache.apply
    rw [getDAIncludedByHeight_setSeen]
    split_ifs with hh
    · subst hh
      constructor
      · rintro hincluded hash' ⟨rfl⟩
        exact hincluded
      · exact fun hseen => hseen hash rfl
    · refine iff_of_true hknown (fun hash' heq => absurd ?_ hh)
      exact (CacheOp.setSeen.inj heq).2.symm
  | setDAIncluded hash daHeight blockHeight =>
    refine iff_of_true ?_ (fun _ heq => absurd heq (by simp))
    unfold BlockCache.apply
    by_cases hh : blockHeight = h
    · rw [hh, getDAIncludedByHeight_setDAIncluded]
      rfl
    · rw [(hc.frames hK hh).2 hash daHeight hop]
      exact hknown
  | removeDAIncluded hash =>
    refine iff_of_true ?_ (fun _ heq => absurd heq (by simp))
    obtain ⟨d, hd⟩ := isSome_iff_exists.mp hknown
    obtain ⟨key, hkey, hincluded⟩ := bind_eq_some_iff.mp hd
    have hother : key ≠ .hash hash := fun heq => hkept (.inr ⟨hash, rfl, heq ▸ hkey⟩)
    have hlookup : (c.removeDAIncluded (.hash hash)).hashByHeight.lookup h = some key := hkey
    unfold BlockCache.apply
    rw [getDAIncludedByHeight_eq hlookup, getDAIncluded_removeDAIncluded, if_neg hother, hincluded]
    rfl
  | restoreFromStore snapshot =>
    exact iff_of_true (known_restoreFromStore hknown snapshot)
      (fun _ heq => absurd heq (by simp))
  | deleteAllForHeight height =>
    refine iff_of_true ?_ (fun _ heq => absurd heq (by simp))
    have hh : height ≠ h := fun heq => hkept (.inl (by rw [heq]))
    unfold BlockCache.apply
    rw [(hc.frames hK hh).1]
    exact hknown

/-- A cache on which operations have been executed that file no hash under two heights, and to
which the DA inclusion of `h` is known: through further such operations, none of which deletes `h`
or removes the hash `h` is indexed under, it stays known if and only if each time `h` is marked as
seen, it is with a hash whose own DA inclusion is known at that point. -/
theorem inclusion_remembered_iff (hK : ContentsApart K) {before ops : List CacheOp}
    (hbefore : ∀ op ∈ before, op.Keyed K) (hops : ∀ op ∈ ops, op.Keyed K)
    (hknown : ((before.foldl apply new).getDAIncludedByHeight h).isSome)
    (hkept : ∀ p ∈ steps apply (before.foldl apply new) ops,
      ¬ Drops h p.1 p.2) :
    (∀ p ∈ steps apply (before.foldl apply new) ops,
        ((p.1.apply p.2).getDAIncludedByHeight h).isSome) ↔
      ∀ p ∈ steps apply (before.foldl apply new) ops, ∀ hash,
        p.2 = .setSeen hash h → (p.1.getDAIncluded (.hash hash)).isSome := by
  have hfiled : (before.foldl apply new).Filed K :=
    foldl_invariant apply (Filed K) (fun _ op => op.Keyed K)
      (fun c op hc hop => hc.apply hop) Filed.new (steps_of_forall hbefore)
  apply steps_safe_iff apply (Filed K)
    (fun c => (c.getDAIncludedByHeight h).isSome)
    (fun c op => op.Keyed K ∧ ¬ Drops h c op)
    (fun c op => ∀ hash, op = .setSeen hash h → (c.getDAIncluded (.hash hash)).isSome)
  · exact fun c op hc hop => hc.apply hop.1
  · exact fun c op hc hop hknown => hc.known_apply_iff hK hknown hop.1 hop.2
  · exact hfiled
  · exact hknown
  · have hkeyed : ∀ p ∈ steps apply (before.foldl apply new) ops,
        p.2.Keyed K := steps_of_forall hops
    exact fun p hp => ⟨hkeyed p hp, hkept p hp⟩

theorem inclusion_remembered_after_apply :
    ((([.setDAIncluded [0] 5 1].foldl apply new).apply
      (.setSeen [0] 1)).getDAIncludedByHeight 1).isSome := by
  have hbefore : ∀ op ∈ [CacheOp.setDAIncluded [0] 5 1],
      op.Keyed (fun h hash => hash.length = h) := by simp [CacheOp.Keyed]
  have hops : ∀ op ∈ [CacheOp.setSeen [0] 1],
      op.Keyed (fun h hash => hash.length = h) := by simp [CacheOp.Keyed]
  have hiff := inclusion_remembered_iff (h := 1)
    (fun h₁ h₂ hash hfirst hsecond => hfirst.symm.trans hsecond) hbefore hops (by decide)
    (by simp [Drops])
  refine hiff.mpr (fun p hp hash heq => ?_) (_, .setSeen [0] 1) mem_cons_self
  obtain rfl := mem_singleton.mp hp
  obtain ⟨rfl, -⟩ := CacheOp.setSeen.inj heq
  decide

/-- After a restart the placeholder of height 1 has the DA inclusion; when the block is applied its
hash takes the place of the placeholder, and the DA inclusion is no longer found. -/
theorem restored_inclusion_forgotten :
    ((new.apply (.restoreFromStore [(1, 5)])).getDAIncludedByHeight 1 = some 5) ∧
      ((new.apply (.restoreFromStore [(1, 5)])).apply
        (.setSeen [7] 1)).getDAIncludedByHeight 1 = none := by
  decide

end BlockCache

end

/-! ## Both caches -/

structure CacheManager where
  headerCache : BlockCache
  dataCache : BlockCache

/-- An operation on one of them; `DeleteHeight` is one on each. -/
inductive ManagerOp
  | header (op : CacheOp)
  | data (op : CacheOp)

namespace CacheManager

/-- `NewManager`, before anything is restored. -/
def new : CacheManager := ⟨.new, .new⟩

def apply (m : CacheManager) : ManagerOp → CacheManager
  | .header op => { m with headerCache := m.headerCache.apply op }
  | .data op => { m with dataCache := m.dataCache.apply op }

section

variable (c : Codec) (blocks : StoredBlock → Prop)

def headerKeys (h : ℕ) (hash : Hash) : Prop :=
  ∃ b, blocks b ∧ b.header.header.height = h ∧ c.headerHash b.header.header = hash

def dataKeys (h : ℕ) (hash : Hash) : Prop :=
  ∃ b, blocks b ∧ b.header.header.height = h ∧ b.data.txs ≠ [] ∧ c.daCommitment b.data.txs = hash

/-- The operations of a node with these blocks. -/
def Issued : ManagerOp → Prop
  | .header op => op.Keyed (headerKeys c blocks)
  | .data op => op.Keyed (dataKeys c blocks)

end

variable {c : Codec} {blocks : StoredBlock → Prop}

theorem filed_run {ops : List ManagerOp} (hops : ∀ op ∈ ops, Issued c blocks op) :
    (ops.foldl apply new).headerCache.Filed (headerKeys c blocks) ∧
      (ops.foldl apply new).dataCache.Filed (dataKeys c blocks) := by
  refine foldl_invariant apply
    (fun m => m.headerCache.Filed (headerKeys c blocks) ∧ m.dataCache.Filed (dataKeys c blocks))
    (fun _ op => Issued c blocks op) ?_ ⟨.new, .new⟩ (steps_of_forall hops)
  rintro m (op | op) ⟨hheader, hdata⟩ hop
  · exact ⟨hheader.apply hop, hdata⟩
  · exact ⟨hheader, hdata.apply hop⟩

/-- In every run of the node, deleting a height and filing a hash for it leave the DA inclusion of
all other heights as it was, in both caches, if and only if no two of its headers of different
heights have one hash and no two of its non-empty blocks of different heights one data
commitment. -/
theorem heights_independent_iff (c : Codec) (blocks : StoredBlock → Prop) :
    (∀ ops : List ManagerOp, (∀ op ∈ ops, Issued c blocks op) → ∀ h₁ h₂, h₁ ≠ h₂ →
      (ops.foldl apply new).headerCache.Frames (headerKeys c blocks) h₁ h₂ ∧
        (ops.foldl apply new).dataCache.Frames (dataKeys c blocks) h₁ h₂) ↔
    ContentsApart (headerKeys c blocks) ∧ ContentsApart (dataKeys c blocks) := by
  constructor
  · intro hframes
    constructor
    · intro h₁ h₂ hash hfirst hsecond
      by_contra hne
      have hlost := (hframes
        [.header (.setDAIncluded hash 0 h₁), .header (.setDAIncluded hash 0 h₂)]
        (by simp [Issued, CacheOp.Keyed, hfirst, hsecond]) h₁ h₂ hne).1.1
      exact shared_lost hash 0 hne hlost
    · intro h₁ h₂ hash hfirst hsecond
      by_contra hne
      have hlost := (hframes
        [.data (.setDAIncluded hash 0 h₁), .data (.setDAIncluded hash 0 h₂)]
        (by simp [Issued, CacheOp.Keyed, hfirst, hsecond]) h₁ h₂ hne).2.1
      exact shared_lost hash 0 hne hlost
  · rintro ⟨hheaders, hdata⟩ ops hops h₁ h₂ hne
    obtain ⟨hheaderFiled, hdataFiled⟩ := filed_run hops
    exact ⟨hheaderFiled.frames hheaders hne, hdataFiled.frames hdata hne⟩

private def plainCodec : Codec where
  headerBytes := fun header => [UInt8.ofNat header.height]
  headerBytesLegacy := fun header => [UInt8.ofNat header.height]
  dataBytes := fun data => data.txs.flatten
  sha256 := id

private def sameTxBlock (height : ℕ) : StoredBlock :=
  ⟨⟨⟨height, 0, "", ⟨0, 0⟩, [], [], [], [], [], none⟩, [], ⟨none, []⟩⟩,
    ⟨some ⟨"", height, 0, []⟩, [[9]]⟩, []⟩

/-- The blocks 1 and 2 have the same transactions and are included at the DA heights 5 and 6. Once
height 1 is deleted the DA inclusion of the data of height 2 is gone. -/
theorem deleting_height_one_loses_two :
    ∃ ops : List ManagerOp,
      (∀ op ∈ ops, Issued plainCodec (fun b => b = sameTxBlock 1 ∨ b = sameTxBlock 2) op) ∧
      (ops.foldl apply new).dataCache.getDAIncludedByHeight 2 = some 6 ∧
      ((ops.foldl apply new).dataCache.deleteAllForHeight 1).getDAIncludedByHeight 2 = none := by
  refine ⟨[.data (.setDAIncluded (plainCodec.daCommitment [[9]]) 5 1),
    .data (.setDAIncluded (plainCodec.daCommitment [[9]]) 6 2)], ?_, by decide, by decide⟩
  simp only [mem_cons, not_mem_nil, or_false, forall_eq_or_imp, forall_eq]
  exact ⟨⟨sameTxBlock 1, .inl rfl, rfl, by decide, rfl⟩,
    ⟨sameTxBlock 2, .inr rfl, rfl, by decide, rfl⟩⟩

end CacheManager

end ChainSdk

/-
What a cache of `block/internal/cache/generic_cache.go` writes to the store, and what a node that
starts again reads from it.

The snapshot has no hashes in it: it is the block heights with a DA height, sixteen bytes each. A
restored cache files each of them under a placeholder, a text made of the height, until the real
hash is seen again.
-/
import ChainSdk.DefaultStore
import ChainSdk.LruCache
import ChainSdk.Runs

namespace ChainSdk

open Function List LruCache Option

/-! ## Numbers and texts as bytes -/

def putUint64 (n : UInt64) : Bytes := encodeHeight n.toNat

/-- `binary.LittleEndian.Uint64`, of the first eight bytes. -/
def uint64LE (bz : Bytes) : UInt64 :=
  UInt64.ofNat (FixedDigits.value 256 ((bz.take 8).reverse.map UInt8.toNat))

@[simp] theorem length_putUint64 (n : UInt64) : (putUint64 n).length = 8 := by
  simp [putUint64, encodeHeight, FixedDigits.digits]

theorem uint64LE_putUint64 (n : UInt64) (rest : Bytes) : uint64LE (putUint64 n ++ rest) = n := by
  have hlength : (encodeHeight n.toNat).length = 8 := length_putUint64 n
  have hround := decodeHeight_encodeHeight n.toNat_lt
  unfold decodeHeight at hround
  rw [if_neg (not_not.mpr hlength)] at hround
  unfold uint64LE putUint64
  rw [take_left' hlength, some.inj hround, UInt64.ofNat_toNat]

/-- One of `"0123456789abcdef"`. -/
def hexDigit (d : ℕ) : UInt8 := if d < 10 then UInt8.ofNat (48 + d) else UInt8.ofNat (87 + d)

theorem hexDigit_injective : ∀ d < 16, ∀ e < 16, hexDigit d = hexDigit e → d = e := by decide

/-- The loop of `HeightPlaceholderKey`, from the last digit to the first. -/
def hexLoop : ℕ → UInt64 → Bytes
  | 0, _ => []
  | count + 1, height => hexLoop count (height >>> 4) ++ [hexDigit (height &&& 0xf).toNat]

def heightPlaceholderKey (keyPrefix : Bytes) (height : UInt64) : Bytes :=
  keyPrefix ++ ([0x5f, 0x5f, 0x68, 0x2f] ++ hexLoop 16 height)

theorem hexLoop_injective {count : ℕ} {h h' : UInt64} (heq : hexLoop count h = hexLoop count h') :
    h.toNat % 16 ^ count = h'.toNat % 16 ^ count := by
  induction count generalizing h h' with
  | zero => rw [Nat.pow_zero, Nat.mod_one, Nat.mod_one]
  | succ count ih =>
    rw [hexLoop, hexLoop] at heq
    obtain ⟨hinit, hlast⟩ := append_inj' heq rfl
    have hlow : ∀ n : UInt64, (n &&& 0xf).toNat = n.toNat % 16 := by
      intro n
      rw [UInt64.toNat_and]
      exact Nat.and_two_pow_sub_one_eq_mod n.toNat 4
    have hhigh : ∀ n : UInt64, (n >>> 4).toNat = n.toNat / 16 := by
      intro n
      rw [UInt64.toNat_shiftRight]
      exact Nat.shiftRight_eq_div_pow n.toNat 4
    have hdigit := hexDigit_injective _ (by rw [hlow]; omega) _ (by rw [hlow]; omega)
      (cons.inj hlast).1
    have hrest := ih hinit
    rw [hlow, hlow] at hdigit
    rw [hhigh, hhigh] at hrest
    rw [Nat.pow_succ', Nat.mod_mul, Nat.mod_mul, hdigit, hrest]

theorem heightPlaceholderKey_injective (keyPrefix : Bytes) :
    Function.Injective (heightPlaceholderKey keyPrefix) := by
  intro h h' heq
  have hdigits := hexLoop_injective (append_cancel_left (append_cancel_left heq))
  rw [Nat.mod_eq_of_lt (by have := h.toNat_lt; omega),
    Nat.mod_eq_of_lt (by have := h'.toNat_lt; omega)] at hdigits
  exact UInt64.toNat_inj.mp hdigits

/-- `Hash.String` of the go-header library: upper-case hexadecimal digits. -/
def hashString (hash : Hash) : Bytes :=
  hash.flatMap fun byte => [upperHexDigit (byte.toNat / 16), upperHexDigit (byte.toNat % 16)]
where
  /-- One of `"0123456789ABCDEF"`. -/
  upperHexDigit (d : ℕ) : UInt8 := if d < 10 then UInt8.ofNat (48 + d) else UInt8.ofNat (55 + d)

theorem upperHexDigit_ne : ∀ d < 16, hashString.upperHexDigit d ≠ 0x5f := by decide

theorem heightPlaceholderKey_ne_hashString (keyPrefix : Bytes) (height : UInt64) (hash : Hash) :
    heightPlaceholderKey keyPrefix height ≠ hashString hash := by
  intro heq
  have hmem : (0x5f : UInt8) ∈ hashString hash := by
    rw [← heq, heightPlaceholderKey]
    simp
  obtain ⟨byte, -, hdigit⟩ := mem_flatMap.mp hmem
  have hbyte := byte.toNat_lt
  rcases mem_pair.mp hdigit with h | h
  · exact upperHexDigit_ne _ (by omega) h.symm
  · exact upperHexDigit_ne _ (by omega) h.symm

/-! ## The snapshot -/

structure SnapshotEntry where
  blockHeight : UInt64
  daHeight : UInt64
  deriving DecidableEq

def snapshotEntrySize : ℕ := 16

section

variable (entries : List SnapshotEntry)

def encodeSnapshot : Bytes :=
  entries.flatMap fun e => putUint64 e.blockHeight ++ putUint64 e.daHeight

def decodeSnapshot (buf : Bytes) : List SnapshotEntry :=
  if buf.length = 0 ∨ buf.length % snapshotEntrySize ≠ 0 then []
  else
    (List.range (buf.length / snapshotEntrySize)).map fun i =>
      ⟨uint64LE (buf.drop (i * snapshotEntrySize)), uint64LE (buf.drop (i * snapshotEntrySize + 8))⟩

theorem encodeSnapshot_cons (e : SnapshotEntry) (entries : List SnapshotEntry) :
    encodeSnapshot (e :: entries) =
      putUint64 e.blockHeight ++ (putUint64 e.daHeight ++ encodeSnapshot entries) := by
  rw [encodeSnapshot, flatMap_cons, append_assoc]
  rfl

theorem length_encodeSnapshot :
    (encodeSnapshot entries).length = entries.length * snapshotEntrySize := by
  induction entries with
  | nil => rfl
  | cons e entries ih =>
    rw [encodeSnapshot_cons, length_append, length_append, length_putUint64,
      length_putUint64, ih, length_cons, snapshotEntrySize]
    omega

theorem drop_encodeSnapshot (i : ℕ) :
    (encodeSnapshot entries).drop (i * snapshotEntrySize) = encodeSnapshot (entries.drop i) := by
  induction i generalizing entries with
  | zero => rw [Nat.zero_mul, drop_zero, drop_zero]
  | succ i ih =>
    cases entries with
    | nil => simp [encodeSnapshot]
    | cons e entries =>
      have hentry : (putUint64 e.blockHeight ++ putUint64 e.daHeight).length =
          snapshotEntrySize := by
        rw [length_append, length_putUint64, length_putUint64]
        rfl
      rw [drop_succ_cons, ← ih, encodeSnapshot_cons, ← append_assoc, Nat.succ_mul,
        Nat.add_comm, ← drop_drop, drop_left' hentry]

theorem decodeSnapshot_encodeSnapshot : decodeSnapshot (encodeSnapshot entries) = entries := by
  have hlength := length_encodeSnapshot entries
  unfold decodeSnapshot
  by_cases hempty : entries = []
  · subst hempty
    rfl
  have hpos := length_pos_iff.mpr hempty
  have hwhole : ¬ ((encodeSnapshot entries).length = 0 ∨
      (encodeSnapshot entries).length % snapshotEntrySize ≠ 0) := by
    rw [hlength, snapshotEntrySize]
    omega
  rw [if_neg hwhole, hlength, Nat.mul_div_cancel _ (by decide)]
  apply ext_getElem
  · rw [length_map, length_range]
  · intro i hi hi'
    rw [getElem_map, getElem_range, ← drop_drop, drop_encodeSnapshot,
      drop_eq_getElem_cons hi', encodeSnapshot_cons, uint64LE_putUint64,
      drop_left' (length_putUint64 _), uint64LE_putUint64]

end

/-! ## The cache -/

def defaultItemsCacheSize : ℕ := 200000

def defaultHashesCacheSize : ℕ := 200000

def defaultDAIncludedCacheSize : ℕ := 200000

structure Cache (T : Type) where
  itemsByHeight : LruCache UInt64 T
  hashes : LruCache Bytes Bool
  daIncluded : LruCache Bytes UInt64
  hashByHeight : LruCache UInt64 Bytes
  maxDAHeight : UInt64
  /-- Whether the cache has a store. -/
  hasStore : Bool
  storeKeyPrefix : Bytes

inductive CacheError
  /-- `reading cache snapshot from store` -/
  | reading
  /-- `saving cache snapshot` -/
  | saving
  deriving DecidableEq

abbrev StoreMetadata := Bytes → Option Bytes

namespace Cache

variable {T : Type}

def new (hasStore : Bool) (keyPrefix : Bytes) : Cache T where
  itemsByHeight := .new defaultItemsCacheSize
  hashes := .new defaultHashesCacheSize
  daIncluded := .new defaultDAIncludedCacheSize
  hashByHeight := .new defaultHashesCacheSize
  maxDAHeight := 0
  hasStore := hasStore
  storeKeyPrefix := keyPrefix

section

variable (c : Cache T)

def snapshotKey : Bytes :=
  c.storeKeyPrefix ++ [0x5f, 0x5f, 0x73, 0x6e, 0x61, 0x70]

def setSeen (hash : Bytes) (height : UInt64) : Cache T :=
  { c with hashes := c.hashes.add hash true, hashByHeight := c.hashByHeight.add height hash }

def getDAIncluded (hash : Bytes) : Option UInt64 × Cache T :=
  let (daHeight, daIncluded) := c.daIncluded.get hash
  (daHeight, { c with daIncluded := daIncluded })

def getDAIncludedByHeight (blockHeight : UInt64) : Option UInt64 × Cache T :=
  match c.hashByHeight.get blockHeight with
  | (none, hashByHeight) => (none, { c with hashByHeight := hashByHeight })
  | (some hash, hashByHeight) => { c with hashByHeight := hashByHeight }.getDAIncluded hash

def setMaxDAHeight (daHeight : UInt64) : Cache T :=
  if daHeight ≤ c.maxDAHeight then c else { c with maxDAHeight := daHeight }

def daHeight : UInt64 := c.maxDAHeight

def removeDAIncluded (hash : Bytes) : Cache T :=
  { c with daIncluded := c.daIncluded.remove hash }

/-- The first step of `setDAIncluded`. -/
def evictPrevious (hash : Bytes) (blockHeight : UInt64) : Cache T :=
  match c.hashByHeight.get blockHeight with
  | (none, hashByHeight) => { c with hashByHeight := hashByHeight }
  | (some prev, hashByHeight) =>
    if prev ≠ hash then { c with hashByHeight := hashByHeight }.removeDAIncluded prev
    else { c with hashByHeight := hashByHeight }

/-- The three lines `setDAIncluded` and `RestoreFromStore` have in common. -/
def fileDAIncluded (hash : Bytes) (daHeight blockHeight : UInt64) : Cache T :=
  { c with
    daIncluded := c.daIncluded.add hash daHeight
    hashByHeight := c.hashByHeight.add blockHeight hash }.setMaxDAHeight daHeight

def setDAIncluded (hash : Bytes) (daHeight blockHeight : UInt64) : Cache T :=
  (c.evictPrevious hash blockHeight).fileDAIncluded hash daHeight blockHeight

def deleteAllForHeight (height : UInt64) : Cache T :=
  let c := { c with itemsByHeight := c.itemsByHeight.remove height }
  match c.hashByHeight.get height with
  | (none, hashByHeight) => { c with hashByHeight := hashByHeight }
  | (some hash, hashByHeight) =>
    { c with
      hashByHeight := hashByHeight.remove height
      hashes := c.hashes.remove hash
      daIncluded := c.daIncluded.remove hash }

/-- The entries `persistSnapshot` collects: `Keys` and `Peek`, which touch nothing. -/
def snapshotEntries : List SnapshotEntry :=
  c.hashByHeight.keys.filterMap fun h =>
    ((c.hashByHeight.lookup h).bind c.daIncluded.lookup).map fun daHeight => ⟨h, daHeight⟩

def saveToStore (writable : Bool) (db : StoreMetadata) : Except CacheError StoreMetadata :=
  if c.hasStore = false ∨ c.storeKeyPrefix = [] then .ok db
  else if writable = false then .error .saving
  else .ok (update db c.snapshotKey (some (encodeSnapshot c.snapshotEntries)))

def restoreEntry (e : SnapshotEntry) : Cache T :=
  c.fileDAIncluded (heightPlaceholderKey c.storeKeyPrefix e.blockHeight) e.daHeight e.blockHeight

def restoreFromStore (readable : Bool) (db : StoreMetadata) : Except CacheError (Cache T) :=
  if c.hasStore = false ∨ c.storeKeyPrefix = [] then .ok c
  else if readable = false then .error .reading
  else
    match db c.snapshotKey with
    | none => .ok c
    | some buf => .ok ((decodeSnapshot buf).foldl restoreEntry c)

inductive Call
  | setSeen (hash : Bytes) (height : UInt64)
  | getDAIncluded (hash : Bytes)
  | getDAIncludedByHeight (blockHeight : UInt64)
  | setDAIncluded (hash : Bytes) (daHeight blockHeight : UInt64)
  | removeDAIncluded (hash : Bytes)
  | deleteAllForHeight (height : UInt64)

def apply : Call → Cache T
  | .setSeen hash height => c.setSeen hash height
  | .getDAIncluded hash => (c.getDAIncluded hash).2
  | .getDAIncludedByHeight blockHeight => (c.getDAIncludedByHeight blockHeight).2
  | .setDAIncluded hash daHeight blockHeight => c.setDAIncluded hash daHeight blockHeight
  | .removeDAIncluded hash => c.removeDAIncluded hash
  | .deleteAllForHeight height => c.deleteAllForHeight height

end

/-! ## What every call keeps -/

/-- The two maps are sound, the maximum is above all that is in them, and the snapshot has its
place in the store. -/
structure Sound (keyPrefix : Bytes) (c : Cache T) : Prop where
  index : c.hashByHeight.Sound
  index_capacity : c.hashByHeight.capacity = defaultHashesCacheSize
  included : c.daIncluded.Sound
  bounded : ∀ hash d, c.daIncluded.lookup hash = some d → d ≤ c.maxDAHeight
  hasStore_eq : c.hasStore = true
  prefix_eq : c.storeKeyPrefix = keyPrefix

variable {keyPrefix : Bytes} {c : Cache T}

theorem setMaxDAHeight_eq (c : Cache T) (d : UInt64) :
    ∃ m, c.setMaxDAHeight d = { c with maxDAHeight := m } ∧
      (m = c.maxDAHeight ∧ d ≤ c.maxDAHeight ∨ m = d ∧ c.maxDAHeight ≤ d) := by
  unfold setMaxDAHeight
  split_ifs with hle
  · exact ⟨c.maxDAHeight, rfl, .inl ⟨rfl, hle⟩⟩
  · exact ⟨d, rfl, .inr ⟨rfl, UInt64.le_of_lt (UInt64.not_le.mp hle)⟩⟩

theorem Sound.new (keyPrefix : Bytes) : (new true keyPrefix : Cache T).Sound keyPrefix :=
  ⟨.new _, rfl, .new _, fun hash d hd => absurd hd (by simp [Cache.new]), rfl, rfl⟩

section

variable (hc : c.Sound keyPrefix)
include hc

theorem Sound.index_get (h : UInt64) :
    Sound keyPrefix { c with hashByHeight := (c.hashByHeight.get h).2 } :=
  ⟨hc.index.get h, (c.hashByHeight.capacity_get h).trans hc.index_capacity, hc.included,
    hc.bounded, hc.hasStore_eq, hc.prefix_eq⟩

theorem Sound.getDAIncluded (hash : Bytes) :
    (c.getDAIncluded hash).2.Sound keyPrefix := by
  refine ⟨hc.index, hc.index_capacity, hc.included.get hash, ?_, hc.hasStore_eq, hc.prefix_eq⟩
  intro hash' d hd
  exact hc.bounded hash' d ((c.daIncluded.lookup_get hash hash').symm.trans hd)

theorem Sound.removeDAIncluded (hash : Bytes) :
    (c.removeDAIncluded hash).Sound keyPrefix := by
  refine ⟨hc.index, hc.index_capacity, hc.included.remove hash, ?_, hc.hasStore_eq, hc.prefix_eq⟩
  intro hash' d hd
  by_cases hne : hash' = hash
  · subst hne
    exact absurd (lookup_remove_self.symm.trans hd) (by simp)
  · exact hc.bounded hash' d ((lookup_remove_of_ne hne).symm.trans hd)

theorem Sound.fileDAIncluded (hash : Bytes) (d h : UInt64) :
    (c.fileDAIncluded hash d h).Sound keyPrefix := by
  unfold Cache.fileDAIncluded
  obtain ⟨m, heq, hmax⟩ := setMaxDAHeight_eq
    { c with
      daIncluded := c.daIncluded.add hash d
      hashByHeight := c.hashByHeight.add h hash } d
  rw [heq]
  refine ⟨hc.index.add h hash, hc.index_capacity, hc.included.add hash d, ?_, hc.hasStore_eq,
    hc.prefix_eq⟩
  intro hash' d' hd'
  rcases lookup_add hd' with ⟨-, rfl⟩ | hlookup
  · rcases hmax with ⟨rfl, hle⟩ | ⟨rfl, -⟩
    · exact hle
    · exact UInt64.le_refl m
  · have hold := hc.bounded hash' d' hlookup
    rcases hmax with ⟨rfl, -⟩ | ⟨rfl, hle⟩
    · exact hold
    · exact UInt64.le_trans hold hle

theorem Sound.apply (call : Call) : (c.apply call).Sound keyPrefix := by
  cases call with
  | setSeen hash height =>
    exact ⟨hc.index.add height hash, hc.index_capacity, hc.included, hc.bounded,
      hc.hasStore_eq, hc.prefix_eq⟩
  | getDAIncluded hash => exact hc.getDAIncluded hash
  | getDAIncludedByHeight blockHeight =>
    rw [Cache.apply, Cache.getDAIncludedByHeight]
    have hget := hc.index_get blockHeight
    generalize c.hashByHeight.get blockHeight = got at hget ⊢
    rcases got with ⟨_ | hash, index⟩
    · exact hget
    · exact hget.getDAIncluded hash
  | setDAIncluded hash daHeight blockHeight =>
    rw [Cache.apply, Cache.setDAIncluded, Cache.evictPrevious]
    have hget := hc.index_get blockHeight
    generalize c.hashByHeight.get blockHeight = got at hget ⊢
    rcases got with ⟨_ | prev, index⟩
    · exact hget.fileDAIncluded hash daHeight blockHeight
    · dsimp only
      split_ifs
      · exact (hget.removeDAIncluded prev).fileDAIncluded hash daHeight blockHeight
      · exact hget.fileDAIncluded hash daHeight blockHeight
  | removeDAIncluded hash => exact hc.removeDAIncluded hash
  | deleteAllForHeight height =>
    rw [Cache.apply, Cache.deleteAllForHeight]
    have hget := hc.index_get height
    generalize c.hashByHeight.get height = got at hget ⊢
    rcases got with ⟨_ | hash, index⟩
    · exact ⟨hget.index, hget.index_capacity, hget.included, hget.bounded, hget.hasStore_eq,
        hget.prefix_eq⟩
    · have hremoved := hget.removeDAIncluded hash
      exact ⟨hget.index.remove height, hget.index_capacity, hremoved.included,
        hremoved.bounded, hget.hasStore_eq, hget.prefix_eq⟩

end

/-! ## Saving and restoring -/

theorem getDAIncludedByHeight_fst (c : Cache T) (h : UInt64) :
    (c.getDAIncludedByHeight h).1 = (c.hashByHeight.lookup h).bind c.daIncluded.lookup := by
  rw [← get_fst, getDAIncludedByHeight]
  rcases c.hashByHeight.get h with ⟨_ | hash, index⟩
  · rfl
  · exact get_fst _ hash

theorem Sound.mem_snapshotEntries_iff (hc : c.Sound keyPrefix) {h d : UInt64} :
    ⟨h, d⟩ ∈ c.snapshotEntries ↔ (c.getDAIncludedByHeight h).1 = some d := by
  rw [getDAIncludedByHeight_fst, snapshotEntries, mem_filterMap]
  constructor
  · rintro ⟨h', -, hentry⟩
    obtain ⟨d', hd', heq⟩ := map_eq_some_iff.mp hentry
    obtain ⟨rfl, rfl⟩ := SnapshotEntry.mk.inj heq
    exact hd'
  · intro hd
    refine ⟨h, ?_, by rw [hd]; rfl⟩
    obtain ⟨hash, hlookup, -⟩ := bind_eq_some_iff.mp hd
    rw [LruCache.keys, mem_reverse]
    exact mem_map_of_mem (hc.index.mem_iff.mpr hlookup)

theorem Sound.snapshotEntries_nodup (hc : c.Sound keyPrefix) :
    (c.snapshotEntries.map SnapshotEntry.blockHeight).Nodup ∧
      c.snapshotEntries.length ≤ defaultHashesCacheSize := by
  have hsub : ∀ (daHeight : UInt64 → Option UInt64) (keys : List UInt64),
      ((keys.filterMap fun h => (daHeight h).map fun d => (⟨h, d⟩ : SnapshotEntry)).map
        SnapshotEntry.blockHeight).Sublist keys := by
    intro daHeight keys
    induction keys with
    | nil => exact List.Sublist.refl []
    | cons h keys ih =>
      rw [filterMap_cons]
      rcases daHeight h with _ | d
      · exact ih.cons h
      · exact ih.cons_cons h
  refine ⟨(nodup_reverse.mpr hc.index.nodup).sublist (hsub _ _), ?_⟩
  refine (length_filterMap_le _ _).trans ?_
  rw [LruCache.keys, length_reverse, length_map, ← hc.index_capacity]
  exact hc.index.length_le

structure Restored (keyPrefix : Bytes) (entries : List SnapshotEntry) (c : Cache T) : Prop where
  sound : c.Sound keyPrefix
  included : c.daIncluded = ⟨defaultDAIncludedCacheSize,
    (entries.map fun e => (heightPlaceholderKey keyPrefix e.blockHeight, e.daHeight)).reverse⟩
  index : c.hashByHeight = ⟨defaultHashesCacheSize,
    (entries.map fun e => (e.blockHeight, heightPlaceholderKey keyPrefix e.blockHeight)).reverse⟩
  max_mem : entries = [] ∧ c.maxDAHeight = 0 ∨ ∃ e ∈ entries, c.maxDAHeight = e.daHeight

theorem restored_foldl (keyPrefix : Bytes) (entries : List SnapshotEntry)
    (hnodup : (entries.map SnapshotEntry.blockHeight).Nodup)
    (hlength : entries.length ≤ defaultHashesCacheSize) :
    Restored keyPrefix entries (entries.foldl restoreEntry (new true keyPrefix : Cache T)) := by
  induction entries using List.reverseRecOn with
  | nil => exact ⟨.new keyPrefix, rfl, rfl, .inl ⟨rfl, rfl⟩⟩
  | append_singleton entries e ih =>
    rw [length_append, length_singleton] at hlength
    rw [map_append, nodup_append] at hnodup
    obtain ⟨hsound, hincluded, hindex, hmax⟩ := ih hnodup.1 (by omega)
    have hnew : e.blockHeight ∉ entries.map SnapshotEntry.blockHeight := fun hmem =>
      hnodup.2.2 _ hmem _ (by simp) rfl
    rw [foldl_append, foldl_cons, foldl_nil]
    generalize entries.foldl restoreEntry (new true keyPrefix : Cache T) = c at *
    -- neither the height nor its placeholder is there yet, and there is room for both
    have hkey : heightPlaceholderKey keyPrefix e.blockHeight ∉
        c.daIncluded.entries.map Prod.fst := by
      rw [hincluded, List.map_reverse, List.mem_reverse, List.map_map]
      intro hmem
      obtain ⟨e', he', heq⟩ := mem_map.mp hmem
      have hheight := heightPlaceholderKey_injective keyPrefix heq
      exact hnew (hheight ▸ mem_map_of_mem he')
    have hheight : e.blockHeight ∉ c.hashByHeight.entries.map Prod.fst := by
      rw [hindex, List.map_reverse, List.mem_reverse, List.map_map]
      exact hnew
    have hadd := add_of_notMem hkey
      (by rw [hincluded, length_reverse, length_map]; exact hlength) e.daHeight
    have hadd' := add_of_notMem hheight
      (by rw [hindex, length_reverse, length_map]; exact hlength)
      (heightPlaceholderKey keyPrefix e.blockHeight)
    have hfiled := hsound.fileDAIncluded (heightPlaceholderKey keyPrefix e.blockHeight) e.daHeight
      e.blockHeight
    rw [restoreEntry, hsound.prefix_eq]
    unfold fileDAIncluded at hfiled ⊢
    obtain ⟨m, heq, hm⟩ := setMaxDAHeight_eq
      { c with
        daIncluded := c.daIncluded.add (heightPlaceholderKey keyPrefix e.blockHeight) e.daHeight
        hashByHeight := c.hashByHeight.add e.blockHeight
          (heightPlaceholderKey keyPrefix e.blockHeight) } e.daHeight
    rw [heq] at hfiled ⊢
    refine ⟨hfiled, ?_, ?_, .inr ?_⟩
    · dsimp only
      rw [hadd, hincluded]
      simp
    · dsimp only
      rw [hadd', hindex]
      simp
    rcases hm with ⟨rfl, hle⟩ | ⟨rfl, -⟩
    · rcases hmax with ⟨-, hzero⟩ | ⟨e', he', hmax⟩
      · refine ⟨e, by simp, ?_⟩
        dsimp only at hle ⊢
        rw [hzero] at hle ⊢
        exact (UInt64.le_zero_iff.mp hle).symm
      · exact ⟨e', by simp [he'], hmax⟩
    · exact ⟨e, by simp, rfl⟩

theorem Restored.snapshotEntries_eq {entries : List SnapshotEntry}
    (hc : Restored keyPrefix entries c) : c.snapshotEntries = entries := by
  have hkeys : c.hashByHeight.keys = entries.map SnapshotEntry.blockHeight := by
    rw [LruCache.keys, hc.index, List.map_reverse, List.reverse_reverse, List.map_map]
    rfl
  have hentry : ∀ e ∈ entries, ((c.hashByHeight.lookup e.blockHeight).bind
      c.daIncluded.lookup).map (fun d => (⟨e.blockHeight, d⟩ : SnapshotEntry)) = some e := by
    intro e he
    have hindex : c.hashByHeight.lookup e.blockHeight =
        some (heightPlaceholderKey keyPrefix e.blockHeight) := by
      apply hc.sound.index.mem_iff.mp
      rw [hc.index, mem_reverse]
      exact mem_map_of_mem he
    have hincluded : c.daIncluded.lookup (heightPlaceholderKey keyPrefix e.blockHeight) =
        some e.daHeight := by
      apply hc.sound.included.mem_iff.mp
      rw [hc.included, mem_reverse]
      exact mem_map_of_mem he
    rw [hindex, bind_some, hincluded]
    rfl
  rw [snapshotEntries, hkeys, filterMap_map]
  conv_rhs => rw [← filterMap_some (l := entries)]
  exact filterMap_congr hentry

theorem Sound.le_daHeight (hc : c.Sound keyPrefix) {h d : UInt64}
    (hd : (c.getDAIncludedByHeight h).1 = some d) : d ≤ c.daHeight := by
  rw [getDAIncludedByHeight_fst] at hd
  obtain ⟨hash, -, hlookup⟩ := bind_eq_some_iff.mp hd
  exact hc.bounded hash d hlookup

theorem Sound.saveToStore_eq (hc : c.Sound keyPrefix) (hkeyPrefix : keyPrefix ≠ [])
    (db : StoreMetadata) :
    c.saveToStore true db = .ok (update db (Cache.new true keyPrefix : Cache T).snapshotKey
      (some (encodeSnapshot c.snapshotEntries))) := by
  have hkey : c.snapshotKey = (Cache.new true keyPrefix : Cache T).snapshotKey := by
    rw [snapshotKey, hc.prefix_eq]
    rfl
  simp [saveToStore, hc.hasStore_eq, hc.prefix_eq, hkeyPrefix, hkey]

/-- What is saved after any calls, also where the maps have forgotten something, is restored by a
new cache with the same prefix as far as it can be asked for by height, and with the greatest of its
DA heights. Saving and restoring that cache changes nothing more. -/
theorem snapshot_round_trip (keyPrefix : Bytes) (hkeyPrefix : keyPrefix ≠ []) (calls : List Call)
    (db : StoreMetadata) :
    let c := calls.foldl apply (new true keyPrefix : Cache T)
    ∃ (saved : StoreMetadata) (restored : Cache T), c.saveToStore true db = .ok saved ∧
      (new true keyPrefix).restoreFromStore true saved = .ok restored ∧
      (∀ h, (restored.getDAIncludedByHeight h).1 = (c.getDAIncludedByHeight h).1) ∧
      (∀ h d, (c.getDAIncludedByHeight h).1 = some d → d ≤ restored.daHeight) ∧
      ((∃ h, (c.getDAIncludedByHeight h).1 = some restored.daHeight) ∨
        (∀ h, (c.getDAIncludedByHeight h).1 = none) ∧ restored.daHeight = 0) ∧
      restored.daHeight ≤ c.daHeight ∧
      restored.saveToStore true saved = .ok saved ∧
      Function.Injective (heightPlaceholderKey keyPrefix) ∧
      ∀ h hash, heightPlaceholderKey keyPrefix h ≠ hashString hash := by
  intro c
  have hc : c.Sound keyPrefix := Runs.foldl_invariant apply (Sound keyPrefix) (fun _ _ => True)
    (fun s call hs _ => hs.apply call) (.new keyPrefix) (fun _ _ => trivial)
  obtain ⟨hnodup, hlength⟩ := hc.snapshotEntries_nodup
  have hrestored := restored_foldl (T := T) keyPrefix c.snapshotEntries hnodup hlength
  generalize heq : c.snapshotEntries.foldl restoreEntry (new true keyPrefix) = restored at hrestored
  have hsame : ∀ h, (restored.getDAIncludedByHeight h).1 = (c.getDAIncludedByHeight h).1 := by
    intro h
    apply Option.ext
    intro d
    rw [← hrestored.sound.mem_snapshotEntries_iff, hrestored.snapshotEntries_eq,
      hc.mem_snapshotEntries_iff]
  have hmax : (∃ h, (c.getDAIncludedByHeight h).1 = some restored.daHeight) ∨
      (∀ h, (c.getDAIncludedByHeight h).1 = none) ∧ restored.daHeight = 0 := by
    rcases hrestored.max_mem with ⟨hnil, hzero⟩ | ⟨e, he, hmem⟩
    · refine .inr ⟨fun h => eq_none_iff_forall_not_mem.mpr fun d hd => ?_, hzero⟩
      have hentry := hc.mem_snapshotEntries_iff.mpr hd
      simp [hnil] at hentry
    · exact .inl ⟨e.blockHeight, hc.mem_snapshotEntries_iff.mp (by rw [daHeight, hmem]; exact he)⟩
  refine ⟨_, restored, hc.saveToStore_eq hkeyPrefix db, ?_, hsame, ?_, hmax, ?_, ?_,
    heightPlaceholderKey_injective keyPrefix, heightPlaceholderKey_ne_hashString keyPrefix⟩
  · have hpersistent : ¬ ((new true keyPrefix : Cache T).hasStore = false ∨
        (new true keyPrefix : Cache T).storeKeyPrefix = []) := by simp [new, hkeyPrefix]
    rw [restoreFromStore, if_neg hpersistent, if_neg (by decide), update_self]
    dsimp only
    rw [decodeSnapshot_encodeSnapshot, heq]
  · exact fun h d hd => hrestored.sound.le_daHeight ((hsame h).trans hd)
  · rcases hmax with ⟨h, hd⟩ | ⟨-, hzero⟩
    · exact hc.le_daHeight hd
    · rw [hzero]
      exact UInt64.zero_le
  · rw [hrestored.sound.saveToStore_eq hkeyPrefix, hrestored.snapshotEntries_eq,
      update_idem]

theorem snapshot_round_trip_of_three :
    let c := [.setSeen [1] 1, .setDAIncluded [1] 7 1, .setDAIncluded [2] 9 2, .setSeen [3] 3,
      .deleteAllForHeight 2].foldl apply (new true [0x63] : Cache Unit)
    ∃ (saved : StoreMetadata) (restored : Cache Unit),
      c.saveToStore true (fun _ => none) = .ok saved ∧
      (new true [0x63]).restoreFromStore true saved = .ok restored ∧
      (restored.getDAIncludedByHeight 1).1 = some 7 ∧
      (restored.getDAIncludedByHeight 2).1 = none ∧ restored.daHeight ≤ c.daHeight := by
  intro c
  obtain ⟨saved, restored, hsaved, hrestored, hsame, -, -, hle, -⟩ :=
    snapshot_round_trip [0x63] (by decide) [.setSeen [1] 1, .setDAIncluded [1] 7 1,
      .setDAIncluded [2] 9 2, .setSeen [3] 3, .deleteAllForHeight 2] (fun _ => none)
  exact ⟨saved, restored, hsaved, hrestored, (hsame 1).trans rfl, (hsame 2).trans rfl, hle⟩

end Cache

end ChainSdk

/-
The cache of `block/internal/cache/generic_cache.go` a node keeps for headers and, in a second copy,
for data.

DA inclusion is filed under hashes and asked for by height, so that everything the callers learn
goes through the index from heights to hashes.
-/
import ChainSdk.Types
import Mathlib.Data.Finset.Erase
import Mathlib.Data.Finset.Insert

namespace ChainSdk

open Option

/-- A key of the cache: a header hash or data commitment as a string, or the text
`HeightPlaceholderKey` makes for a height whose hash is not known. -/
inductive CacheKey
  | hash (h : Hash)
  | placeholder (height : ℕ)
  deriving DecidableEq

/-- `Cache`, without its items by height. -/
structure BlockCache where
  hashes : Finset CacheKey
  /-- DA height by hash. -/
  daIncluded : AList (fun _ : CacheKey => ℕ)
  /-- Hash by block height. -/
  hashByHeight : AList (fun _ : ℕ => CacheKey)
  maxDAHeight : ℕ

variable (c : BlockCache) (key : CacheKey) (d height : ℕ)

namespace BlockCache

def new : BlockCache := ⟨∅, ∅, ∅, 0⟩

section

variable (c : BlockCache)

def isSeen (key : CacheKey) : Bool := decide (key ∈ c.hashes)

def setSeen (key : CacheKey) (height : ℕ) : BlockCache :=
  { c with
    hashes := insert key c.hashes
    hashByHeight := c.hashByHeight.insert height key }

def getDAIncluded (key : CacheKey) : Option ℕ := c.daIncluded.lookup key

def getDAIncludedByHeight (blockHeight : ℕ) : Option ℕ :=
  (c.hashByHeight.lookup blockHeight).bind c.getDAIncluded

def setMaxDAHeight (daHeight : ℕ) : BlockCache :=
  { c with maxDAHeight := max c.maxDAHeight daHeight }

def removeDAIncluded (key : CacheKey) : BlockCache :=
  { c with daIncluded := c.daIncluded.erase key }

/-- The first step of `setDAIncluded`: another key that stands for the height loses its DA
inclusion. -/
def evictPrevious (key : CacheKey) (blockHeight : ℕ) : BlockCache :=
  match c.hashByHeight.lookup blockHeight with
  | none => c
  | some prev => if prev ≠ key then c.removeDAIncluded prev else c

def setDAIncluded (key : CacheKey) (daHeight blockHeight : ℕ) : BlockCache :=
  let c := c.evictPrevious key blockHeight
  { c with
    daIncluded := c.daIncluded.insert key daHeight
    hashByHeight := c.hashByHeight.insert blockHeight key }.setMaxDAHeight daHeight

def daHeight : ℕ := c.maxDAHeight

def deleteAllForHeight (height : ℕ) : BlockCache :=
  match c.hashByHeight.lookup height with
  | none => c
  | some key =>
    { c with
      hashByHeight := c.hashByHeight.erase height
      hashes := c.hashes.erase key
      daIncluded := c.daIncluded.erase key }

def restoreEntry (entry : ℕ × ℕ) : BlockCache :=
  { c with
    daIncluded := c.daIncluded.insert (.placeholder entry.1) entry.2
    hashByHeight := c.hashByHeight.insert entry.1 (.placeholder entry.1) }.setMaxDAHeight
    entry.2

def restoreFromStore (snapshot : List (ℕ × ℕ)) : BlockCache :=
  snapshot.foldl restoreEntry c

def seedDAHeight (daHeight : Option ℕ) : BlockCache :=
  match daHeight with
  | none => c
  | some daHeight => c.setMaxDAHeight daHeight

def snapshot : List (ℕ × ℕ) :=
  c.hashByHeight.entries.filterMap
    (fun entry => (c.daIncluded.lookup entry.2).map (fun daHeight => (entry.1, daHeight)))

/-! ## What each call does to the two maps -/

@[simp] theorem setMaxDAHeight_hashByHeight :
    (c.setMaxDAHeight d).hashByHeight = c.hashByHeight := rfl

@[simp] theorem seedDAHeight_hashes (d : Option ℕ) :
    (c.seedDAHeight d).hashes = c.hashes := by
  cases d with
  | none | some d => rfl

@[simp] theorem evictPrevious_hashByHeight :
    (c.evictPrevious key height).hashByHeight = c.hashByHeight := by
  unfold evictPrevious
  split
  · rfl
  · split_ifs <;> rfl

theorem lookup_setSeen (h : ℕ) :
    (c.setSeen key height).hashByHeight.lookup h =
      if h = height then some key else c.hashByHeight.lookup h := by
  unfold setSeen
  by_cases hh : h = height
  · rw [if_pos hh, hh, AList.lookup_insert]
  · rw [if_neg hh, AList.lookup_insert_ne hh]

theorem lookup_setDAIncluded (daHeight blockHeight h : ℕ) :
    (c.setDAIncluded key daHeight blockHeight).hashByHeight.lookup h =
      if h = blockHeight then some key else c.hashByHeight.lookup h := by
  unfold setDAIncluded
  by_cases hh : h = blockHeight
  · rw [if_pos hh, hh, setMaxDAHeight_hashByHeight, AList.lookup_insert]
  · rw [if_neg hh, setMaxDAHeight_hashByHeight, AList.lookup_insert_ne hh,
      evictPrevious_hashByHeight]

theorem getDAIncludedByHeight_setDAIncluded (key : CacheKey) (d height : ℕ) :
    (c.setDAIncluded key d height).getDAIncludedByHeight height = some d := by
  unfold getDAIncludedByHeight
  rw [lookup_setDAIncluded, if_pos rfl]
  exact AList.lookup_insert _

theorem lookup_deleteAllForHeight {c : BlockCache} {height h : ℕ} {key : CacheKey}
    (hkey : (c.deleteAllForHeight height).hashByHeight.lookup h = some key) :
    c.hashByHeight.lookup h = some key := by
  unfold deleteAllForHeight at hkey
  split at hkey
  · exact hkey
  · exact lookup_of_lookup_erase hkey

/-! ## Where DA inclusions come from -/

def Backed (P : Hash → ℕ → Prop) : Prop :=
  ∀ key d, c.getDAIncluded key = some d → ∃ hash, key = .hash hash ∧ P hash d

def PointsTo (height : ℕ) (hash : Hash) : Prop :=
  ∀ key, c.hashByHeight.lookup height = some key → key = .hash hash

end

section

variable {c : BlockCache} {P Q : Hash → ℕ → Prop} {hash : Hash} {d height h : ℕ}
  {key : CacheKey}

theorem Backed.getDAIncludedByHeight (hc : c.Backed P) (hpoints : c.PointsTo height hash)
    (hd : c.getDAIncludedByHeight height = some d) : P hash d := by
  obtain ⟨key, hkey, hincluded⟩ := bind_eq_some_iff.mp hd
  obtain ⟨hash', rfl, hP⟩ := hc key d hincluded
  obtain rfl := CacheKey.hash.inj (hpoints _ hkey)
  exact hP

theorem Backed.new : BlockCache.new.Backed P := by
  intro key d hd
  exact absurd hd (by simp [BlockCache.new, getDAIncluded])

section

variable (hc : c.Backed P)
include hc

theorem Backed.mono (hPQ : ∀ hash d, P hash d → Q hash d) : c.Backed Q := by
  intro key d hd
  obtain ⟨hash, hkey, hP⟩ := hc key d hd
  exact ⟨hash, hkey, hPQ hash d hP⟩

theorem Backed.setSeen (key : CacheKey) (height : ℕ) :
    (c.setSeen key height).Backed P := hc

theorem Backed.removeDAIncluded (key : CacheKey) :
    (c.removeDAIncluded key).Backed P := by
  intro key' d hd
  exact hc key' d (lookup_of_lookup_erase hd)

theorem Backed.evictPrevious (key : CacheKey) (height : ℕ) :
    (c.evictPrevious key height).Backed P := by
  unfold BlockCache.evictPrevious
  split
  · exact hc
  · split_ifs
    · exact hc.removeDAIncluded _
    · exact hc

theorem Backed.setDAIncluded (hP : P hash d) (height : ℕ) :
    (c.setDAIncluded (.hash hash) d height).Backed P := by
  exact forall_lookup_insert (hc.evictPrevious _ height) ⟨hash, rfl, hP⟩

theorem Backed.deleteAllForHeight (height : ℕ) :
    (c.deleteAllForHeight height).Backed P := by
  unfold BlockCache.deleteAllForHeight
  split
  · exact hc
  · exact hc.removeDAIncluded _

end

theorem PointsTo.new : BlockCache.new.PointsTo height hash := by
  intro key hkey
  exact absurd hkey (by simp [BlockCache.new])

theorem PointsTo.setSeen (hc : h ≠ height → c.PointsTo h hash)
    (hkey : h = height → key = .hash hash) : (c.setSeen key height).PointsTo h hash := by
  intro key' hlookup
  rw [lookup_setSeen] at hlookup
  split_ifs at hlookup with hh
  · rw [← some.inj hlookup, hkey hh]
  · exact hc hh key' hlookup

theorem PointsTo.setDAIncluded (hc : c.PointsTo h hash) (hkey : h = height → key = .hash hash)
    (d : ℕ) : (c.setDAIncluded key d height).PointsTo h hash := by
  intro key' hlookup
  rw [lookup_setDAIncluded] at hlookup
  split_ifs at hlookup with hh
  · rw [← some.inj hlookup, hkey hh]
  · exact hc key' hlookup

theorem PointsTo.deleteAllForHeight (hc : c.PointsTo h hash) (height : ℕ) :
    (c.deleteAllForHeight height).PointsTo h hash :=
  fun key hkey => hc key (lookup_deleteAllForHeight hkey)

end

end BlockCache

end ChainSdk

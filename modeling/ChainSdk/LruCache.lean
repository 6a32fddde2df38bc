/-
A cache of bounded size that forgets what has not been used for longest, as the third-party
`golang-lru` does.

The entries are kept with the most recently used first.
-/
import Mathlib.Data.List.Sigma

/-- The entries, most recently used first, and how many there may be. -/
structure LruCache (α β : Type*) where
  capacity : ℕ
  entries : List (α × β)

namespace LruCache

open List

variable {α β : Type*} [DecidableEq α] {cache : LruCache α β} {key key' : α} {value value' : β}

def new (capacity : ℕ) : LruCache α β := ⟨capacity, []⟩

def lookup (cache : LruCache α β) (key : α) : Option β := cache.entries.lookup key

def remove (cache : LruCache α β) (key : α) : LruCache α β :=
  { cache with entries := cache.entries.filter (fun p => p.1 ≠ key) }

/-- Looking a key up makes it the most recently used one. -/
def get (cache : LruCache α β) (key : α) : Option β × LruCache α β :=
  match cache.lookup key with
  | none => (none, cache)
  | some value =>
    (some value, { cache with entries := (key, value) :: (cache.remove key).entries })

/-- A new or changed entry is the most recently used one. -/
def add (cache : LruCache α β) (key : α) (value : β) : LruCache α β :=
  { cache with entries := ((key, value) :: (cache.remove key).entries).take cache.capacity }

@[simp] theorem lookup_new (capacity : ℕ) :
    (new capacity : LruCache α β).lookup key = none := rfl

theorem lookup_remove :
    (cache.remove key).lookup key' = if key' = key then none else cache.lookup key' := by
  rcases cache with ⟨capacity, entries⟩
  unfold remove lookup
  induction entries with
  | nil => exact (ite_self _).symm
  | cons p entries ih =>
    dsimp only at ih ⊢
    by_cases hp : p.1 = key
    · rw [filter_cons_of_neg (by simpa using hp), ih, lookup_cons, hp]
      by_cases hkey : key' = key
      · rw [if_pos hkey, if_pos hkey]
      · rw [if_neg hkey, if_neg hkey, beq_false_of_ne hkey]
    · rw [filter_cons_of_pos (by simpa using hp), lookup_cons, lookup_cons, ih]
      by_cases hkey : key' = key
      · rw [if_pos hkey, if_pos hkey, hkey, beq_false_of_ne (Ne.symm hp)]
      · rw [if_neg hkey, if_neg hkey]

theorem lookup_remove_self : (cache.remove key).lookup key = none := by
  rw [lookup_remove, if_pos rfl]

theorem lookup_remove_of_ne (hne : key' ≠ key) :
    (cache.remove key).lookup key' = cache.lookup key' := by
  rw [lookup_remove, if_neg hne]

theorem foldl_remove (cache : LruCache α β) (keys : List α) :
    (keys.foldl remove cache).capacity = cache.capacity ∧
      ∀ key value, (keys.foldl remove cache).lookup key = some value →
        cache.lookup key = some value ∧ key ∉ keys := by
  induction keys generalizing cache with
  | nil => exact ⟨rfl, fun key value hvalue => ⟨hvalue, not_mem_nil⟩⟩
  | cons k keys ih =>
    obtain ⟨hcapacity, hlookup⟩ := ih (cache.remove k)
    refine ⟨hcapacity, fun key value hvalue => ?_⟩
    obtain ⟨hleft, hnot⟩ := hlookup key value hvalue
    rw [lookup_remove] at hleft
    split_ifs at hleft with hkey
    exact ⟨hleft, not_mem_cons_of_ne_of_not_mem hkey hnot⟩

theorem get_fst (cache : LruCache α β) (key : α) : (cache.get key).1 = cache.lookup key := by
  unfold get
  split
  · rename_i h
    exact h.symm
  · rename_i h
    exact h.symm

theorem lookup_get (cache : LruCache α β) (key key' : α) :
    (cache.get key).2.lookup key' = cache.lookup key' := by
  unfold get
  split
  · rfl
  rename_i value hlookup
  unfold lookup
  rw [lookup_cons]
  by_cases hne : key' = key
  · subst hne
    simpa [lookup] using hlookup.symm
  · have hother : (key' == key) = false := by simpa using hne
    rw [hother]
    exact lookup_remove_of_ne hne

theorem lookup_take {entries : List (α × β)} {count : ℕ}
    (h : (entries.take count).lookup key = some value) : entries.lookup key = some value := by
  induction entries generalizing count with
  | nil => simp at h
  | cons p entries ih =>
    rcases count with _ | count
    · simp at h
    rw [take_succ_cons, lookup_cons] at h
    rw [lookup_cons]
    split
    · rename_i hp
      rw [hp] at h
      exact h
    · rename_i hp
      rw [hp] at h
      exact ih h

theorem lookup_add_self (hcapacity : 0 < cache.capacity) :
    (cache.add key value).lookup key = some value := by
  unfold add lookup
  obtain ⟨count, hcount⟩ := Nat.exists_eq_succ_of_ne_zero (Nat.pos_iff_ne_zero.mp hcapacity)
  rw [hcount, take_succ_cons, lookup_cons]
  simp

theorem lookup_add (h : (cache.add key value).lookup key' = some value') :
    key' = key ∧ value' = value ∨ cache.lookup key' = some value' := by
  have hall := lookup_take h
  rw [lookup_cons] at hall
  by_cases hne : key' = key
  · subst hne
    simp only [beq_self_eq_true] at hall
    exact .inl ⟨rfl, (Option.some.inj hall).symm⟩
  · have hother : (key' == key) = false := by simpa using hne
    rw [hother] at hall
    exact .inr ((lookup_remove_of_ne hne).symm.trans hall)

/-! ## Entries

A key has one entry, so that an entry is there exactly if looking its key up gives its value; and
as long as there is room, adding forgets nothing.
-/

/-- The keys, least recently used first. -/
def keys (cache : LruCache α β) : List α := (cache.entries.map Prod.fst).reverse

/-- No key has two entries, and there are not too many. -/
structure Sound (cache : LruCache α β) : Prop where
  nodup : (cache.entries.map Prod.fst).Nodup
  length_le : cache.entries.length ≤ cache.capacity

omit [DecidableEq α] in
theorem Sound.new (capacity : ℕ) : (LruCache.new capacity : LruCache α β).Sound :=
  ⟨nodup_nil, Nat.zero_le _⟩

theorem Sound.remove (hcache : cache.Sound) (key : α) : (cache.remove key).Sound := by
  have hsub : (cache.remove key).entries.Sublist cache.entries := filter_sublist
  exact ⟨hcache.nodup.sublist (hsub.map _), Nat.le_trans hsub.length_le hcache.length_le⟩

theorem notMem_keys_remove (cache : LruCache α β) (key : α) :
    key ∉ (cache.remove key).entries.map Prod.fst := by
  intro hmem
  obtain ⟨p, hp, rfl⟩ := mem_map.mp hmem
  simp [LruCache.remove] at hp

theorem Sound.add (hcache : cache.Sound) (key : α) (value : β) : (cache.add key value).Sound := by
  have hall : (((key, value) :: (cache.remove key).entries).map Prod.fst).Nodup := by
    rw [map_cons, nodup_cons]
    exact ⟨cache.notMem_keys_remove key, (hcache.remove key).nodup⟩
  refine ⟨hall.sublist ((take_sublist _ _).map _), ?_⟩
  exact length_take_le _ _

theorem Sound.get (hcache : cache.Sound) (key : α) : (cache.get key).2.Sound := by
  unfold LruCache.get
  split
  · exact hcache
  rename_i value hlookup
  refine ⟨?_, ?_⟩
  · dsimp only
    rw [map_cons, nodup_cons]
    exact ⟨cache.notMem_keys_remove key, (hcache.remove key).nodup⟩
  · -- the entry that moves to the front was there, so that the others are fewer
    have hmem : ∃ p ∈ cache.entries, ¬ (decide (p.1 ≠ key) = true) := by
      obtain ⟨l, r, hsplit, -⟩ := lookup_eq_some_iff.mp hlookup
      exact ⟨(key, value), by simp [hsplit], by simp⟩
    have hlt : (cache.remove key).entries.length < cache.entries.length :=
      length_filter_lt_length_iff_exists.mpr hmem
    have hle := hcache.length_le
    dsimp only
    rw [length_cons]
    omega

theorem Sound.mem_iff (hcache : cache.Sound) :
    (key, value) ∈ cache.entries ↔ cache.lookup key = some value := by
  have hlist : ∀ entries : List (α × β), (entries.map Prod.fst).Nodup →
      ((key, value) ∈ entries ↔ entries.lookup key = some value) := by
    intro entries
    induction entries with
    | nil => simp
    | cons p entries ih =>
      intro hnodup
      rw [map_cons, nodup_cons] at hnodup
      have hrest := ih hnodup.2
      rw [mem_cons, lookup_cons]
      by_cases hkey : key = p.1
      · have hnot : (p.1, value) ∉ entries := fun hmem =>
          hnodup.1 (mem_map.mpr ⟨(p.1, value), hmem, rfl⟩)
        simp [hnot, hkey, Prod.ext_iff, eq_comm]
      · have hother : (key == p.1) = false := by simpa using hkey
        simp [hkey, hother, hrest, Prod.ext_iff]
  exact hlist cache.entries hcache.nodup

theorem remove_of_notMem (hkey : key ∉ cache.entries.map Prod.fst) : cache.remove key = cache := by
  obtain ⟨capacity, entries⟩ := cache
  unfold remove
  congr 1
  apply filter_eq_self.mpr
  intro p hp
  rw [decide_eq_true_eq]
  rintro rfl
  exact hkey (mem_map_of_mem hp)

theorem add_of_notMem (hkey : key ∉ cache.entries.map Prod.fst)
    (hroom : cache.entries.length < cache.capacity) (value : β) :
    cache.add key value = ⟨cache.capacity, (key, value) :: cache.entries⟩ := by
  unfold add
  rw [remove_of_notMem hkey, take_of_length_le]
  rw [length_cons]
  omega

@[simp] theorem capacity_get (cache : LruCache α β) (key : α) :
    (cache.get key).2.capacity = cache.capacity := by
  unfold get
  split <;> rfl

end LruCache

/-
The pending cache of the store adapters as a data structure: a map by height, an index by hash and
the greatest height, kept in step by hand in `add`, `delete` and `pruneIf`.

`add` files the new hash and forgets to take the old one out.
-/
import ChainSdk.HashLookup

namespace ChainSdk

open AList Option PendingCache Runs

structure PendingItems {α : Type} (entity : Entity α) extends PendingCache entity where
  maxHeight : ℕ

/-- What is done to the cache. An item that is added has a height. -/
inductive PendingOp {α : Type} (entity : Entity α)
  | add (item : P2PItem α) (height : ℕ) (hheight : entity.height item.value = some height)
  | delete (height : ℕ)
  | pruneIf (pred : ℕ → Bool)

namespace PendingItems

variable {α : Type} {entity : Entity α}

def new : PendingItems entity := ⟨.new, 0⟩

def recalcMaxHeight (p : PendingCache entity) : ℕ := p.items.keys.max?.getD 0

section

variable (p : PendingItems entity)

def add (item : P2PItem α) (height : ℕ) (hheight : entity.height item.value = some height) :
    PendingItems entity where
  toPendingCache := p.toPendingCache.add item height hheight
  maxHeight := if p.maxHeight < height then height else p.maxHeight

def delete (height : ℕ) : PendingItems entity where
  toPendingCache := p.toPendingCache.delete height
  maxHeight :=
    if (p.items.lookup height).isSome ∧ height = p.maxHeight then
      recalcMaxHeight (p.toPendingCache.delete height)
    else p.maxHeight

/-- `pruneIf`. Its loop takes out one item after the other; it does not matter in which order. -/
def pruneIf (pred : ℕ → Bool) : PendingItems entity :=
  let pruned := p.items.keys.filter pred
  let cache := pruned.foldl PendingCache.delete p.toPendingCache
  ⟨cache, if p.maxHeight ∈ pruned then recalcMaxHeight cache else p.maxHeight⟩

def hasByHash (hash : Hash) : Bool := (p.byHash.lookup hash).isSome

def step : PendingOp entity → PendingItems entity
  | .add item height hheight => p.add item height hheight
  | .delete height => p.delete height
  | .pruneIf pred => p.pruneIf pred

end

/-! ## The representation -/

/-- A hash leads to the item that has it, each item has one entry in the index, and the greatest
height is that of an item. -/
structure Represents (p : PendingItems entity) : Prop where
  current : ∀ x item, p.getByHash x = some item → entity.hash item.value = x ∧
    ∃ h, entity.height item.value = some h ∧ p.items.lookup h = some item
  hasByHash_iff : ∀ x, p.hasByHash x = true ↔ (p.getByHash x).isSome
  one_entry : ∀ h, (p.items.lookup h).isSome → ∃! x, p.byHash.lookup x = some h
  entry_item : ∀ x h, p.byHash.lookup x = some h → (p.items.lookup h).isSome
  le_maxHeight : ∀ h, (p.items.lookup h).isSome → h ≤ p.maxHeight
  maxHeight_mem : (p.items.lookup p.maxHeight).isSome ∨ p.items = ∅ ∧ p.maxHeight = 0

/-- The index is the inverse of the items. -/
def Indexes (p : PendingCache entity) : Prop :=
  ∀ x h, p.byHash.lookup x = some h ↔
    ∃ item, p.items.lookup h = some item ∧ entity.hash item.value = x

def Tops (p : PendingCache entity) (m : ℕ) : Prop :=
  (∀ h, (p.items.lookup h).isSome → h ≤ m) ∧
    ((p.items.lookup m).isSome ∨ p.items = ∅ ∧ m = 0)

section

variable {p : PendingCache entity} {item : P2PItem α} {height m : ℕ}

theorem represents_iff {p : PendingItems entity} :
    p.Represents ↔ Indexes p.toPendingCache ∧ Tops p.toPendingCache p.maxHeight := by
  constructor
  · intro hp
    refine ⟨fun x h => ⟨fun hx => ?_, ?_⟩, hp.le_maxHeight, hp.maxHeight_mem⟩
    · obtain ⟨item, hitem⟩ := isSome_iff_exists.mp (hp.entry_item x h hx)
      refine ⟨item, hitem, (hp.current x item ?_).1⟩
      rw [getByHash, hx]
      exact hitem
    · rintro ⟨item, hitem, rfl⟩
      obtain ⟨x, hx, -⟩ := hp.one_entry h (by rw [hitem]; rfl)
      have hfound : p.getByHash x = some item := by
        rw [getByHash, hx]
        exact hitem
      rw [(hp.current x item hfound).1]
      exact hx
  · rintro ⟨hindexes, hle, hmem⟩
    refine ⟨fun x item hfound => ?_, fun x => ?_, fun h hsome => ?_, fun x h hx => ?_, hle, hmem⟩
    · obtain ⟨h, hx, hitem⟩ := bind_eq_some_iff.mp hfound
      obtain ⟨item', hitem', hhash⟩ := (hindexes x h).mp hx
      obtain rfl := some.inj (hitem.symm.trans hitem')
      exact ⟨hhash, h, p.height_eq h item hitem, hitem⟩
    · unfold hasByHash getByHash
      rcases hx : p.byHash.lookup x with _ | h
      · simp
      · obtain ⟨item, hitem, -⟩ := (hindexes x h).mp hx
        simp [hitem]
    · obtain ⟨item, hitem⟩ := isSome_iff_exists.mp hsome
      refine ⟨entity.hash item.value, (hindexes _ h).mpr ⟨item, hitem, rfl⟩, fun y hy => ?_⟩
      obtain ⟨item', hitem', hhash⟩ := (hindexes y h).mp hy
      rw [← hhash, some.inj (hitem.symm.trans hitem')]
    · obtain ⟨item, hitem, -⟩ := (hindexes x h).mp hx
      rw [hitem]
      rfl

/-! ## The index -/

/-- Adding an item keeps the index exactly if the item of its height, and no other, has its
hash. -/
theorem Indexes.add_iff (hp : Indexes p) (hheight : entity.height item.value = some height) :
    Indexes (p.add item height hheight) ↔ ∀ h old, p.items.lookup h = some old →
      (entity.hash old.value = entity.hash item.value ↔ h = height) := by
  have hitems : ∀ {k it}, k ≠ height → ((p.add item height hheight).items.lookup k = some it ↔
      p.items.lookup k = some it) := fun hk => by
    rw [PendingCache.add, AList.lookup_insert_ne hk]
  have hself : (p.add item height hheight).items.lookup height = some item :=
    lookup_insert _
  have hhash : (p.add item height hheight).byHash.lookup (entity.hash item.value) = some height :=
    lookup_insert _
  have hother : ∀ {y}, y ≠ entity.hash item.value →
      (p.add item height hheight).byHash.lookup y = p.byHash.lookup y :=
    fun hy => lookup_insert_ne hy
  constructor
  · intro hadd h old hold
    constructor
    · intro hsame
      by_contra hne
      have hindexed := (hadd _ h).mpr ⟨old, (hitems hne).mpr hold, hsame⟩
      exact hne (some.inj (hindexed.symm.trans hhash))
    · rintro rfl
      by_contra hne
      -- the entry of the replaced item is still there
      have hstale := (hp _ h).mpr ⟨old, hold, rfl⟩
      rw [← hother hne] at hstale
      obtain ⟨now, hnow, hnowHash⟩ := (hadd _ h).mp hstale
      obtain rfl := some.inj (hself.symm.trans hnow)
      exact hne hnowHash.symm
  · intro hunique y k
    by_cases hy : y = entity.hash item.value
    · subst hy
      rw [hhash]
      constructor
      · intro hk
        obtain rfl := some.inj hk
        exact ⟨item, hself, rfl⟩
      · rintro ⟨it, hit, hsame⟩
        by_cases hk : k = height
        · rw [hk]
        · exact absurd ((hunique k it ((hitems hk).mp hit)).mp hsame) hk
    · rw [hother hy]
      by_cases hk : k = height
      · subst hk
        constructor
        · intro hold
          obtain ⟨it, hit, rfl⟩ := (hp y k).mp hold
          exact absurd ((hunique k it hit).mpr rfl) hy
        · rintro ⟨it, hit, rfl⟩
          obtain rfl := some.inj (hself.symm.trans hit)
          exact absurd rfl hy
      · rw [hp]
        exact exists_congr fun it => and_congr_left fun _ => (hitems hk).symm

theorem Indexes.delete (hp : Indexes p) (height : ℕ) :
    Indexes (p.delete height) := by
  intro y k
  unfold PendingCache.delete
  dsimp only
  by_cases hk : k = height
  · subst hk
    simp only [lookup_erase, reduceCtorEq, false_and, exists_false, iff_false]
    rcases hold : p.items.lookup k with _ | old
    · intro hy
      obtain ⟨it, hit, -⟩ := (hp y k).mp hy
      simp [hold] at hit
    · intro hy
      obtain ⟨it, hit, hhash⟩ := (hp y k).mp (lookup_of_lookup_erase hy)
      obtain rfl := some.inj (hold.symm.trans hit)
      simp [hhash] at hy
  · rw [lookup_erase_ne hk, ← hp]
    rcases hold : p.items.lookup height with _ | old
    · rfl
    dsimp only
    by_cases hy : y = entity.hash old.value
    · subst hy
      -- the hash led to the height that is deleted
      have hentry := (hp _ height).mpr ⟨old, hold, rfl⟩
      rw [hentry, lookup_erase]
      simp [Ne.symm hk]
    · rw [lookup_erase_ne hy]

theorem foldl_delete (hp : Indexes p) (heights : List ℕ) :
    Indexes (heights.foldl PendingCache.delete p) ∧ ∀ k,
      (heights.foldl PendingCache.delete p).items.lookup k =
        if k ∈ heights then none else p.items.lookup k := by
  induction heights generalizing p with
  | nil => exact ⟨hp, fun k => by simp⟩
  | cons h heights ih =>
    obtain ⟨hindexes, hlookup⟩ := ih (hp.delete h)
    refine ⟨hindexes, fun k => ?_⟩
    rw [List.foldl_cons, hlookup]
    by_cases hk : k = h
    · subst hk
      simp [PendingCache.delete]
    · simp [hk, PendingCache.delete, AList.lookup_erase_ne hk]

/-! ## The greatest height -/

theorem tops_recalcMaxHeight (p : PendingCache entity) : Tops p (recalcMaxHeight p) := by
  have hkeys : ∀ h, (p.items.lookup h).isSome ↔ h ∈ p.items.keys := fun h => by
    rw [lookup_isSome, mem_keys]
  unfold Tops recalcMaxHeight
  rcases hmax : p.items.keys.max? with _ | m
  · have hnil : p.items.keys = [] := List.max?_eq_none_iff.mp hmax
    refine ⟨fun h hh => ?_, .inr ⟨eq_empty_of_lookup fun h => ?_, rfl⟩⟩
    · rw [hkeys, hnil] at hh
      exact absurd hh List.not_mem_nil
    · rw [← not_isSome_iff_eq_none, hkeys, hnil]
      exact List.not_mem_nil
  · obtain ⟨hmem, hle⟩ := List.max?_eq_some_iff.mp hmax
    exact ⟨fun h hh => hle h ((hkeys h).mp hh), .inl ((hkeys m).mpr hmem)⟩

theorem Tops.add (hp : Tops p m) (hheight : entity.height item.value = some height) :
    Tops (p.add item height hheight) (if m < height then height else m) := by
  obtain ⟨hle, hmem⟩ := hp
  have hnew : ((p.items.insert height item).lookup height).isSome := by
    rw [lookup_insert]
    rfl
  refine ⟨fun h hh => ?_, .inl ?_⟩
  · by_cases hhe : h = height
    · split_ifs <;> omega
    · rw [PendingCache.add, AList.lookup_insert_ne hhe] at hh
      have := hle h hh
      split_ifs <;> omega
  · by_cases hlt : m < height
    · rw [if_pos hlt]
      exact hnew
    rw [if_neg hlt]
    by_cases hm : m = height
    · rw [hm]
      exact hnew
    · rw [PendingCache.add, AList.lookup_insert_ne hm]
      rcases hmem with hsome | ⟨-, rfl⟩
      · exact hsome
      · omega

theorem Tops.removed {p' : PendingCache entity} (hp : Tops p m)
    (hlookup : ∀ k, (p'.items.lookup k).isSome → (p.items.lookup k).isSome)
    (hkept : (p.items.lookup m).isSome → (p'.items.lookup m).isSome) : Tops p' m := by
  obtain ⟨hle, hmem⟩ := hp
  refine ⟨fun h hh => hle h (hlookup h hh), hmem.imp hkept fun ⟨hempty, hm⟩ => ⟨?_, hm⟩⟩
  refine eq_empty_of_lookup fun h => not_isSome_iff_eq_none.mp fun hh => ?_
  have hold := hlookup h hh
  rw [hempty] at hold
  simp at hold

end

/-! ## Whole runs -/

/-- The item is added to a free height, or in the place of one with the same hash, and no other
height has its hash. -/
def Fits (p : PendingItems entity) : PendingOp entity → Prop
  | .add item height _ => ∀ h old, p.items.lookup h = some old →
    (entity.hash old.value = entity.hash item.value ↔ h = height)
  | _ => True

theorem Represents.step_iff {p : PendingItems entity} (hp : p.Represents)
    (op : PendingOp entity) : (p.step op).Represents ↔ p.Fits op := by
  obtain ⟨hindexes, htops⟩ := represents_iff.mp hp
  rw [represents_iff]
  cases op with
  | add item height hheight =>
    exact (and_iff_left (htops.add hheight)).trans (hindexes.add_iff hheight)
  | delete height =>
    refine iff_of_true ⟨hindexes.delete height, ?_⟩ trivial
    unfold step delete
    dsimp only
    split_ifs with hlast
    · exact tops_recalcMaxHeight _
    refine htops.removed (fun k hk => ?_) fun hm => ?_
    · obtain ⟨item, hitem⟩ := Option.isSome_iff_exists.mp hk
      rw [lookup_of_lookup_erase hitem]
      rfl
    · have hne : p.maxHeight ≠ height := fun heq => hlast ⟨heq ▸ hm, heq.symm⟩
      rw [PendingCache.delete, AList.lookup_erase_ne hne]
      exact hm
  | pruneIf pred =>
    obtain ⟨hindexes', hlookup⟩ := foldl_delete hindexes (p.items.keys.filter pred)
    refine iff_of_true ⟨hindexes', ?_⟩ trivial
    unfold step pruneIf
    dsimp only
    split_ifs with hpruned
    · exact tops_recalcMaxHeight _
    refine htops.removed (fun k hk => ?_) fun hm => ?_
    · rw [hlookup] at hk
      split_ifs at hk with hgone
      · exact absurd hk Bool.false_ne_true
      · exact hk
    · rw [hlookup, if_neg hpruned]
      exact hm

theorem new_represents : (new : PendingItems entity).Represents :=
  represents_iff.mpr ⟨by simp [Indexes, new, PendingCache.new],
    by simp [Tops, new, PendingCache.new]⟩

end PendingItems

/-- Over every sequence of `add`, `delete` and `pruneIf`, for headers and for data: the cache
keeps its promises after each operation exactly if each `add` finds its height free or taken by
an item with the same hash, and its hash at no other height. -/
theorem pending_items_represented_iff {α : Type} (entity : Entity α)
    (ops : List (PendingOp entity)) :
    (∀ p ∈ steps PendingItems.step PendingItems.new ops, (p.1.step p.2).Represents) ↔
      ∀ p ∈ steps PendingItems.step PendingItems.new ops, p.1.Fits p.2 :=
  steps_safe_iff PendingItems.step (fun _ => True) PendingItems.Represents (fun _ _ => True)
    PendingItems.Fits (fun _ _ _ _ => trivial) (fun _ op _ _ hp => hp.step_iff op) trivial
    PendingItems.new_represents fun _ _ => trivial

/-- Numbers as items: the height is the number of tens, the hash the number itself. -/
def numbered : Entity ℕ := ⟨fun n => some (n / 10), fun n => [n.toUInt8]⟩

/-- A peer sends 51 for height 5, another one 52: the cache has 52, under both hashes. -/
theorem replaced_item_found_by_old_hash :
    let p := ((PendingItems.new : PendingItems numbered).add ⟨51, 0⟩ 5 rfl).add ⟨52, 0⟩ 5 rfl
    p.getByHash (numbered.hash 51) = some ⟨52, 0⟩ ∧ ¬ p.Represents := by
  intro p
  have hfound : p.getByHash (numbered.hash 51) = some ⟨52, 0⟩ := rfl
  exact ⟨hfound, fun hp => absurd (hp.current _ _ hfound).1 (by decide)⟩

end ChainSdk

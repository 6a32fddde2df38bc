/-
The DA height hints of a sync service: `AppendDAHint`, and what `GetByHeight` answers after it.

A hint is in the item, in the pending cache and in the metadata of the store, and it is read in the
order cache, metadata, item. All three are written by `Append`, which passes over what is in the
store already.
-/
import ChainSdk.PendingItems

namespace ChainSdk

open Function Option StoreAdapter

def maxPendingCacheSize : ℕ := 10000

structure SyncStore {α : Type} (entity : Entity α) where
  getter : StoreGetter α
  stored : ℕ → Option α
  height : ℕ
  pending : PendingItems entity
  stored_height : ∀ h value, stored h = some value → entity.height value = some h

namespace SyncStore

variable {α : Type} {entity : Entity α}

section

variable (s : SyncStore entity)

/-- An item on its way out of `getByHeightNoWait`. -/
def withDAHint (item : P2PItem α) : Option (P2PItem α) × SyncStore entity :=
  match applyDAHint s.getter s.pending.toPendingCache item with
  -- an item without a height is not filed under one
  | .error _ => (none, s)
  | .ok (item, cache) => (some item, { s with pending := ⟨cache, s.pending.maxHeight⟩ })

def getByHeight (height : ℕ) : Option (P2PItem α) × SyncStore entity :=
  match s.stored height with
  | some value => s.withDAHint ⟨value, (s.getter.getDAHint height).getD 0⟩
  | none =>
    match s.pending.items.lookup height with
    | some item => s.withDAHint item
    | none => (none, s)

def setDAHint (height hint : ℕ) (written : Bool) : SyncStore entity :=
  if written then
    { s with getter := { s.getter with
      getDAHint := update s.getter.getDAHint height (some hint) } }
  else s

def prunePersisted : SyncStore entity :=
  if s.height = 0 then s
  else { s with pending := s.pending.pruneIf (fun height => height ≤ s.height) }

def waitForSpace : Option (SyncStore entity) :=
  if s.pending.items.keys.length < maxPendingCacheSize then some s
  else if s.prunePersisted.pending.items.keys.length < maxPendingCacheSize then
    some s.prunePersisted
  else none

/-- One round of `Append`; `none` is the error of a context that ends while there is no space. -/
def append (item : P2PItem α) (written : Bool) : Option (SyncStore entity) :=
  match hheight : entity.height item.value with
  | none => some s
  | some height =>
    if (s.stored height).isSome then some s
    else
      match s.waitForSpace with
      | none => none
      | some s =>
        let s := { s with pending := s.pending.add item height hheight }
        some (if 0 < item.daHeightHint then s.setDAHint height item.daHeightHint written else s)

def appendDAHint (daHeight height : ℕ) (written : Bool) : Option (SyncStore entity) :=
  match s.getByHeight height with
  | (none, s) => some s
  | (some item, s) => s.append { item with daHeightHint := daHeight } written

/-- What happens at a sync service: reads, items from peers, hints, blocks the node writes to its
store, and the cleaning of the cache. -/
inductive Op (entity : Entity α)
  | getByHeight (height : ℕ)
  | append (item : P2PItem α) (written : Bool)
  | appendDAHint (daHeight height : ℕ) (written : Bool)
  | persist (height : ℕ) (value : α) (hheight : entity.height value = some height)
  | prunePersisted
  | delete (height : ℕ)

/-- A call that fails adds nothing (what it has pruned is an operation of its own). -/
def step : Op entity → SyncStore entity
  | .getByHeight height => (s.getByHeight height).2
  | .append item written => (s.append item written).getD s
  | .appendDAHint daHeight height written =>
    (s.appendDAHint daHeight height written).getD (s.getByHeight height).2
  | .persist height value hheight =>
    { s with
      stored := update s.stored height (some value)
      height := max s.height height
      stored_height := forall_update_some (fun h value _ => s.stored_height h value) hheight }
  | .prunePersisted => s.prunePersisted
  | .delete height => { s with pending := s.pending.delete height }

def Op.LeavesHint (height : ℕ) : Op entity → Prop
  | .append item _ => item.daHeightHint = 0 ∨ entity.height item.value ≠ some height
  | .appendDAHint _ other _ => other ≠ height
  | _ => True

theorem withDAHint_spec (item : P2PItem α) :
    (∀ out, (s.withDAHint item).1 = some out → out.value = item.value) ∧
      (s.withDAHint item).2.stored = s.stored := by
  unfold withDAHint
  rcases hheight : entity.height item.value with _ | k
  · unfold applyDAHint
    simp [hheight]
  · obtain ⟨hint, cache, heq⟩ := applyDAHint_value s.getter s.pending.toPendingCache hheight
    rw [heq]
    refine ⟨fun out hout => ?_, rfl⟩
    rw [← some.inj hout]

theorem getByHeight_cases (height : ℕ) :
    s.getByHeight height = (none, s) ∨ ∃ item, entity.height item.value = some height ∧
      s.getByHeight height = s.withDAHint item := by
  unfold getByHeight
  rcases hstored : s.stored height with _ | value
  · rcases hpending : s.pending.items.lookup height with _ | found
    · exact .inl rfl
    · exact .inr ⟨found, s.pending.height_eq _ _ hpending, rfl⟩
  · exact .inr ⟨_, s.stored_height _ _ hstored, rfl⟩

end

theorem getByHeight_spec {s s' : SyncStore entity} {height : ℕ} {item : P2PItem α}
    (hread : s.getByHeight height = (some item, s')) :
    entity.height item.value = some height ∧ s'.stored = s.stored := by
  rcases s.getByHeight_cases height with hnone | ⟨found, hheight, heq⟩
  · simp [hnone] at hread
  · obtain ⟨hvalue, hsame⟩ := s.withDAHint_spec found
    rw [← heq, hread] at hvalue hsame
    rw [hvalue item rfl]
    exact ⟨hheight, hsame⟩

/-! ## What keeps a hint -/

/-- The metadata has the hint, and the cache has no other. -/
def Hinted (height hint : ℕ) (s : SyncStore entity) : Prop :=
  s.getter.getDAHint height = some hint ∧
    ∀ known, s.pending.daHints.lookup height = some known → known = hint

section

variable {s s' : SyncStore entity} {height hint : ℕ}

theorem Hinted.withDAHint (hs : s.Hinted height hint) (hpos : 0 < hint) (item : P2PItem α) :
    (s.withDAHint item).2.Hinted height hint ∧ ((entity.height item.value = some height) →
      ∀ out, (s.withDAHint item).1 = some out → out.daHeightHint = hint) := by
  obtain ⟨hdisk, hcache⟩ := hs
  unfold SyncStore.withDAHint applyDAHint
  rcases hitem : entity.height item.value with _ | k
  · exact ⟨⟨hdisk, hcache⟩, fun h => absurd h (by simp)⟩
  dsimp only
  rcases hknown : s.pending.daHints.lookup k with _ | known
  · rcases hread : s.getter.getDAHint k with _ | read
    · refine ⟨⟨hdisk, hcache⟩, fun hk => ?_⟩
      rw [some.inj hk, hdisk] at hread
      simp at hread
    dsimp only
    have hsame : k = height → read = hint := by
      rintro rfl
      exact some.inj (hread.symm.trans hdisk)
    split_ifs with hread
    · refine ⟨⟨hdisk, fun known hlookup => ?_⟩, fun hk out hout => ?_⟩
      · by_cases hk : height = k
        · rw [← hk] at hlookup
          rw [← some.inj ((AList.lookup_insert _).symm.trans hlookup), hsame hk.symm]
        · exact hcache known ((AList.lookup_insert_ne hk).symm.trans hlookup)
      · rw [← some.inj hout]
        exact hsame (some.inj hk)
    · exact ⟨⟨hdisk, hcache⟩, fun hk => absurd (hsame (some.inj hk)) (by omega)⟩
  · refine ⟨⟨hdisk, hcache⟩, fun hk out hout => ?_⟩
    rw [← some.inj hout]
    exact hcache known (some.inj hk ▸ hknown)

theorem Hinted.getByHeight (hs : s.Hinted height hint) (hpos : 0 < hint) (h : ℕ) :
    (s.getByHeight h).2.Hinted height hint := by
  rcases s.getByHeight_cases h with hnone | ⟨item, -, heq⟩
  · rw [hnone]
    exact hs
  · rw [heq]
    exact (hs.withDAHint hpos item).1

theorem Hinted.read (hs : s.Hinted height hint) (hpos : 0 < hint) {item : P2PItem α}
    (hread : (s.getByHeight height).1 = some item) : item.daHeightHint = hint := by
  rcases s.getByHeight_cases height with hnone | ⟨found, hheight, heq⟩
  · simp [hnone] at hread
  · rw [heq] at hread
    exact (hs.withDAHint hpos found).2 hheight item hread

theorem Hinted.of_erased (hs : s.Hinted height hint) (hgetter : s'.getter = s.getter)
    (hsub : ∀ known, s'.pending.daHints.lookup height = some known →
      s.pending.daHints.lookup height = some known) : s'.Hinted height hint := by
  unfold Hinted
  rw [hgetter]
  exact ⟨hs.1, fun known hlookup => hs.2 known (hsub known hlookup)⟩

theorem foldl_delete_daHints {heights : List ℕ} {p : PendingCache entity} {known : ℕ}
    (hlookup : (heights.foldl PendingCache.delete p).daHints.lookup height = some known) :
    p.daHints.lookup height = some known := by
  induction heights generalizing p with
  | nil => exact hlookup
  | cons h heights ih => exact lookup_of_lookup_erase (ih hlookup)

theorem Hinted.prunePersisted (hs : s.Hinted height hint) :
    s.prunePersisted.Hinted height hint := by
  unfold SyncStore.prunePersisted
  split_ifs
  · exact hs
  · exact hs.of_erased rfl fun known hlookup => foldl_delete_daHints hlookup

theorem Hinted.waitForSpace (hs : s.Hinted height hint) (hspace : s.waitForSpace = some s') :
    s'.Hinted height hint := by
  unfold SyncStore.waitForSpace at hspace
  split_ifs at hspace
  · rw [← some.inj hspace]
    exact hs
  · rw [← some.inj hspace]
    exact hs.prunePersisted

theorem Hinted.append (hs : s.Hinted height hint) {item : P2PItem α} {written : Bool}
    (hleaves : item.daHeightHint = 0 ∨ entity.height item.value ≠ some height)
    (happend : s.append item written = some s') : s'.Hinted height hint := by
  unfold SyncStore.append at happend
  split at happend
  · rw [← some.inj happend]
    exact hs
  rename_i k hk
  by_cases hstored : (s.stored k).isSome
  · rw [if_pos hstored] at happend
    rw [← some.inj happend]
    exact hs
  rw [if_neg hstored] at happend
  split at happend
  · simp at happend
  rename_i roomy hspace
  obtain ⟨hdisk, hcache⟩ := hs.waitForSpace hspace
  rw [← some.inj happend]
  by_cases hhint : 0 < item.daHeightHint
  · rw [if_pos hhint]
    have hne : height ≠ k := by
      rintro rfl
      exact hleaves.elim (fun hzero => by omega) (fun hother => hother hk)
    have hknown : ∀ known, ((roomy.pending.add item k hk).daHints.lookup height = some known) →
        known = hint := fun known hlookup => hcache known (by
      rw [PendingItems.add, PendingCache.add, if_pos hhint] at hlookup
      rwa [AList.lookup_insert_ne hne] at hlookup)
    unfold setDAHint
    split_ifs
    · exact ⟨(update_of_ne hne _ _).trans hdisk, hknown⟩
    · exact ⟨hdisk, hknown⟩
  · rw [if_neg hhint]
    refine ⟨hdisk, fun known hlookup => hcache known ?_⟩
    dsimp only at hlookup
    rwa [PendingItems.add, PendingCache.add, if_neg hhint] at hlookup

/-! ## Runs -/

theorem Hinted.step (hs : s.Hinted height hint) (hpos : 0 < hint) {op : Op entity}
    (hleaves : op.LeavesHint height) : (s.step op).Hinted height hint := by
  cases op with
  | getByHeight h => exact hs.getByHeight hpos h
  | append item written =>
    unfold SyncStore.step
    dsimp only
    rcases happend : s.append item written with _ | s'
    · exact hs
    · exact hs.append hleaves happend
  | appendDAHint daHeight h written =>
    have hread := hs.getByHeight hpos h
    unfold SyncStore.step
    dsimp only
    rcases happended : s.appendDAHint daHeight h written with _ | s'
    · exact hread
    unfold SyncStore.appendDAHint at happended
    rcases hfound : s.getByHeight h with ⟨_ | item, s₁⟩
    · rw [hfound] at happended hread
      rw [← some.inj happended]
      exact hread
    · rw [hfound] at happended hread
      refine hread.append (.inr ?_) happended
      rw [(getByHeight_spec hfound).1]
      exact fun heq => hleaves (some.inj heq)
  | persist h value hheight => exact hs
  | prunePersisted => exact hs.prunePersisted
  | delete h => exact hs.of_erased rfl fun known hlookup => lookup_of_lookup_erase hlookup

theorem hinted_of_appendDAHint (hpos : 0 < hint) (hpending : s.stored height = none)
    (hpresent : (s.getByHeight height).1.isSome)
    (hcall : s.appendDAHint hint height true = some s') : s'.Hinted height hint := by
  unfold appendDAHint at hcall
  rcases hread : s.getByHeight height with ⟨_ | item, s₁⟩
  · simp [hread] at hpresent
  rw [hread] at hcall
  obtain ⟨hheight, hsame⟩ := getByHeight_spec hread
  dsimp only at hcall
  unfold append at hcall
  split at hcall
  · rename_i hnone
    simp [hheight] at hnone
  rename_i k hk
  obtain rfl := some.inj (hheight.symm.trans hk)
  rw [hsame, hpending] at hcall
  simp only [isSome_none, Bool.false_eq_true, if_false] at hcall
  split at hcall
  · simp at hcall
  rw [if_pos hpos] at hcall
  rw [← some.inj hcall]
  refine ⟨update_self _ _ _, fun known hlookup => ?_⟩
  unfold setDAHint at hlookup
  rw [if_pos rfl] at hlookup
  dsimp only at hlookup
  rw [PendingItems.add, PendingCache.add, if_pos hpos] at hlookup
  exact (some.inj ((AList.lookup_insert _).symm.trans hlookup)).symm

end

end SyncStore

/-- A hint for a height that is there and not yet in the store, written to its metadata, is what
every later read of the height answers with, as long as nobody brings another one: while the item
is pending, after the node has stored it and after it has left the cache. -/
theorem da_hint_sticks {α : Type} {entity : Entity α} (s s' : SyncStore entity)
    (daHeight height : ℕ) (hpos : 0 < daHeight) (hpresent : (s.getByHeight height).1.isSome)
    (hpending : s.stored height = none)
    (hcall : s.appendDAHint daHeight height true = some s') (ops : List (SyncStore.Op entity))
    (hops : ∀ op ∈ ops, op.LeavesHint height) (item : P2PItem α)
    (hread : ((ops.foldl SyncStore.step s').getByHeight height).1 = some item) :
    item.daHeightHint = daHeight := by
  have hhinted : (ops.foldl SyncStore.step s').Hinted height daHeight :=
    Runs.foldl_invariant SyncStore.step (SyncStore.Hinted height daHeight)
      (fun _ op => op.LeavesHint height) (fun _ _ hs hop => hs.step hpos hop)
      (SyncStore.hinted_of_appendDAHint hpos hpending hpresent hcall)
      (Runs.steps_of_forall hops)
  exact hhinted.read hpos hread

/-- Height 5 with an item from a peer, and nothing in the store. -/
def hintlessStore : SyncStore numbered where
  getter := ⟨fun _ => .ok (.error .commit), fun _ => none⟩
  stored := fun _ => none
  height := 0
  pending := PendingItems.new.add ⟨51, 0⟩ 5 rfl
  stored_height := by simp

theorem da_hint_sticks_when_persisted :
    let s := (hintlessStore.appendDAHint 7 5 true).getD hintlessStore
    let ops : List (SyncStore.Op numbered) := [.persist 5 51 rfl, .prunePersisted]
    (∃ item, ((ops.foldl SyncStore.step s).getByHeight 5).1 = some item) ∧
      ∀ item, ((ops.foldl SyncStore.step s).getByHeight 5).1 = some item →
        item.daHeightHint = 7 := by
  refine ⟨⟨⟨51, 7⟩, rfl⟩, fun item hread => ?_⟩
  exact da_hint_sticks hintlessStore _ 7 5 (by decide) rfl rfl rfl
    [.persist 5 51 rfl, .prunePersisted] (by simp [SyncStore.Op.LeavesHint]) item hread

/-- The producer has stored block 5 before its hint comes: the call returns nil and the hint is
gone. -/
theorem da_hint_dropped_when_stored :
    let s := hintlessStore.step (.persist 5 51 rfl)
    ∃ s', s.appendDAHint 7 5 true = some s' ∧ (s'.getByHeight 5).1 = some ⟨51, 0⟩ :=
  ⟨_, rfl, rfl⟩

end ChainSdk

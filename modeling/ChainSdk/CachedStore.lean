/-
`CachedStore`: `DefaultStore` behind two caches.

`Rollback` and `PruneBlocks` go through the wrapper, which drops the cached entries of the heights
concerned. Batches are made by the embedded store and know nothing of the caches.
-/
import ChainSdk.DefaultStore
import ChainSdk.LruCache
import ChainSdk.Runs

namespace ChainSdk

open DefaultStore Except List LruCache Option

structure CachedStore where
  db : Db
  headerCache : LruCache ℕ SignedHeader
  blockDataCache : LruCache ℕ (SignedHeader × Data)

inductive MigrateError
  | getBlockData (err : StoreError)
  | signed
  | savePending (err : StoreError)
  | cleanup (err : StoreError)
  deriving DecidableEq

namespace CachedStore

variable (c : BlockCodec) (cs : CachedStore)

/-! ## Operations -/

def new (db : Db) (headerCacheSize blockDataCacheSize : ℕ) : CachedStore :=
  ⟨db, .new headerCacheSize, .new blockDataCacheSize⟩

def getHeader (height : ℕ) : Except StoreError SignedHeader × CachedStore :=
  match cs.headerCache.get height with
  | (some header, cache) => (.ok header, { cs with headerCache := cache })
  | (none, _) =>
    match DefaultStore.getHeader c cs.db height with
    | .error err => (.error err, cs)
    | .ok header => (.ok header, { cs with headerCache := cs.headerCache.add height header })

def getBlockData (height : ℕ) : Except StoreError (SignedHeader × Data) × CachedStore :=
  match cs.blockDataCache.get height with
  | (some entry, cache) => (.ok entry, { cs with blockDataCache := cache })
  | (none, _) =>
    match DefaultStore.getBlockData c cs.db height with
    | .error err => (.error err, cs)
    | .ok (header, data) =>
      (.ok (header, data),
        { cs with
          blockDataCache := cs.blockDataCache.add height (header, data)
          headerCache := cs.headerCache.add height header })

def invalidateRange (fromHeight toHeight : ℕ) : CachedStore :=
  (List.range' fromHeight (toHeight + 1 - fromHeight)).foldl
    (fun cs h => { cs with
      headerCache := cs.headerCache.remove h
      blockDataCache := cs.blockDataCache.remove h }) cs

def rollback (committed : Bool) (height : ℕ) (aggregator : Bool) :
    Except StoreError Unit × CachedStore :=
  match DefaultStore.height cs.db with
  | .error err => (.error err, cs)
  | .ok currentHeight =>
    match DefaultStore.rollback c cs.db committed height aggregator with
    | .error err => (.error err, cs)
    | .ok db => (.ok (), invalidateRange { cs with db := db } (height + 1) currentHeight)

def pruneBlocks (committed : Bool) (height : ℕ) : Except StoreError Unit × CachedStore :=
  match DefaultStore.pruneBlocks c cs.db committed height with
  | .error err => (.error err, cs)
  | .ok db => (.ok (), invalidateRange { cs with db := db } 1 height)

def commit (writes : List Write) (committed : Bool) : Except StoreError Unit × CachedStore :=
  if committed then (.ok (), { cs with db := cs.db.commit writes }) else (.error .commit, cs)

def savePendingBlock (header : SignedHeader) (data : Data) (committed : Bool) :
    Except StoreError Unit × CachedStore :=
  match c.signedHeaderBytes header with
  | none => (.error .marshal, cs)
  | some headerBytes =>
    cs.commit [(.metadata .pendingHeader, some headerBytes),
      (.metadata .pendingData, some (c.dataBytes data))] committed

def migrateLegacyPendingBlock (lastBlockHeight : ℕ) (saved cleaned : Bool) :
    Except MigrateError Unit × CachedStore :=
  let candidateHeight := lastBlockHeight + 1
  match cs.getBlockData c candidateHeight with
  | (.error (.notFound _), cs) => (.ok (), cs)
  | (.error err, cs) => (.error (.getBlockData err), cs)
  | (.ok (pendingHeader, pendingData), cs) =>
    if pendingHeader.signature.length ≠ 0 then (.error .signed, cs)
    else
      match cs.savePendingBlock c pendingHeader pendingData saved with
      | (.error err, cs) => (.error (.savePending err), cs)
      | (.ok (), cs) =>
        match c.signedHeaderBytes pendingHeader with
        | none => (.error (.cleanup .marshal), cs)
        | some headerBytes =>
          match cs.commit (blockDeletes c candidateHeight headerBytes)
              cleaned with
          | (.error err, cs) => (.error (.cleanup err), cs)
          | (.ok (), cs) => (.ok (), cs)

inductive Op
  | getHeader (height : ℕ)
  | getBlockData (height : ℕ)
  | commit (writes : List Write) (committed : Bool)
  | rollback (height : ℕ) (aggregator committed : Bool)
  | pruneBlocks (height : ℕ) (committed : Bool)
  | savePendingBlock (header : SignedHeader) (data : Data) (committed : Bool)
  | migrateLegacyPendingBlock (lastBlockHeight : ℕ) (saved cleaned : Bool)

def step : Op → CachedStore
  | .getHeader height => (cs.getHeader c height).2
  | .getBlockData height => (cs.getBlockData c height).2
  | .commit writes committed => (cs.commit writes committed).2
  | .rollback height aggregator committed => (cs.rollback c committed height aggregator).2
  | .pruneBlocks height committed => (cs.pruneBlocks c committed height).2
  | .savePendingBlock header data committed => (cs.savePendingBlock c header data committed).2
  | .migrateLegacyPendingBlock lastBlockHeight saved cleaned =>
    (cs.migrateLegacyPendingBlock c lastBlockHeight saved cleaned).2

/-! ## Coherence -/

def Coherent : Prop :=
  ∀ height, (cs.getHeader c height).1 = DefaultStore.getHeader c cs.db height ∧
    (cs.getBlockData c height).1 = DefaultStore.getBlockData c cs.db height

/-- Every cached entry is what the embedded store has. -/
structure Current : Prop where
  header : ∀ h header, cs.headerCache.lookup h = some header →
    DefaultStore.getHeader c cs.db h = .ok header
  blockData : ∀ h entry, cs.blockDataCache.lookup h = some entry →
    DefaultStore.getBlockData c cs.db h = .ok entry

variable {c : BlockCodec} {cs : CachedStore}

theorem getHeader_fst (height : ℕ) : (cs.getHeader c height).1 =
    match cs.headerCache.lookup height with
    | some header => .ok header
    | none => DefaultStore.getHeader c cs.db height := by
  have hfst := cs.headerCache.get_fst height
  unfold getHeader
  rcases hget : cs.headerCache.get height with ⟨_ | header, cache⟩
  · rw [hget] at hfst
    rw [← hfst]
    dsimp only
    split <;> simp_all
  · rw [hget] at hfst
    rw [← hfst]

theorem getBlockData_fst (height : ℕ) : (cs.getBlockData c height).1 =
    match cs.blockDataCache.lookup height with
    | some entry => .ok entry
    | none => DefaultStore.getBlockData c cs.db height := by
  have hfst := cs.blockDataCache.get_fst height
  unfold getBlockData
  rcases hget : cs.blockDataCache.get height with ⟨_ | entry, cache⟩
  · rw [hget] at hfst
    rw [← hfst]
    dsimp only
    split <;> simp_all
  · rw [hget] at hfst
    rw [← hfst]

theorem coherent_iff : cs.Coherent c ↔ cs.Current c := by
  constructor
  · intro hcoherent
    refine ⟨fun h header hlookup => ?_, fun h entry hlookup => ?_⟩
    · rw [← (hcoherent h).1, getHeader_fst, hlookup]
    · rw [← (hcoherent h).2, getBlockData_fst, hlookup]
  · intro hcurrent h
    rw [getHeader_fst, getBlockData_fst]
    constructor
    · rcases hlookup : cs.headerCache.lookup h with _ | header
      · rfl
      · exact (hcurrent.header h header hlookup).symm
    · rcases hlookup : cs.blockDataCache.lookup h with _ | entry
      · rfl
      · exact (hcurrent.blockData h entry hlookup).symm

/-! ## Reading -/

theorem Current.getHeader (hcs : cs.Current c) (height : ℕ) :
    (cs.getHeader c height).2.Current c := by
  have hlookup := cs.headerCache.lookup_get height
  unfold CachedStore.getHeader
  rcases hget : cs.headerCache.get height with ⟨_ | header, cache⟩
  · rcases hstore : DefaultStore.getHeader c cs.db height with err | header
    · exact hcs
    · refine ⟨fun h header' hadded => ?_, hcs.blockData⟩
      rcases lookup_add hadded with ⟨rfl, rfl⟩ | hold
      · exact hstore
      · exact hcs.header h header' hold
  · refine ⟨fun h header' hcached => hcs.header h header' ?_, hcs.blockData⟩
    rw [hget] at hlookup
    exact (hlookup h).symm.trans hcached

theorem Current.getBlockData (hcs : cs.Current c) (height : ℕ) :
    (cs.getBlockData c height).2.Current c := by
  have hlookup := cs.blockDataCache.lookup_get height
  unfold CachedStore.getBlockData
  rcases hget : cs.blockDataCache.get height with ⟨_ | entry, cache⟩
  · rcases hstore : DefaultStore.getBlockData c cs.db height with err | ⟨header, data⟩
    · exact hcs
    refine ⟨fun h header' hadded => ?_, fun h entry hadded => ?_⟩
    · rcases lookup_add hadded with ⟨rfl, rfl⟩ | hold
      · -- the header of what was fetched
        unfold DefaultStore.getBlockData at hstore
        split at hstore
        · simp at hstore
        rename_i header' hheader
        split at hstore
        · simp at hstore
        · split at hstore
          · simp at hstore
          · obtain ⟨rfl, -⟩ := Prod.mk.inj (ok.inj hstore)
            exact hheader
      · exact hcs.header h header' hold
    · rcases lookup_add hadded with ⟨rfl, rfl⟩ | hold
      · exact hstore
      · exact hcs.blockData h entry hold
  · refine ⟨hcs.header, fun h entry' hcached => hcs.blockData h entry' ?_⟩
    rw [hget] at hlookup
    exact (hlookup h).symm.trans hcached

theorem getBlockData_cached (hcapacity : 0 < cs.blockDataCache.capacity) {height : ℕ}
    {entry : SignedHeader × Data} (hget : (cs.getBlockData c height).1 = .ok entry) :
    (cs.getBlockData c height).2.blockDataCache.lookup height = some entry := by
  have hfst := cs.blockDataCache.get_fst height
  have hlookup := cs.blockDataCache.lookup_get height height
  unfold CachedStore.getBlockData at hget ⊢
  rcases hcache : cs.blockDataCache.get height with ⟨_ | cached, cache⟩
  · rw [hcache] at hget
    rcases hstore : DefaultStore.getBlockData c cs.db height with err | ⟨header, data⟩
    · simp [hstore] at hget
    · rw [hstore] at hget
      obtain rfl := ok.inj hget
      exact lookup_add_self hcapacity
  · rw [hcache] at hget hfst hlookup
    obtain rfl := ok.inj hget
    exact hlookup.trans hfst.symm

theorem capacity_getHeader (height : ℕ) :
    (cs.getHeader c height).2.blockDataCache.capacity = cs.blockDataCache.capacity := by
  unfold CachedStore.getHeader
  split
  · rfl
  · split <;> rfl

theorem capacity_getBlockData (c : BlockCodec) (cs : CachedStore) (height : ℕ) :
    (cs.getBlockData c height).2.blockDataCache.capacity = cs.blockDataCache.capacity := by
  have hcapacity := cs.blockDataCache.capacity_get height
  unfold CachedStore.getBlockData
  rcases hget : cs.blockDataCache.get height with ⟨_ | entry, cache⟩
  · dsimp only
    split <;> rfl
  · rw [hget] at hcapacity
    exact hcapacity

/-! ## Removing -/

theorem invalidateRange_spec (cs : CachedStore) (fromHeight toHeight : ℕ) :
    (cs.invalidateRange fromHeight toHeight).db = cs.db ∧
      (cs.invalidateRange fromHeight toHeight).blockDataCache.capacity =
        cs.blockDataCache.capacity ∧
      (∀ h header, (cs.invalidateRange fromHeight toHeight).headerCache.lookup h = some header →
        cs.headerCache.lookup h = some header ∧ ¬ (fromHeight ≤ h ∧ h ≤ toHeight)) ∧
      ∀ h entry, (cs.invalidateRange fromHeight toHeight).blockDataCache.lookup h = some entry →
        cs.blockDataCache.lookup h = some entry ∧ ¬ (fromHeight ≤ h ∧ h ≤ toHeight) := by
  -- the two caches lose the same heights
  have hloop : ∀ (heights : List ℕ) (cs : CachedStore), heights.foldl (fun cs h => { cs with
      headerCache := cs.headerCache.remove h
      blockDataCache := cs.blockDataCache.remove h }) cs = { cs with
      headerCache := heights.foldl LruCache.remove cs.headerCache
      blockDataCache := heights.foldl LruCache.remove cs.blockDataCache } := by
    intro heights
    induction heights with
    | nil => exact fun _ => rfl
    | cons h heights ih => exact fun cs => ih _
  unfold invalidateRange
  rw [hloop]
  obtain ⟨-, hheader⟩ := cs.headerCache.foldl_remove
    (List.range' fromHeight (toHeight + 1 - fromHeight))
  obtain ⟨hcapacity, hentry⟩ := cs.blockDataCache.foldl_remove
    (List.range' fromHeight (toHeight + 1 - fromHeight))
  simp only [mem_range'_1] at hheader hentry
  refine ⟨rfl, hcapacity, fun h header hlookup => ?_, fun h entry hlookup => ?_⟩
  · obtain ⟨hleft, hrange⟩ := hheader h header hlookup
    exact ⟨hleft, by omega⟩
  · obtain ⟨hleft, hrange⟩ := hentry h entry hlookup
    exact ⟨hleft, by omega⟩

theorem Current.removes (hcs : cs.Current c) {R : ℕ → Prop} {db : Db}
    (hremoves : DefaultStore.Removes c cs.db R db) {fromHeight toHeight : ℕ}
    (hrange : ∀ h, R h → fromHeight ≤ h ∧ h ≤ toHeight) :
    (invalidateRange { cs with db := db } fromHeight toHeight).Current c := by
  obtain ⟨hdb, -, hheader, hentry⟩ :=
    invalidateRange_spec { cs with db := db } fromHeight toHeight
  refine ⟨fun h header hlookup => ?_, fun h entry hlookup => ?_⟩
  · obtain ⟨hold, hout⟩ := hheader h header hlookup
    obtain ⟨hsame, -, -⟩ := hremoves.kept h (fun hR => hout (hrange h hR))
    rw [hdb, getHeader_congr hsame]
    exact hcs.header h header hold
  · obtain ⟨hold, hout⟩ := hentry h entry hlookup
    obtain ⟨hsame, hdata, -⟩ := hremoves.kept h (fun hR => hout (hrange h hR))
    rw [hdb, getBlockData_congr hsame hdata]
    exact hcs.blockData h entry hold

theorem Current.rollback (hcs : cs.Current c) (committed : Bool) (height : ℕ)
    (aggregator : Bool) : (cs.rollback c committed height aggregator).2.Current c := by
  unfold CachedStore.rollback
  rcases hheight : DefaultStore.height cs.db with err | currentHeight
  · exact hcs
  rcases hrollback : DefaultStore.rollback c cs.db committed height aggregator with err | db
  · exact hcs
  obtain ⟨currentHeight', hheight', hremoves⟩ := rollback_removes hrollback
  obtain rfl := ok.inj (hheight.symm.trans hheight')
  exact hcs.removes hremoves (fun h hR => ⟨hR.1, hR.2⟩)

theorem Current.pruneBlocks (hcs : cs.Current c) (committed : Bool) (height : ℕ) :
    (cs.pruneBlocks c committed height).2.Current c := by
  unfold CachedStore.pruneBlocks
  rcases hprune : DefaultStore.pruneBlocks c cs.db committed height with err | db
  · exact hcs
  · exact hcs.removes (pruneBlocks_removes hprune) (fun h hR => by omega)

/-! ## Batches -/

def Leaves (c : BlockCodec) (cs : CachedStore) (writes : List Write) : Prop :=
  (∀ h, (cs.headerCache.lookup h).isSome →
    DefaultStore.getHeader c (cs.db.commit writes) h = DefaultStore.getHeader c cs.db h) ∧
  ∀ h, (cs.blockDataCache.lookup h).isSome →
    DefaultStore.getBlockData c (cs.db.commit writes) h = DefaultStore.getBlockData c cs.db h

def LegacyPending (c : BlockCodec) (db : Db) (height : ℕ) : Prop :=
  ∃ header data, DefaultStore.getBlockData c db height = .ok (header, data) ∧
    header.signature.length = 0 ∧ (c.signedHeaderBytes header).isSome

/-- An operation that changes nothing the caches hold: the batch leaves it as it is, and the
migration removes no legacy pending block. -/
def Op.Spares (c : BlockCodec) (cs : CachedStore) : Op → Prop
  | .commit writes committed => committed = true → cs.Leaves c writes
  | .migrateLegacyPendingBlock lastBlockHeight saved cleaned =>
    ¬ (LegacyPending c cs.db (lastBlockHeight + 1) ∧ saved = true ∧ cleaned = true)
  | _ => True

theorem Current.commit_iff (hcs : cs.Current c) (writes : List Write) :
    Current c { cs with db := cs.db.commit writes } ↔ cs.Leaves c writes := by
  constructor
  · intro hafter
    refine ⟨fun h hcached => ?_, fun h hcached => ?_⟩
    · obtain ⟨header, hlookup⟩ := isSome_iff_exists.mp hcached
      rw [hcs.header h header hlookup]
      exact hafter.header h header hlookup
    · obtain ⟨entry, hlookup⟩ := isSome_iff_exists.mp hcached
      rw [hcs.blockData h entry hlookup]
      exact hafter.blockData h entry hlookup
  · rintro ⟨hheader, hentry⟩
    refine ⟨fun h header hlookup => ?_, fun h entry hlookup => ?_⟩
    · exact (hheader h (by simp [hlookup])).trans (hcs.header h header hlookup)
    · exact (hentry h (by simp [hlookup])).trans (hcs.blockData h entry hlookup)

theorem leaves_of_other {writes : List Write}
    (hother : ∀ w ∈ writes, ∀ h, w.1 ≠ .header h ∧ w.1 ≠ .data h) : cs.Leaves c writes := by
  have hheader : ∀ h, cs.db.commit writes (.header h) = cs.db (.header h) := fun h =>
    Db.commit_other fun w hw => (hother w hw h).1
  have hdata : ∀ h, cs.db.commit writes (.data h) = cs.db (.data h) := fun h =>
    Db.commit_other fun w hw => (hother w hw h).2
  exact ⟨fun h _ => getHeader_congr (hheader h),
    fun h _ => getBlockData_congr (hheader h) (hdata h)⟩

theorem savePendingBlock_cases (cs : CachedStore) (header : SignedHeader) (data : Data)
    (committed : Bool) :
    (∃ err, cs.savePendingBlock c header data committed = (.error err, cs)) ∧
        ¬ ((c.signedHeaderBytes header).isSome ∧ committed = true) ∨
      ∃ writes, cs.savePendingBlock c header data committed =
          (.ok (), { cs with db := cs.db.commit writes }) ∧
        (∀ w ∈ writes, ∃ k, w.1 = .metadata k) ∧
        (c.signedHeaderBytes header).isSome ∧ committed = true := by
  unfold savePendingBlock
  rcases c.signedHeaderBytes header with _ | headerBytes
  · exact .inl ⟨⟨_, rfl⟩, by simp⟩
  by_cases hcommitted : committed = true
  · refine .inr ⟨_, if_pos hcommitted, fun w hw => ?_, rfl, hcommitted⟩
    simp only [mem_cons, not_mem_nil, or_false] at hw
    rcases hw with rfl | rfl
    · exact ⟨_, rfl⟩
    · exact ⟨_, rfl⟩
  · exact .inl ⟨⟨_, if_neg hcommitted⟩, by simp [hcommitted]⟩

theorem not_current_of_deleted (cs : CachedStore) {height : ℕ} {entry : SignedHeader × Data}
    (hcached : cs.blockDataCache.lookup height = some entry) (headerBytes : Bytes) :
    ¬ Current c
      { cs with db := cs.db.commit (DefaultStore.blockDeletes c height headerBytes) } := by
  intro hcurrent
  have hgone : cs.db.commit (DefaultStore.blockDeletes c height headerBytes) (.header height) =
      none := by
    refine Db.commit_written (mem_cons_self) (fun w hw _ => ?_)
    simp only [blockDeletes, mem_cons, not_mem_nil, or_false] at hw
    rcases hw with rfl | rfl | rfl | rfl <;> rfl
  have hstale := hcurrent.blockData height entry hcached
  simp only [DefaultStore.getBlockData, DefaultStore.getHeader, hgone] at hstale
  simp at hstale

theorem Current.migrate_iff (hcs : cs.Current c) (hcapacity : 0 < cs.blockDataCache.capacity)
    (lastBlockHeight : ℕ) (saved cleaned : Bool) :
    (cs.migrateLegacyPendingBlock c lastBlockHeight saved cleaned).2.Current c ↔
      ¬ (LegacyPending c cs.db (lastBlockHeight + 1) ∧ saved = true ∧ cleaned = true) := by
  have hstore : (cs.getBlockData c (lastBlockHeight + 1)).1 =
      DefaultStore.getBlockData c cs.db (lastBlockHeight + 1) :=
    (coherent_iff.mpr hcs (lastBlockHeight + 1)).2
  have hread := hcs.getBlockData (lastBlockHeight + 1)
  rcases hget : cs.getBlockData c (lastBlockHeight + 1) with ⟨err | ⟨header, data⟩, cs₁⟩
  · -- nothing found
    rw [hget] at hstore hread
    have hnot : ¬ (LegacyPending c cs.db (lastBlockHeight + 1) ∧ saved = true ∧
        cleaned = true) := by
      rintro ⟨⟨header, data, hfound, -⟩, -⟩
      exact absurd (hstore.trans hfound) (by simp)
    refine iff_of_true ?_ hnot
    unfold migrateLegacyPendingBlock
    dsimp only
    rw [hget]
    cases err <;> exact hread
  have hcached := getBlockData_cached hcapacity (congrArg Prod.fst hget)
  rw [hget] at hstore hread hcached
  have hlegacy : LegacyPending c cs.db (lastBlockHeight + 1) ↔
      header.signature.length = 0 ∧ (c.signedHeaderBytes header).isSome := by
    constructor
    · rintro ⟨header', data', hfound, hunsigned, hbytes⟩
      obtain ⟨rfl, rfl⟩ := Prod.mk.inj (ok.inj (hstore.trans hfound))
      exact ⟨hunsigned, hbytes⟩
    · exact fun hand => ⟨header, data, hstore.symm, hand⟩
  rw [hlegacy]
  unfold migrateLegacyPendingBlock
  simp only [hget]
  by_cases hsigned : header.signature.length ≠ 0
  · rw [if_pos hsigned]
    exact iff_of_true hread (fun hand => hsigned hand.1.1)
  rw [if_neg hsigned]
  rcases savePendingBlock_cases cs₁ header data saved with
    ⟨⟨err, hsave⟩, hnot⟩ | ⟨writes, hsave, hmeta, hbytes, hsaved⟩
  · rw [hsave]
    exact iff_of_true hread (fun hand => hnot ⟨hand.1.2, hand.2.1⟩)
  rw [hsave]
  obtain ⟨headerBytes, hmarshal⟩ := isSome_iff_exists.mp hbytes
  -- the pending block is saved; its metadata is not what the caches are about
  have hsavedCurrent : Current c { cs₁ with db := cs₁.db.commit writes } := by
    refine (hread.commit_iff writes).mpr (leaves_of_other fun w hw h => ?_)
    obtain ⟨k, hk⟩ := hmeta w hw
    simp [hk]
  simp only [hmarshal, commit]
  by_cases hcleaned : cleaned = true
  · rw [if_pos hcleaned]
    refine iff_of_false ?_ (fun hnot => hnot ⟨⟨not_not.mp hsigned, rfl⟩, hsaved, hcleaned⟩)
    exact not_current_of_deleted { cs₁ with db := cs₁.db.commit writes } hcached headerBytes
  · rw [if_neg hcleaned]
    exact iff_of_true hsavedCurrent (fun hand => hcleaned hand.2.2)

/-! ## Runs -/

theorem capacity_step (op : Op) :
    (cs.step c op).blockDataCache.capacity = cs.blockDataCache.capacity := by
  have hsave : ∀ (cs : CachedStore) header data committed,
      (cs.savePendingBlock c header data committed).2.blockDataCache = cs.blockDataCache := by
    intro cs header data committed
    rcases savePendingBlock_cases (c := c) cs header data committed with
      ⟨⟨err, hsave⟩, -⟩ | ⟨writes, hsave, -⟩
    · rw [hsave]
    · rw [hsave]
  cases op with
  | getHeader height => exact capacity_getHeader height
  | getBlockData height => exact capacity_getBlockData c cs height
  | commit writes committed =>
    unfold step commit
    dsimp only
    split_ifs <;> rfl
  | rollback height aggregator committed =>
    unfold step rollback
    dsimp only
    split
    · rfl
    · split
      · rfl
      · exact (invalidateRange_spec _ _ _).2.1
  | pruneBlocks height committed =>
    unfold step pruneBlocks
    dsimp only
    split
    · rfl
    · exact (invalidateRange_spec _ _ _).2.1
  | savePendingBlock header data committed => exact congrArg _ (hsave cs header data committed)
  | migrateLegacyPendingBlock lastBlockHeight saved cleaned =>
    have hread := capacity_getBlockData c cs (lastBlockHeight + 1)
    unfold step migrateLegacyPendingBlock
    dsimp only
    rcases hget : cs.getBlockData c (lastBlockHeight + 1) with ⟨err | ⟨header, data⟩, cs₁⟩
    · rw [hget] at hread
      cases err <;> exact hread
    rw [hget] at hread
    dsimp only at hread ⊢
    split_ifs
    · exact hread
    have hsaved := hsave cs₁ header data saved
    rcases hcall : cs₁.savePendingBlock c header data saved with ⟨err | _, cs₂⟩
    · rw [hcall] at hsaved
      exact (congrArg _ hsaved).trans hread
    rw [hcall] at hsaved
    rcases c.signedHeaderBytes header with _ | headerBytes
    · exact (congrArg _ hsaved).trans hread
    · cases cleaned
      · exact (congrArg _ hsaved).trans hread
      · exact (congrArg _ hsaved).trans hread

theorem Current.step_iff (hcs : cs.Current c) (hcapacity : 0 < cs.blockDataCache.capacity)
    (op : Op) : (cs.step c op).Current c ↔ op.Spares c cs := by
  cases op with
  | getHeader height => exact iff_of_true (hcs.getHeader height) trivial
  | getBlockData height => exact iff_of_true (hcs.getBlockData height) trivial
  | commit writes committed =>
    unfold step commit
    dsimp only
    by_cases hcommitted : committed = true
    · rw [if_pos hcommitted, hcs.commit_iff writes]
      exact ⟨fun hleaves _ => hleaves, fun hleaves => hleaves hcommitted⟩
    · rw [if_neg hcommitted]
      exact iff_of_true hcs (fun h => absurd h hcommitted)
  | rollback height aggregator committed =>
    exact iff_of_true (hcs.rollback committed height aggregator) trivial
  | pruneBlocks height committed => exact iff_of_true (hcs.pruneBlocks committed height) trivial
  | savePendingBlock header data committed =>
    refine iff_of_true ?_ trivial
    unfold step
    dsimp only
    rcases savePendingBlock_cases (c := c) cs header data committed with
      ⟨⟨err, hsave⟩, -⟩ | ⟨writes, hsave, hmeta, -⟩
    · rw [hsave]
      exact hcs
    · rw [hsave]
      refine (hcs.commit_iff writes).mpr (leaves_of_other fun w hw h => ?_)
      obtain ⟨k, hk⟩ := hmeta w hw
      simp [hk]
  | migrateLegacyPendingBlock lastBlockHeight saved cleaned =>
    exact hcs.migrate_iff hcapacity lastBlockHeight saved cleaned

/-- From a current cache, a run is coherent throughout exactly if each of its operations spares
the caches. -/
theorem Current.run_iff {ops : List Op} : ∀ {cs : CachedStore}, cs.Current c →
    0 < cs.blockDataCache.capacity →
    ((∀ pre post, ops = pre ++ post → (pre.foldl (CachedStore.step c) cs).Coherent c) ↔
      ∀ p ∈ Runs.steps (CachedStore.step c) cs ops, p.2.Spares c p.1) := by
  induction ops with
  | nil =>
    intro cs hcs hcapacity
    refine iff_of_true (fun pre post hsplit => ?_) (fun p hp => absurd hp not_mem_nil)
    obtain ⟨rfl, -⟩ := append_eq_nil_iff.mp hsplit.symm
    exact coherent_iff.mpr hcs
  | cons op ops ih =>
    intro cs hcs hcapacity
    have hnext : 0 < (cs.step c op).blockDataCache.capacity := by
      rw [capacity_step]
      exact hcapacity
    constructor
    · intro hall p hp
      have hstep : (cs.step c op).Current c := coherent_iff.mp (hall [op] ops rfl)
      rw [Runs.steps_cons, mem_cons] at hp
      rcases hp with rfl | hp
      · exact (hcs.step_iff hcapacity op).mp hstep
      · refine (ih hstep hnext).mp (fun pre post hsplit => ?_) p hp
        exact hall (op :: pre) post (by rw [hsplit]; rfl)
    · intro hspares pre post hsplit
      rcases pre with _ | ⟨op', pre⟩
      · exact coherent_iff.mpr hcs
      obtain ⟨rfl, hrest⟩ := cons.inj hsplit
      have hstep := (hcs.step_iff hcapacity op).mpr
        (hspares (cs, op) (by rw [Runs.steps_cons]; exact mem_cons_self))
      refine (ih hstep hnext).mpr (fun p hp => hspares p ?_) pre post hrest
      exact mem_cons_of_mem _ hp

theorem new_current (db : Db) (headerCacheSize blockDataCacheSize : ℕ) :
    (new db headerCacheSize blockDataCacheSize).Current c :=
  ⟨fun _ _ hlookup => absurd hlookup (by simp [new]),
    fun _ _ hlookup => absurd hlookup (by simp [new])⟩

/-- On every store and for all sizes of the caches: after any operations whatever, reads through
the caches return what the embedded store would, exactly if no committed batch has changed a
height that was cached when it was committed, and no migration has removed a legacy pending
block. -/
theorem cached_store_coherent_iff (c : BlockCodec) (db : Db)
    (headerCacheSize blockDataCacheSize : ℕ) (hsize : 0 < blockDataCacheSize) (ops : List Op) :
    (∀ pre post, ops = pre ++ post → (pre.foldl (step c)
        (new db headerCacheSize blockDataCacheSize)).Coherent c) ↔
      ∀ p ∈ Runs.steps (step c) (new db headerCacheSize blockDataCacheSize) ops,
        p.2.Spares c p.1 :=
  (new_current db headerCacheSize blockDataCacheSize).run_iff hsize

/-! ## A legacy pending block -/

def legacyHeader : SignedHeader :=
  ⟨⟨1, 1, "chain", ⟨0, 0⟩, [], [2], [], [], [7], none⟩, [], ⟨none, []⟩⟩

def signedHeader : SignedHeader := { legacyHeader with signature := [7] }

def legacyData : Data := ⟨some ⟨"chain", 1, 1, []⟩, []⟩

def legacyCodec : BlockCodec where
  headerBytes := fun _ => [1]
  headerBytesLegacy := fun _ => [1]
  dataBytes := fun _ => [5]
  sha256 := id
  signedHeaderBytes := fun h => some (1 :: h.signature)
  unmarshalHeader := fun bz =>
    if bz = [1] then some legacyHeader else if bz = [1, 7] then some signedHeader else none
  unmarshalData := fun _ => some legacyData
  stateBytes := fun _ => some []

def legacyDb : Db :=
  Db.commit (fun _ => none)
    (saveBlockDataFromBytes legacyCodec legacyHeader [1] [5] [])

def upgrade : List Op :=
  [.migrateLegacyPendingBlock 0 true true,
    .commit (saveBlockDataFromBytes legacyCodec signedHeader [1, 7] [5] [7]) true]

/-- After the migration the deleted block is still read, and after the commit the unsigned one
instead of the signed one. -/
theorem migrated_block_read_from_cache :
    (((upgrade.take 1).foldl (step legacyCodec) (new legacyDb 200000 200000)).getBlockData
        legacyCodec 1).1 = .ok (legacyHeader, legacyData) ∧
      DefaultStore.getBlockData legacyCodec
        ((upgrade.take 1).foldl (step legacyCodec) (new legacyDb 200000 200000)).db 1 =
          .error (.notFound (.header 1)) ∧
      ((upgrade.foldl (step legacyCodec) (new legacyDb 200000 200000)).getHeader
        legacyCodec 1).1 = .ok legacyHeader ∧
      DefaultStore.getHeader legacyCodec
        (upgrade.foldl (step legacyCodec) (new legacyDb 200000 200000)).db 1 =
          .ok signedHeader := by
  decide +kernel

theorem cached_store_coherent_of_pruning :
    ([Op.getBlockData 1, .savePendingBlock signedHeader legacyData true, .pruneBlocks 1 true,
      .getHeader 1].foldl (step legacyCodec) (new legacyDb 200000 200000)).Coherent
        legacyCodec := by
  refine (cached_store_coherent_iff legacyCodec legacyDb 200000 200000 (by decide)
    [.getBlockData 1, .savePendingBlock signedHeader legacyData true, .pruneBlocks 1 true,
      .getHeader 1]).mpr ?_ _ [] (append_nil _).symm
  intro p hp
  simp only [Runs.steps_cons, Runs.steps_nil, mem_cons, not_mem_nil, or_false] at hp
  rcases hp with rfl | rfl | rfl | rfl <;> exact trivial

end CachedStore

end ChainSdk

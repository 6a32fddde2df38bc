/-
What is still to be submitted to DA: `pendingBase` of `block/internal/cache/pending_base.go`, with
the headers and the data of a store behind it (`pending_headers.go`, `pending_data.go`).

A `pendingBase` is a height, in memory and in the datastore, up to which everything has been
submitted, and a cache of what lies above.
-/
import ChainSdk.LruCache
import ChainSdk.DaRetriever
import ChainSdk.Store

namespace ChainSdk

open Except List

inductive PendingListError
  | storeHeight
  | submittedAhead (lastSubmitted storeHeight : ℕ)
  | notFound (height : ℕ)
  | unreadable (height : ℕ)
  /-- `errInFlightHeader` and `errInFlightData`. -/
  | inFlight
  deriving DecidableEq

def defaultPendingCacheSize : ℕ := 200000

structure PendingBase (α : Type) where
  lastHeight : ℕ
  pendingCache : LruCache ℕ α
  metadata : Option ℕ

namespace PendingBase

variable {α : Type}

def init (metadata : Option ℕ) : PendingBase α :=
  ⟨metadata.getD 0, .new defaultPendingCacheSize, metadata⟩

/-! ## The pending items -/

/-- The first loop of `getPending`: what is not cached is fetched. -/
def fetchMissing (fetch : ℕ → Except PendingListError α) :
    LruCache ℕ α → List ℕ → Except PendingListError Unit × LruCache ℕ α
  | cache, [] => (.ok (), cache)
  | cache, h :: hs =>
    match cache.lookup h with
    | some _ => fetchMissing fetch cache hs
    | none =>
      match fetch h with
      | .error e => (.error e, cache)
      | .ok item => fetchMissing fetch (cache.add h item) hs

/-- The second loop: the items from the cache, fetched again where they are gone. -/
def collect (fetch : ℕ → Except PendingListError α) :
    LruCache ℕ α → List ℕ → Except PendingListError (List α) × LruCache ℕ α
  | cache, [] => (.ok [], cache)
  | cache, h :: hs =>
    match (cache.get h).1 with
    | some item =>
      let rest := collect fetch (cache.get h).2 hs
      (rest.1.map (item :: ·), rest.2)
    | none =>
      match fetch h with
      | .error e => (.error e, (cache.get h).2)
      | .ok item =>
        let rest := collect fetch ((cache.get h).2.add h item) hs
        (rest.1.map (item :: ·), rest.2)

def pendingCount (lastSubmitted storeHeight : ℕ) : ℕ :=
  min (storeHeight - lastSubmitted) defaultPendingCacheSize

def getPending (pb : PendingBase α) (storeHeight : Option ℕ)
    (fetch : ℕ → Except PendingListError α) : Except PendingListError (List α) × PendingBase α :=
  match storeHeight with
  | none => (.error .storeHeight, pb)
  | some storeHeight =>
    if pb.lastHeight = storeHeight then (.ok [], pb)
    else if storeHeight < pb.lastHeight then
      (.error (.submittedAhead pb.lastHeight storeHeight), pb)
    else
      let heights := List.range' (pb.lastHeight + 1) (pendingCount pb.lastHeight storeHeight)
      match fetchMissing fetch pb.pendingCache heights with
      | (.error e, cache) => (.error e, { pb with pendingCache := cache })
      | (.ok (), cache) =>
        let collected := collect fetch cache heights
        (collected.1, { pb with pendingCache := collected.2 })

/-! ## The height -/

end PendingBase

/-- Where a call of `setLastSubmittedHeight` is: before its load, before its swap, with the
height it has loaded, or before its write to the datastore. -/
inductive SetPc
  | loading (new : ℕ)
  | swapping (new lsh : ℕ)
  | writing (new : ℕ)
  deriving DecidableEq

def SetPc.new : SetPc → ℕ
  | .loading new | .swapping new _ | .writing new => new

/-- The call is about to write a height. -/
def SetPc.Writes (pc : SetPc) (new : ℕ) : Prop := pc = .writing new

instance (pc : SetPc) (new : ℕ) : Decidable (pc.Writes new) :=
  inferInstanceAs (Decidable (_ = _))

namespace PendingBase

variable {α : Type}

/-- One step of `setLastSubmittedHeight`, and where the call is then if it goes on. -/
def setStep (pb : PendingBase α) (written : Bool) : SetPc → PendingBase α × Option SetPc
  | .loading new =>
    (pb, if pb.lastHeight < new then some (.swapping new pb.lastHeight) else none)
  | .swapping new lsh =>
    if pb.lastHeight = lsh then ({ pb with lastHeight := new }, some (.writing new))
    else (pb, none)
  | .writing new => (if written then { pb with metadata := some new } else pb, none)

end PendingBase

/-! ## Headers and data of a store -/

def Store.headerAt (store : Store) (height : ℕ) : Option SignedHeader :=
  (store.blocks height).map StoredBlock.header

def Store.dataAt (store : Store) (height : ℕ) : Option Data :=
  (store.blocks height).map StoredBlock.data

/-- What `fetchSignedHeader` and `fetchData` share: work in progress has height zero. -/
def fetchItem {α : Type} (itemHeight : α → ℕ) (item : ℕ → Option α) (height : ℕ) :
    Except PendingListError α :=
  match item height with
  | none => .error (.notFound height)
  | some x => if itemHeight x = 0 then .error .inFlight else .ok x

def fetchSignedHeader (store : Store) (height : ℕ) : Except PendingListError SignedHeader :=
  fetchItem (fun header => header.header.height) store.headerAt height

def fetchData (store : Store) (height : ℕ) : Except PendingListError Data :=
  fetchItem DaRetriever.dataHeight store.dataAt height

namespace PendingBase

variable {α : Type} {item : ℕ → Option α} {fetch : ℕ → Except PendingListError α} {bound : ℕ}
  {cache : LruCache ℕ α} {pb : PendingBase α}

theorem getPending_heights (pb : PendingBase α) (storeHeight : Option ℕ)
    (fetch : ℕ → Except PendingListError α) :
    (pb.getPending storeHeight fetch).2.lastHeight = pb.lastHeight ∧
      (pb.getPending storeHeight fetch).2.metadata = pb.metadata := by
  unfold getPending
  split
  · exact ⟨rfl, rfl⟩
  dsimp only
  split_ifs
  · exact ⟨rfl, rfl⟩
  · exact ⟨rfl, rfl⟩
  · split <;> exact ⟨rfl, rfl⟩

/-! ## What is listed -/

def CacheOf (item : ℕ → Option α) (bound : ℕ) (cache : LruCache ℕ α) : Prop :=
  ∀ h x, cache.lookup h = some x → h ≤ bound ∧ item h = some x

theorem cacheOf_new (capacity : ℕ) : CacheOf item bound (.new capacity) :=
  fun h x hx => absurd hx (by simp)

theorem CacheOf.add (hcache : CacheOf item bound cache) {h : ℕ} {x : α} (hle : h ≤ bound)
    (hx : item h = some x) : CacheOf item bound (cache.add h x) := by
  intro h' x' hlookup
  rcases LruCache.lookup_add hlookup with ⟨rfl, rfl⟩ | hold
  · exact ⟨hle, hx⟩
  · exact hcache h' x' hold

theorem CacheOf.get (hcache : CacheOf item bound cache) (h : ℕ) :
    CacheOf item bound (cache.get h).2 := by
  intro h' x' hlookup
  rw [LruCache.lookup_get] at hlookup
  exact hcache h' x' hlookup

section

variable (hfetch : ∀ h x, fetch h = .ok x → item h = some x)

include hfetch

theorem fetchMissing_cacheOf {hs : List ℕ} (hcache : CacheOf item bound cache)
    (hle : ∀ h ∈ hs, h ≤ bound) : CacheOf item bound (fetchMissing fetch cache hs).2 := by
  induction hs generalizing cache with
  | nil => exact hcache
  | cons h hs ih =>
    rw [forall_mem_cons] at hle
    unfold fetchMissing
    split
    · exact ih hcache hle.2
    · split
      · exact hcache
      · rename_i x hx
        exact ih (hcache.add hle.1 (hfetch h x hx)) hle.2

theorem collect_spec {hs : List ℕ} (hcache : CacheOf item bound cache) (hle : ∀ h ∈ hs, h ≤ bound) :
    CacheOf item bound (collect fetch cache hs).2 ∧
      ∀ items, (collect fetch cache hs).1 = .ok items → items.map some = hs.map item := by
  induction hs generalizing cache with
  | nil =>
    refine ⟨hcache, fun items hitems => ?_⟩
    rw [← ok.inj hitems]
    rfl
  | cons h hs ih =>
    rw [forall_mem_cons] at hle
    -- either way the item of this height is put in front of those of the rest
    have hcons : ∀ cache' x, CacheOf item bound cache' → item h = some x →
        CacheOf item bound (collect fetch cache' hs).2 ∧
          ∀ items, (collect fetch cache' hs).1.map (x :: ·) = .ok items →
            items.map some = (h :: hs).map item := by
      intro cache' x hcache' hx
      obtain ⟨hrest, hitems⟩ := ih hcache' hle.2
      refine ⟨hrest, fun items hmap => ?_⟩
      rcases hcollect : (collect fetch cache' hs).1 with e | rest
      · rw [hcollect] at hmap
        exact absurd hmap (by simp [Except.map])
      · rw [hcollect] at hmap
        rw [← ok.inj hmap, map_cons, map_cons, hx, hitems rest hcollect]
    unfold collect
    split
    · rename_i x hx
      rw [LruCache.get_fst] at hx
      exact hcons _ x (hcache.get h) (hcache h x hx).2
    · split
      · exact ⟨hcache.get h, fun items hitems => absurd hitems (by simp)⟩
      · rename_i x hx
        exact hcons _ x ((hcache.get h).add hle.1 (hfetch h x hx)) (hfetch h x hx)

theorem getPending_spec (hcache : CacheOf item bound pb.pendingCache)
    {storeHeight : Option ℕ} (hbound : ∀ h, storeHeight = some h → h ≤ bound) :
    CacheOf item bound (pb.getPending storeHeight fetch).2.pendingCache ∧
      ∀ items, (pb.getPending storeHeight fetch).1 = .ok items →
        ∃ h, storeHeight = some h ∧ pb.lastHeight ≤ h ∧
          items.map some =
            (List.range' (pb.lastHeight + 1) (pendingCount pb.lastHeight h)).map item := by
  unfold getPending
  rcases storeHeight with _ | storeHeight
  · exact ⟨hcache, fun items hitems => absurd hitems (by simp)⟩
  dsimp only
  have hstore := hbound storeHeight rfl
  split_ifs with hall hahead
  · refine ⟨hcache, fun items hitems => ⟨storeHeight, rfl, hall.le, ?_⟩⟩
    rw [← ok.inj hitems, pendingCount, hall, Nat.sub_self]
    rfl
  · exact ⟨hcache, fun items hitems => absurd hitems (by simp)⟩
  have hheights : ∀ h ∈ List.range' (pb.lastHeight + 1)
      (pendingCount pb.lastHeight storeHeight), h ≤ bound := by
    intro h hh
    rw [mem_range'_1, pendingCount] at hh
    omega
  have hmissing := fetchMissing_cacheOf hfetch hcache hheights
  rcases hfetched : fetchMissing fetch pb.pendingCache (List.range' (pb.lastHeight + 1)
    (pendingCount pb.lastHeight storeHeight)) with ⟨e | _, cache'⟩
  · rw [hfetched] at hmissing
    exact ⟨hmissing, fun items hitems => absurd hitems (by simp)⟩
  · rw [hfetched] at hmissing
    obtain ⟨hcollected, hcollect⟩ := collect_spec hfetch hmissing hheights
    exact ⟨hcollected, fun items hitems =>
      ⟨storeHeight, rfl, by omega, hcollect items hitems⟩⟩

end

/-! ## That it is listed -/

theorem fetchMissing_ok {hs : List ℕ} (hall : ∀ h ∈ hs, ∃ x, fetch h = .ok x)
    (cache : LruCache ℕ α) : (fetchMissing fetch cache hs).1 = .ok () := by
  induction hs generalizing cache with
  | nil => rfl
  | cons h hs ih =>
    rw [forall_mem_cons] at hall
    obtain ⟨⟨x, hx⟩, hrest⟩ := hall
    unfold fetchMissing
    rw [hx]
    split
    · exact ih hrest _
    · exact ih hrest _

theorem collect_ok {hs : List ℕ} (hall : ∀ h ∈ hs, ∃ x, fetch h = .ok x)
    (cache : LruCache ℕ α) : ∃ items, (collect fetch cache hs).1 = .ok items := by
  induction hs generalizing cache with
  | nil => exact ⟨[], rfl⟩
  | cons h hs ih =>
    rw [forall_mem_cons] at hall
    obtain ⟨⟨x, hx⟩, hrest⟩ := hall
    unfold collect
    rw [hx]
    split
    · rename_i y _
      obtain ⟨items, hitems⟩ := ih hrest (cache.get h).2
      exact ⟨y :: items, by dsimp only; rw [hitems]; rfl⟩
    · obtain ⟨items, hitems⟩ := ih hrest ((cache.get h).2.add h x)
      exact ⟨x :: items, by dsimp only; rw [hitems]; rfl⟩

theorem getPending_ok {storeHeight : ℕ} (hlast : pb.lastHeight ≤ storeHeight)
    (hall : ∀ h, pb.lastHeight < h → h ≤ storeHeight → ∃ x, fetch h = .ok x) :
    ∃ items, (pb.getPending (some storeHeight) fetch).1 = .ok items := by
  unfold getPending
  dsimp only
  split_ifs with hnone hahead
  · exact ⟨[], rfl⟩
  · omega
  have hheights : ∀ h ∈ List.range' (pb.lastHeight + 1)
      (pendingCount pb.lastHeight storeHeight), ∃ x, fetch h = .ok x := by
    intro h hh
    rw [mem_range'_1, pendingCount] at hh
    exact hall h (by omega) (by omega)
  have hmissing := fetchMissing_ok hheights pb.pendingCache
  rcases hfetched : fetchMissing fetch pb.pendingCache (List.range' (pb.lastHeight + 1)
    (pendingCount pb.lastHeight storeHeight)) with ⟨e | _, cache'⟩
  · simp [hfetched] at hmissing
  · exact collect_ok hheights cache'

theorem getPending_error {storeHeight : ℕ} (hlast : pb.lastHeight < storeHeight)
    (hcached : pb.pendingCache.lookup (pb.lastHeight + 1) = none) {e : PendingListError}
    (hfirst : fetch (pb.lastHeight + 1) = .error e) :
    pb.getPending (some storeHeight) fetch = (.error e, pb) := by
  have hcount : pendingCount pb.lastHeight storeHeight =
      (pendingCount pb.lastHeight storeHeight - 1) + 1 := by
    rw [pendingCount, defaultPendingCacheSize]
    omega
  unfold getPending
  dsimp only
  rw [if_neg (by omega), if_neg (by omega), hcount, List.range'_succ]
  unfold fetchMissing
  simp only [hcached, hfirst]

end PendingBase

end ChainSdk

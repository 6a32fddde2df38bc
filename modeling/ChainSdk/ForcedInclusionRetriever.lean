/-
`block/internal/da/forced_inclusion_retriever.go` and `async_block_retriever.go`: how the forced
transactions of a DA epoch are read.

`RetrieveForcedIncludedTxs` answers with an empty event at every height that is not an epoch end.
-/
import ChainSdk.Epoch
import ChainSdk.Ranges
import ChainSdk.Types

namespace ChainSdk

open Function List Option

/-! ## Replies of the DA layer (`pkg/da/types`) -/

inductive StatusCode
  | unknown
  | success
  | notFound
  | notIncludedInBlock
  | alreadyInMempool
  | tooBig
  | contextDeadline
  | error
  | incorrectAccountSequence
  | contextCanceled
  | heightFromFuture
  deriving DecidableEq, Repr

/-- `datypes.ResultRetrieve`, the fields a retrieval reads. -/
structure ResultRetrieve where
  code : StatusCode
  message : String
  timestamp : Time
  data : List Blob
  deriving DecidableEq

structure Client where
  forcedNamespaceBz : Bytes
  hasForcedNamespace : Bool

structure BlockData where
  height : ℕ
  timestamp : Time
  blobs : List Blob
  deriving DecidableEq

inductive RetrieveError
  | forceInclusionNotConfigured
  | beforeStartHeight (daHeight daStartHeight : ℕ)
  | heightFromFuture (height : ℕ)
  | failedHeight (height : ℕ) (message : String)
  deriving DecidableEq

/-! ## The prefetcher -/

/-- `time.Time.UnixNano` followed by `time.Unix(0, _)`: the round trip of a timestamp
through the cache, which wraps instants outside the `int64` range. -/
def unixNano (t : Time) : Time := (t + 2 ^ 63) % 2 ^ 64 - 2 ^ 63

structure AsyncBlockRetriever where
  namespaceBz : Bytes
  daStartHeight : ℕ
  cache : ℕ → Option BlockData
  currentDAHeight : ℕ
  prefetchWindow : ℕ

namespace AsyncBlockRetriever

def new (namespaceBz : Bytes) (daStartHeight prefetchWindow : ℕ) : AsyncBlockRetriever where
  namespaceBz := namespaceBz
  daStartHeight := daStartHeight
  cache := fun _ => none
  currentDAHeight := daStartHeight
  prefetchWindow := if prefetchWindow = 0 then 10 else prefetchWindow

variable (f : AsyncBlockRetriever)

def updateCurrentHeight (height : ℕ) : AsyncBlockRetriever :=
  if height ≤ f.currentDAHeight then f else { f with currentDAHeight := height }

def getCachedBlock (daHeight : ℕ) : Except RetrieveError (Option BlockData) :=
  if f.namespaceBz.length = 0 then .ok none
  else if daHeight < f.daStartHeight then
    .error (.beforeStartHeight daHeight f.daStartHeight)
  else .ok (f.cache daHeight)

def fetchAndCacheBlock (height : ℕ) (result : ResultRetrieve) : AsyncBlockRetriever :=
  let put (blobs : List Blob) : AsyncBlockRetriever :=
    let block : BlockData := ⟨height, unixNano result.timestamp, blobs⟩
    { f with cache := update f.cache height (some block) }
  match result.code with
  | .heightFromFuture => f
  | .notFound => put []
  | .success => put (result.data.filter (fun blob => 0 < blob.length))
  | _ => f

def cleanupOldBlocks (currentHeight : ℕ) : AsyncBlockRetriever :=
  if currentHeight < f.prefetchWindow then f
  else { f with cache := fun h =>
          if h < currentHeight - f.prefetchWindow then none else f.cache h }

inductive BackgroundStep
  /-- One round of the loop of `prefetchBlocks`, with the DA reply it would get. -/
  | prefetch (targetHeight : ℕ) (result : ResultRetrieve)
  /-- The cleaning up at the end of `prefetchBlocks`. -/
  | cleanup (currentHeight : ℕ)

/-- Run one background step. Nothing is fetched without a namespace, and a height that
is already cached is skipped. -/
def runBackground : BackgroundStep → AsyncBlockRetriever
  | .prefetch targetHeight result =>
    if f.namespaceBz.length = 0 then f
    else if (f.cache targetHeight).isSome then f
    else f.fetchAndCacheBlock targetHeight result
  | .cleanup currentHeight =>
    if f.namespaceBz.length = 0 then f else f.cleanupOldBlocks currentHeight

/-- `prefetchBlocks`: one round a height of the window, then the cleaning up. -/
def prefetchBlocks (retrieve : ℕ → ResultRetrieve) : AsyncBlockRetriever :=
  let currentHeight := f.currentDAHeight
  let rounds : List BackgroundStep := (List.range f.prefetchWindow).map
    (fun i => .prefetch (currentHeight + i) (retrieve (currentHeight + i)))
  (rounds ++ [BackgroundStep.cleanup currentHeight]).foldl runBackground f

end AsyncBlockRetriever

/-! ## Reading one epoch -/

structure ForcedInclusionEvent where
  timestamp : Time
  startDaHeight : ℕ
  endDaHeight : ℕ
  txs : List Tx
  deriving DecidableEq

structure ForcedInclusionRetriever where
  client : Client
  daEpochSize : ℕ
  daStartHeight : ℕ
  asyncFetcher : AsyncBlockRetriever

/-- What the outside world does during one `RetrieveForcedIncludedTxs` call: the reply for each
height, and the background steps just before the cache look-up of each. -/
structure RetrieveEnv where
  retrieve : ℕ → ResultRetrieve
  background : ℕ → List AsyncBlockRetriever.BackgroundStep

variable {block : ℕ → Option BlockData} (namespaceBz : Bytes) {event : ForcedInclusionEvent}
  {result : ResultRetrieve} (background : ℕ → List AsyncBlockRetriever.BackgroundStep)

namespace ForcedInclusionRetriever

def new (client : Client) (daStartHeight daEpochSize : ℕ) : ForcedInclusionRetriever where
  client := client
  daEpochSize := daEpochSize
  daStartHeight := daStartHeight
  asyncFetcher := .new client.forcedNamespaceBz daStartHeight (daEpochSize * 2)

/-- Variables of the cache loop: the cached blocks and the missing heights so far. -/
structure LookUp where
  fetcher : AsyncBlockRetriever
  cachedBlocks : ℕ → Option BlockData
  missingHeights : List ℕ

section

variable (background : ℕ → List AsyncBlockRetriever.BackgroundStep)

/-- One round of the cache loop. A look-up that fails counts as a miss. -/
def lookUpStep (l : LookUp) (h : ℕ) : LookUp :=
  let fetcher := (background h).foldl AsyncBlockRetriever.runBackground l.fetcher
  match fetcher.getCachedBlock h with
  -- the background may have filled or cleaned this height since the last round
  | .ok (some block) =>
    { l with fetcher := fetcher, cachedBlocks := update l.cachedBlocks h block }
  | _ => { l with fetcher := fetcher, missingHeights := l.missingHeights ++ [h] }

/-- Variables of the fetch loop: the fetched blocks and the joined `processErrs`. -/
structure SyncFetch where
  syncFetchedBlocks : ℕ → Option BlockData
  processErrs : List RetrieveError

/-- One round of the fetch loop over the missing heights. -/
def syncFetchStep (retrieve : ℕ → ResultRetrieve) (acc : SyncFetch) (h : ℕ) :
    Except RetrieveError SyncFetch :=
  let result := retrieve h
  let store (block : BlockData) : SyncFetch :=
    { acc with syncFetchedBlocks := update acc.syncFetchedBlocks h (some block) }
  match result.code with
  | .heightFromFuture => .error (.heightFromFuture h)
  -- an empty height counts as read, so it is stored as an empty block
  | .notFound => .ok (store ⟨0, result.timestamp, []⟩)
  | .success => .ok (store ⟨0, result.timestamp, result.data⟩)
  | _ => .ok { acc with processErrs := acc.processErrs ++ [.failedHeight h result.message] }

def syncFetch (retrieve : ℕ → ResultRetrieve) :
    SyncFetch → List ℕ → Except RetrieveError SyncFetch
  | acc, [] => .ok acc
  | acc, h :: hs =>
    match syncFetchStep retrieve acc h with
    | .error e => .error e
    | .ok acc => syncFetch retrieve acc hs

/-- One round of the joining loop: the non-empty blobs are appended and the timestamp
is raised to the block's. -/
def addBlock (event : ForcedInclusionEvent) : Option BlockData → ForcedInclusionEvent
  | none => event
  | some block =>
    { event with
      txs := event.txs ++ block.blobs.filter (fun blob => 0 < blob.length)
      timestamp := if event.timestamp < block.timestamp then block.timestamp
        else event.timestamp }

def joinBlocks (block : ℕ → Option BlockData) (event : ForcedInclusionEvent)
    (heights : List ℕ) : ForcedInclusionEvent :=
  heights.foldl (fun event h => addBlock event (block h)) event

/-- `RetrieveForcedIncludedTxs`, and the retriever afterwards, whose prefetcher has a new current
height and has run on. -/
def retrieveForcedIncludedTxs (r : ForcedInclusionRetriever) (env : RetrieveEnv)
    (daHeight : ℕ) : Except RetrieveError ForcedInclusionEvent × ForcedInclusionRetriever :=
  if !r.client.hasForcedNamespace then (.error .forceInclusionNotConfigured, r)
  else if daHeight < r.daStartHeight then
    (.error (.beforeStartHeight daHeight r.daStartHeight), r)
  else
    let epochStart := epochStart r.daStartHeight r.daEpochSize daHeight
    let epochEnd := epochEnd r.daStartHeight r.daEpochSize daHeight
    let fetcher := r.asyncFetcher.updateCurrentHeight daHeight
    -- nothing is fetched inside an epoch, but the prefetcher has been told where we are
    if daHeight ≠ epochEnd then
      (.ok ⟨zeroTime, daHeight, daHeight, []⟩, { r with asyncFetcher := fetcher })
    else
      let heights := List.range' epochStart (epochEnd + 1 - epochStart)
      let looked := heights.foldl (lookUpStep env.background) ⟨fetcher, fun _ => none, []⟩
      let r' := { r with asyncFetcher := looked.fetcher }
      match syncFetch env.retrieve ⟨fun _ => none, []⟩ looked.missingHeights with
      | .error e => (.error e, r')
      | .ok fetched =>
        let block (h : ℕ) : Option BlockData :=
          (looked.cachedBlocks h).or (fetched.syncFetchedBlocks h)
        let event := joinBlocks block ⟨zeroTime, epochStart, epochEnd, []⟩ heights
        -- a failed height does not fail the call: the event is emptied instead
        if fetched.processErrs ≠ [] then
          (.ok ⟨event.timestamp, daHeight, daHeight, []⟩, r')
        else (.ok event, r')

/-! ## The loops, in closed form -/

/-- A cache look-up with its error read as a miss, as the cache loop does. -/
def lookUpCached (f : AsyncBlockRetriever) (h : ℕ) : Option BlockData :=
  match f.getCachedBlock h with
  | .ok block => block
  | .error _ => none

/-- What the look-up of height `h` finds when the loop has started at `a`: every background step
scheduled up to `h` has run. -/
def lookedUp (f : AsyncBlockRetriever) (a h : ℕ) : Option BlockData :=
  lookUpCached ((Ranges.between background a (h + 1)).foldl
    AsyncBlockRetriever.runBackground f) h

end

private theorem lookedUp_range_succ {α : Type*} (found : ℕ → Option α) (a n : ℕ) :
    (fun h => if a ≤ h ∧ h < a + n + 1 then found h else none) =
      update (fun h => if a ≤ h ∧ h < a + n then found h else none) (a + n)
        (found (a + n)) := by
  funext h
  by_cases hh : h = a + n
  · subst hh
    rw [update_self, if_pos ⟨by omega, by omega⟩]
  · rw [update_of_ne hh]
    by_cases hlt : a ≤ h ∧ h < a + n
    · rw [if_pos hlt, if_pos ⟨hlt.1, by omega⟩]
    · rw [if_neg hlt, if_neg (by omega)]

private theorem lookUpStep_eq
    (l : LookUp) (h : ℕ) (hnew : l.cachedBlocks h = none) :
    lookUpStep background l h =
      let fetcher := (background h).foldl AsyncBlockRetriever.runBackground l.fetcher
      { fetcher := fetcher
        cachedBlocks := update l.cachedBlocks h (lookUpCached fetcher h)
        missingHeights := l.missingHeights ++
          if (lookUpCached fetcher h).isNone then [h] else [] } := by
  -- a miss leaves the map alone, which is the same as writing a miss where there was one
  have hsame : update l.cachedBlocks h none = l.cachedBlocks := by
    rw [← hnew, update_eq_self]
  obtain ⟨found, hfound⟩ : ∃ found, ((background h).foldl
      AsyncBlockRetriever.runBackground l.fetcher).getCachedBlock h = found := ⟨_, rfl⟩
  rcases found with e | _ | block
  · simp [lookUpStep, lookUpCached, hfound, hsame]
  · simp [lookUpStep, lookUpCached, hfound, hsame]
  · simp [lookUpStep, lookUpCached, hfound]

theorem lookUp_eq (f : AsyncBlockRetriever) (a n : ℕ) :
    (List.range' a n).foldl (lookUpStep background) ⟨f, fun _ => none, []⟩ =
      { fetcher := (Ranges.between background a (a + n)).foldl
          AsyncBlockRetriever.runBackground f
        cachedBlocks := fun h =>
          if a ≤ h ∧ h < a + n then lookedUp background f a h else none
        missingHeights :=
          (List.range' a n).filter (fun h => (lookedUp background f a h).isNone) } := by
  induction n with
  | zero =>
    simp only [List.range'_zero, foldl_nil, Nat.add_zero, Ranges.between_self,
      filter_nil, LookUp.mk.injEq, true_and, and_true]
    funext h
    rw [if_neg (by omega)]
  | succ n ih =>
    -- the background steps of the last height run on top of all the earlier ones
    have hfetch : (Ranges.between background a (a + n + 1)).foldl
        AsyncBlockRetriever.runBackground f =
        (background (a + n)).foldl AsyncBlockRetriever.runBackground
          ((Ranges.between background a (a + n)).foldl
            AsyncBlockRetriever.runBackground f) := by
      rw [Ranges.between_succ _ (Nat.le_add_right a n), foldl_append]
    rw [List.range'_1_concat, foldl_append, ih, foldl_cons, foldl_nil,
      lookUpStep_eq _ _ _ (if_neg (by omega)), filter_append, ← Nat.add_assoc,
      lookedUp_range_succ]
    simp only [lookedUp, ← hfetch, filter_cons, filter_nil]

end ForcedInclusionRetriever

/-- The block a reply stands for: `NotFound` is an empty block, a failure is none. -/
def ResultRetrieve.block? (result : ResultRetrieve) : Option BlockData :=
  match result.code with
  | .success => some ⟨0, result.timestamp, result.data⟩
  | .notFound => some ⟨0, result.timestamp, []⟩
  | _ => none

theorem ResultRetrieve.block?_isSome :
    result.block?.isSome ↔ result.code = .success ∨ result.code = .notFound := by
  unfold ResultRetrieve.block?
  cases result.code <;> simp

namespace ForcedInclusionRetriever

section

variable (retrieve : ℕ → ResultRetrieve) (acc : SyncFetch)
include retrieve acc

private theorem syncFetchStep_eq (h : ℕ) (hnow : (retrieve h).code ≠ .heightFromFuture) :
    syncFetchStep retrieve acc h = .ok
      { syncFetchedBlocks := update acc.syncFetchedBlocks h
          ((retrieve h).block?.or (acc.syncFetchedBlocks h))
        processErrs := acc.processErrs ++
          if (retrieve h).block?.isSome then []
          else [.failedHeight h (retrieve h).message] } := by
  unfold syncFetchStep ResultRetrieve.block?
  cases hcode : (retrieve h).code <;> simp_all

theorem syncFetch_future (hs : List ℕ) (hfuture : ∃ h ∈ hs, (retrieve h).code = .heightFromFuture) :
    ∃ h ∈ hs, syncFetch retrieve acc hs = .error (.heightFromFuture h) := by
  induction hs generalizing acc with
  | nil => simp at hfuture
  | cons h hs ih =>
    by_cases hnow : (retrieve h).code = .heightFromFuture
    · refine ⟨h, mem_cons_self, ?_⟩
      simp [syncFetch, syncFetchStep, hnow]
    obtain ⟨k, hk, hkcode⟩ := hfuture
    -- the height from the future is not this one, so the loop goes on to it
    have hkhs : k ∈ hs := by
      rcases mem_cons.mp hk with rfl | hk
      · exact absurd hkcode hnow
      · exact hk
    rw [syncFetch, syncFetchStep_eq _ _ _ hnow]
    obtain ⟨j, hj, hres⟩ := ih _ ⟨k, hkhs, hkcode⟩
    exact ⟨j, mem_cons_of_mem _ hj, hres⟩

theorem syncFetch_ok (hs : List ℕ) (hnow : ∀ h ∈ hs, (retrieve h).code ≠ .heightFromFuture) :
    ∃ fetched, syncFetch retrieve acc hs = .ok fetched ∧
      (∀ h, fetched.syncFetchedBlocks h =
        if h ∈ hs then (retrieve h).block?.or (acc.syncFetchedBlocks h)
        else acc.syncFetchedBlocks h) ∧
      (fetched.processErrs = [] ↔
        acc.processErrs = [] ∧ ∀ h ∈ hs, (retrieve h).block?.isSome) := by
  induction hs generalizing acc with
  | nil => exact ⟨acc, rfl, by simp, by simp⟩
  | cons h hs ih =>
    rw [syncFetch, syncFetchStep_eq _ _ _ (hnow h mem_cons_self)]
    obtain ⟨fetched, hres, hblocks, herrs⟩ :=
      ih _ (fun k hk => hnow k (mem_cons_of_mem _ hk))
    refine ⟨fetched, hres, fun k => ?_, ?_⟩
    · rw [hblocks k]
      by_cases hkh : k = h
      · subst hkh
        cases (retrieve k).block? <;> simp
      · simp [hkh]
    · rw [herrs]
      by_cases hsome : (retrieve h).block?.isSome = true
      · simp [hsome]
      · simp [hsome]

end

/-! ### The joining loop -/

def blobsOf (block : Option BlockData) : List Tx :=
  block.elim [] (fun b => b.blobs.filter (fun blob => 0 < blob.length))

theorem addBlock_txs (event : ForcedInclusionEvent) (block : Option BlockData) :
    (addBlock event block).txs = event.txs ++ blobsOf block := by
  cases block with
  | none => simp [addBlock, blobsOf]
  | some b => rfl

theorem joinBlocks_spec (block : ℕ → Option BlockData) (event : ForcedInclusionEvent)
    (heights : List ℕ) :
    (joinBlocks block event heights).txs =
        event.txs ++ heights.flatMap (fun h => blobsOf (block h)) ∧
      (joinBlocks block event heights).startDaHeight = event.startDaHeight ∧
      (joinBlocks block event heights).endDaHeight = event.endDaHeight := by
  induction heights generalizing event with
  | nil => simp [joinBlocks]
  | cons h hs ih =>
    have hstart : (addBlock event (block h)).startDaHeight = event.startDaHeight := by
      cases block h <;> rfl
    have hend : (addBlock event (block h)).endDaHeight = event.endDaHeight := by
      cases block h <;> rfl
    obtain ⟨htxs, hs', he'⟩ := ih (addBlock event (block h))
    refine ⟨?_, hs'.trans hstart, he'.trans hend⟩
    rw [show joinBlocks block event (h :: hs) =
      joinBlocks block (addBlock event (block h)) hs from rfl, htxs, addBlock_txs,
      flatMap_cons, append_assoc]

theorem joinBlocks_congr {block' : ℕ → Option BlockData}
    {heights : List ℕ} (hsame : ∀ h ∈ heights, block h = block' h) :
    joinBlocks block event heights = joinBlocks block' event heights := by
  apply foldl_ext
  intro event h hh
  rw [hsame h hh]

theorem joinBlocks_timestamp {time : ℕ → Time}
    (hmono : ∀ ⦃h h' : ℕ⦄, h ≤ h' → time h ≤ time h') {a n : ℕ} (hfloor : event.timestamp ≤ time a)
    (hblocks : ∀ h, a ≤ h → h ≤ a + n → ∃ b, block h = some b ∧ b.timestamp = time h) :
    (joinBlocks block event (List.range' a (n + 1))).timestamp = time (a + n) := by
  -- one round raises the timestamp to the block's
  have hround : ∀ (event : ForcedInclusionEvent) (h : ℕ), a ≤ h → h ≤ a + n →
      event.timestamp ≤ time h → (addBlock event (block h)).timestamp = time h := by
    intro event h hlo hhi hle
    obtain ⟨b, hb, htime⟩ := hblocks h hlo hhi
    rw [hb]
    show (if event.timestamp < b.timestamp then b.timestamp else event.timestamp) = time h
    rw [htime]
    split_ifs with hlt
    · rfl
    · exact le_antisymm hle (not_lt.mp hlt)
  induction n with
  | zero => exact hround event a le_rfl le_rfl hfloor
  | succ n ih =>
    have hinit := ih (fun h hlo hhi => hblocks h hlo (by omega))
      (fun event h hlo hhi => hround event h hlo (by omega))
    unfold joinBlocks at hinit ⊢
    rw [List.range'_concat, foldl_append, foldl_cons, Nat.one_mul]
    apply hround _ (a + (n + 1)) (by omega) le_rfl
    rw [hinit]
    exact hmono (by omega)

/-! ## What a call answers -/

section Answers

variable (r : ForcedInclusionRetriever) (env : RetrieveEnv) (daHeight : ℕ)

def firstHeight : ℕ := epochStart r.daStartHeight r.daEpochSize daHeight

def lastHeight : ℕ := epochEnd r.daStartHeight r.daEpochSize daHeight

def cachedAt (h : ℕ) : Option BlockData :=
  lookedUp env.background (r.asyncFetcher.updateCurrentHeight daHeight)
    (r.firstHeight daHeight) h

def blockAt (h : ℕ) : Option BlockData :=
  (r.cachedAt env daHeight h).or (env.retrieve h).block?

def FutureAt (h : ℕ) : Prop :=
  r.cachedAt env daHeight h = none ∧ (env.retrieve h).code = .heightFromFuture

/-- The call has to ask DA for `h`, and DA answers with an error status. -/
def FailedAt (h : ℕ) : Prop :=
  r.cachedAt env daHeight h = none ∧ (env.retrieve h).code ≠ .heightFromFuture ∧
    (env.retrieve h).code ≠ .success ∧ (env.retrieve h).code ≠ .notFound

instance (h : ℕ) : Decidable (r.FutureAt env daHeight h) :=
  inferInstanceAs (Decidable (_ ∧ _))

instance (h : ℕ) : Decidable (r.FailedAt env daHeight h) :=
  inferInstanceAs (Decidable (_ ∧ _))

def heights : List ℕ :=
  List.range' (r.firstHeight daHeight) (r.lastHeight daHeight + 1 - r.firstHeight daHeight)

def epochEvent : ForcedInclusionEvent :=
  joinBlocks (r.blockAt env daHeight)
    ⟨zeroTime, r.firstHeight daHeight, r.lastHeight daHeight, []⟩ (r.heights daHeight)

theorem epochEvent_spec :
    (r.epochEvent env daHeight).txs =
        (r.heights daHeight).flatMap (fun h => blobsOf (r.blockAt env daHeight h)) ∧
      (r.epochEvent env daHeight).startDaHeight = r.firstHeight daHeight ∧
      (r.epochEvent env daHeight).endDaHeight = r.lastHeight daHeight :=
  joinBlocks_spec _ _ _

variable {r env daHeight}

theorem heights_eq_of_end (hend : daHeight = r.lastHeight daHeight) :
    r.heights daHeight =
      List.range' (r.firstHeight daHeight) (daHeight + 1 - r.firstHeight daHeight) := by
  rw [heights, ← hend]

theorem blockAt_isSome {h : ℕ} :
    (r.blockAt env daHeight h).isSome ↔
      ¬ r.FutureAt env daHeight h ∧ ¬ r.FailedAt env daHeight h := by
  unfold blockAt FutureAt FailedAt
  cases hc : r.cachedAt env daHeight h with
  | some block => simp
  | none =>
    rw [none_or, ResultRetrieve.block?_isSome]
    cases hcode : (env.retrieve h).code <;> simp

private theorem retrieve_end_eq (hns : r.client.hasForcedNamespace = true)
    (hd : r.daStartHeight ≤ daHeight) (hend : daHeight = r.lastHeight daHeight) :
    r.retrieveForcedIncludedTxs env daHeight =
      let looked := (r.heights daHeight).foldl (lookUpStep env.background)
        ⟨r.asyncFetcher.updateCurrentHeight daHeight, fun _ => none, []⟩
      let r' := { r with asyncFetcher := looked.fetcher }
      match syncFetch env.retrieve ⟨fun _ => none, []⟩ looked.missingHeights with
      | .error e => (.error e, r')
      | .ok fetched =>
        let event := joinBlocks
          (fun h => (looked.cachedBlocks h).or (fetched.syncFetchedBlocks h))
          ⟨zeroTime, r.firstHeight daHeight, r.lastHeight daHeight, []⟩ (r.heights daHeight)
        if fetched.processErrs ≠ [] then
          (.ok ⟨event.timestamp, daHeight, daHeight, []⟩, r')
        else (.ok event, r') := by
  unfold retrieveForcedIncludedTxs
  rw [if_neg (by simp [hns]), if_neg (by omega)]
  exact if_neg (not_not.mpr hend)

private theorem looked_eq :
    (r.heights daHeight).foldl (lookUpStep env.background)
        ⟨r.asyncFetcher.updateCurrentHeight daHeight, fun _ => none, []⟩ =
      { fetcher := (Ranges.between env.background (r.firstHeight daHeight)
          (r.firstHeight daHeight +
            (r.lastHeight daHeight + 1 - r.firstHeight daHeight))).foldl
          AsyncBlockRetriever.runBackground (r.asyncFetcher.updateCurrentHeight daHeight)
        cachedBlocks := fun h =>
          if h ∈ r.heights daHeight then r.cachedAt env daHeight h else none
        missingHeights :=
          (r.heights daHeight).filter (fun h => (r.cachedAt env daHeight h).isNone) } := by
  unfold heights cachedAt
  rw [lookUp_eq]
  simp only [mem_range'_1]

theorem retrieve_of_ne_end (hns : r.client.hasForcedNamespace = true)
    (hd : r.daStartHeight ≤ daHeight) (hne : daHeight ≠ r.lastHeight daHeight) :
    (r.retrieveForcedIncludedTxs env daHeight).1 =
      .ok ⟨zeroTime, daHeight, daHeight, []⟩ := by
  unfold retrieveForcedIncludedTxs
  rw [if_neg (by simp [hns]), if_neg (by omega)]
  exact congrArg Prod.fst (if_pos hne)

theorem retrieve_of_future (hns : r.client.hasForcedNamespace = true)
    (hd : r.daStartHeight ≤ daHeight) (hend : daHeight = r.lastHeight daHeight)
    (hfuture : ∃ h ∈ r.heights daHeight, r.FutureAt env daHeight h) :
    ∃ h, (r.retrieveForcedIncludedTxs env daHeight).1 = .error (.heightFromFuture h) := by
  obtain ⟨h, hmem, hmiss, hcode⟩ := hfuture
  rw [retrieve_end_eq hns hd hend, looked_eq]
  obtain ⟨k, -, hres⟩ := syncFetch_future env.retrieve ⟨fun _ => none, []⟩
    ((r.heights daHeight).filter (fun h => (r.cachedAt env daHeight h).isNone))
    ⟨h, mem_filter.mpr ⟨hmem, by simp [hmiss]⟩, hcode⟩
  refine ⟨k, ?_⟩
  simp only [hres]

/-- Without a height from the future the fetch loop reaches its end. -/
theorem retrieve_of_no_future (env : RetrieveEnv) (hns : r.client.hasForcedNamespace = true)
    (hd : r.daStartHeight ≤ daHeight) (hend : daHeight = r.lastHeight daHeight)
    (hnow : ∀ h ∈ r.heights daHeight, ¬ r.FutureAt env daHeight h) :
    (r.retrieveForcedIncludedTxs env daHeight).1 = .ok
      (if ∀ h ∈ r.heights daHeight, ¬ r.FailedAt env daHeight h then r.epochEvent env daHeight
        else ⟨(r.epochEvent env daHeight).timestamp, daHeight, daHeight, []⟩) := by
  -- only the heights missing in the cache are asked for, and none of those is from the future
  have hmissing : ∀ h ∈ (r.heights daHeight).filter
      (fun h => (r.cachedAt env daHeight h).isNone),
      (env.retrieve h).code ≠ .heightFromFuture := by
    intro h hh hcode
    rw [mem_filter] at hh
    exact hnow h hh.1 ⟨by simpa using hh.2, hcode⟩
  obtain ⟨fetched, hres, hblocks, herrs⟩ :=
    syncFetch_ok env.retrieve ⟨fun _ => none, []⟩ _ hmissing
  rw [retrieve_end_eq hns hd hend, looked_eq]
  simp only [hres]
  -- on the heights of the epoch, cache and fetched blocks together are `blockAt`
  have hblock : ∀ h ∈ r.heights daHeight,
      (if h ∈ r.heights daHeight then r.cachedAt env daHeight h else none).or
        (fetched.syncFetchedBlocks h) = r.blockAt env daHeight h := by
    intro h hh
    rw [hblocks h, if_pos hh, blockAt]
    cases hc : r.cachedAt env daHeight h with
    | some block => simp
    | none =>
      rw [if_pos (mem_filter.mpr ⟨hh, by simp [hc]⟩)]
      simp
  -- an error has been noted exactly when a missing height failed
  have hok : fetched.processErrs = [] ↔
      ∀ h ∈ r.heights daHeight, ¬ r.FailedAt env daHeight h := by
    rw [herrs]
    constructor
    · rintro ⟨-, hall⟩ h hh ⟨hmiss, -, hns', hnf'⟩
      have := hall h (mem_filter.mpr ⟨hh, by simp [hmiss]⟩)
      rw [ResultRetrieve.block?_isSome] at this
      rcases this with hs | hn
      · exact hns' hs
      · exact hnf' hn
    · intro hall
      refine ⟨rfl, fun h hh => ?_⟩
      rw [mem_filter] at hh
      have hmiss : r.cachedAt env daHeight h = none := by simpa using hh.2
      have hsome := blockAt_isSome.mpr ⟨hnow h hh.1, hall h hh.1⟩
      rwa [blockAt, hmiss] at hsome
  rw [joinBlocks_congr hblock]
  by_cases hgood : ∀ h ∈ r.heights daHeight, ¬ r.FailedAt env daHeight h
  · rw [if_neg (not_not.mpr (hok.mpr hgood)), if_pos hgood]
    rfl
  · rw [if_pos (fun h => hgood (hok.mp h)), if_neg hgood]
    rfl

section

variable (hns : r.client.hasForcedNamespace = true) (hd : r.daStartHeight ≤ daHeight)
  (hend : daHeight = r.lastHeight daHeight)
include hns hd hend

theorem retrieve_of_failed (hnow : ∀ h ∈ r.heights daHeight, ¬ r.FutureAt env daHeight h)
    (hfail : ∃ h ∈ r.heights daHeight, r.FailedAt env daHeight h) :
    ∃ timestamp, (r.retrieveForcedIncludedTxs env daHeight).1 =
      .ok ⟨timestamp, daHeight, daHeight, []⟩ := by
  obtain ⟨h, hh, hbad⟩ := hfail
  rw [retrieve_of_no_future env hns hd hend hnow, if_neg (fun hall => hall h hh hbad)]
  exact ⟨_, rfl⟩

theorem retrieve_of_blocks (hall : ∀ h ∈ r.heights daHeight, (r.blockAt env daHeight h).isSome) :
    (r.retrieveForcedIncludedTxs env daHeight).1 = .ok (r.epochEvent env daHeight) := by
  have hparts := fun h hh => blockAt_isSome.mp (hall h hh)
  rw [retrieve_of_no_future env hns hd hend (fun h hh => (hparts h hh).1),
    if_pos (fun h hh => (hparts h hh).2)]

theorem retrieve_of_complete (hall : ∀ h ∈ r.heights daHeight, (r.blockAt env daHeight h).isSome) :
    ∃ timestamp, (r.retrieveForcedIncludedTxs env daHeight).1 =
      .ok ⟨timestamp, r.firstHeight daHeight, daHeight,
        (r.heights daHeight).flatMap (fun h => blobsOf (r.blockAt env daHeight h))⟩ := by
  obtain ⟨htxs, hstart, hlast⟩ := r.epochEvent_spec env daHeight
  rw [← hend] at hlast
  rw [retrieve_of_blocks hns hd hend hall]
  generalize r.epochEvent env daHeight = event at htxs hstart hlast ⊢
  obtain ⟨timestamp, first, last, txs⟩ := event
  dsimp only at htxs hstart hlast
  refine ⟨timestamp, ?_⟩
  rw [htxs, hstart, hlast]

theorem retrieve_ok_of_no_future (hnow : ∀ h ∈ r.heights daHeight, ¬ r.FutureAt env daHeight h) :
    ∃ event, (r.retrieveForcedIncludedTxs env daHeight).1 = .ok event := by
  by_cases hfail : ∃ h ∈ r.heights daHeight, r.FailedAt env daHeight h
  · obtain ⟨timestamp, hres⟩ := retrieve_of_failed hns hd hend hnow hfail
    exact ⟨_, hres⟩
  · obtain ⟨timestamp, hres⟩ := retrieve_of_complete hns hd hend
      (fun h hh => blockAt_isSome.mpr ⟨hnow h hh, fun hf => hfail ⟨h, hh, hf⟩⟩)
    exact ⟨_, hres⟩

end

section

variable {event : ForcedInclusionEvent} {P : AsyncBlockRetriever → Prop}

theorem retrieve_ok_guard (hres : (r.retrieveForcedIncludedTxs env daHeight).1 = .ok event) :
    r.client.hasForcedNamespace = true ∧ r.daStartHeight ≤ daHeight := by
  unfold retrieveForcedIncludedTxs at hres
  split_ifs at hres with hns hd
  exact ⟨by simpa using hns, Nat.not_lt.mp hd⟩

theorem retrieve_ok_no_future (hend : daHeight = r.lastHeight daHeight)
    (hres : (r.retrieveForcedIncludedTxs env daHeight).1 = .ok event) :
    ∀ h ∈ r.heights daHeight, ¬ r.FutureAt env daHeight h := by
  obtain ⟨hns, hd⟩ := retrieve_ok_guard hres
  intro h hh hfuture
  obtain ⟨k, herr⟩ := retrieve_of_future hns hd hend ⟨h, hh, hfuture⟩
  rw [herr] at hres
  cases hres

theorem retrieve_endDaHeight (hres : (r.retrieveForcedIncludedTxs env daHeight).1 = .ok event) :
    event.endDaHeight = daHeight := by
  obtain ⟨hns, hd⟩ := retrieve_ok_guard hres
  by_cases hend : daHeight = r.lastHeight daHeight
  · rw [retrieve_of_no_future env hns hd hend (retrieve_ok_no_future hend hres)] at hres
    obtain rfl := Except.ok.inj hres
    split_ifs
    · exact (r.epochEvent_spec env daHeight).2.2.trans hend.symm
    · rfl
  · rw [retrieve_of_ne_end hns hd hend] at hres
    obtain rfl := Except.ok.inj hres
    rfl

/-! ## The retriever after a call -/

theorem retrieve_snd_eq :
    (r.retrieveForcedIncludedTxs env daHeight).2 =
      { r with asyncFetcher := (r.retrieveForcedIncludedTxs env daHeight).2.asyncFetcher } := by
  unfold retrieveForcedIncludedTxs
  dsimp only
  split_ifs
  · rfl
  · rfl
  · rfl
  · split
    · rfl
    · split_ifs <;> rfl

theorem between_background_induct {f : AsyncBlockRetriever}
    (hstep : ∀ f h, ∀ b ∈ env.background h, P f → P (f.runBackground b)) (hP : P f) (a b : ℕ) :
    P ((Ranges.between env.background a b).foldl AsyncBlockRetriever.runBackground f) := by
  refine List.foldlRecOn _ _ hP (fun g hg step hmem => ?_)
  obtain ⟨h, -, -, hb⟩ := Ranges.mem_between.mp hmem
  exact hstep g h step hb hg

theorem retrieve_fetcher_induct (hupdate : ∀ f, P f → P (f.updateCurrentHeight daHeight))
    (hstep : ∀ f h, ∀ b ∈ env.background h, P f → P (f.runBackground b)) (hP : P r.asyncFetcher) :
    P (r.retrieveForcedIncludedTxs env daHeight).2.asyncFetcher := by
  have hlooked : P ((r.heights daHeight).foldl (lookUpStep env.background)
      ⟨r.asyncFetcher.updateCurrentHeight daHeight, fun _ => none, []⟩).fetcher := by
    rw [looked_eq]
    exact between_background_induct hstep (hupdate _ hP) _ _
  unfold retrieveForcedIncludedTxs
  dsimp only
  split_ifs
  · exact hP
  · exact hP
  · exact hupdate _ hP
  · split
    · exact hlooked
    · split_ifs
      · exact hlooked
      · exact hlooked

end

end Answers

end ForcedInclusionRetriever

/-! ## What is cached

What the prefetcher caches is what it was answered, so whatever is true of every block it
makes of a reply is true of every block a call finds in the cache.
-/

def AsyncBlockRetriever.Caches (P : ℕ → BlockData → Prop) (f : AsyncBlockRetriever) : Prop :=
  ∀ h block, f.cache h = some block → P h block

/-- The block a reply puts into the cache, if it puts one there. -/
def ResultRetrieve.toCache (height : ℕ) (result : ResultRetrieve) : Option BlockData :=
  match result.code with
  | .notFound => some ⟨height, unixNano result.timestamp, []⟩
  | .success => some ⟨height, unixNano result.timestamp,
      result.data.filter (fun blob => 0 < blob.length)⟩
  | _ => none

section Caches

variable {P : ℕ → BlockData → Prop} {f : AsyncBlockRetriever}

namespace AsyncBlockRetriever

theorem new_caches (start window : ℕ) :
    (AsyncBlockRetriever.new namespaceBz start window).Caches P := by
  intro h block hcache
  cases hcache

theorem updateCurrentHeight_caches (hf : f.Caches P) (height : ℕ) :
    (f.updateCurrentHeight height).Caches P := by
  unfold updateCurrentHeight
  split_ifs
  · exact hf
  · exact hf

theorem fetchAndCacheBlock_caches (hf : f.Caches P) {height : ℕ}
    (hres : ∀ block, result.toCache height = some block → P height block) :
    (f.fetchAndCacheBlock height result).Caches P := by
  -- one stored block with the property keeps the property
  have hput : ∀ block : BlockData, P height block →
      Caches P { f with cache := update f.cache height (some block) } := by
    intro block hblock
    exact forall_update_some (fun h found _ => hf h found) hblock
  unfold ResultRetrieve.toCache at hres
  unfold fetchAndCacheBlock
  split
  · exact hf
  · rename_i hcode
    exact hput _ (hres _ (by rw [hcode]))
  · rename_i hcode
    exact hput _ (hres _ (by rw [hcode]))
  · exact hf

theorem cleanupOldBlocks_caches (hf : f.Caches P) (currentHeight : ℕ) :
    (f.cleanupOldBlocks currentHeight).Caches P := by
  unfold cleanupOldBlocks
  split_ifs
  · exact hf
  · intro h block hcache
    dsimp only at hcache
    split_ifs at hcache
    exact hf h block hcache

end AsyncBlockRetriever

/-- Every reply the background goroutine gets during a call makes a block with `P`. -/
def RetrieveEnv.Prefetches (P : ℕ → BlockData → Prop) (env : RetrieveEnv) : Prop :=
  ∀ h target result, .prefetch target result ∈ env.background h →
    ∀ block, result.toCache target = some block → P target block

namespace ForcedInclusionRetriever

variable {r : ForcedInclusionRetriever} {env : RetrieveEnv} {daHeight : ℕ}

theorem runBackground_caches {b : AsyncBlockRetriever.BackgroundStep} (hf : f.Caches P)
    (hb : ∀ target result, b = .prefetch target result →
      ∀ block, result.toCache target = some block → P target block) :
    (f.runBackground b).Caches P := by
  cases b with
  | prefetch target result =>
    simp only [AsyncBlockRetriever.runBackground]
    split_ifs
    · exact hf
    · exact hf
    · exact AsyncBlockRetriever.fetchAndCacheBlock_caches hf (hb target result rfl)
  | cleanup currentHeight =>
    simp only [AsyncBlockRetriever.runBackground]
    split_ifs
    · exact hf
    · exact AsyncBlockRetriever.cleanupOldBlocks_caches hf currentHeight

theorem background_caches (henv : env.Prefetches P) :
    ∀ f h, ∀ b ∈ env.background h, AsyncBlockRetriever.Caches P f →
      (f.runBackground b).Caches P :=
  fun _ h _ hb hf => runBackground_caches hf fun target result heq =>
    henv h target result (heq ▸ hb)

theorem retrieve_caches (henv : env.Prefetches P) (hr : r.asyncFetcher.Caches P) :
    (r.retrieveForcedIncludedTxs env daHeight).2.asyncFetcher.Caches P :=
  retrieve_fetcher_induct
    (fun _ hf => AsyncBlockRetriever.updateCurrentHeight_caches hf daHeight)
    (background_caches henv) hr

theorem cachedAt_caches (henv : env.Prefetches P) (hr : r.asyncFetcher.Caches P) {h : ℕ}
    {block : BlockData} (hc : r.cachedAt env daHeight h = some block) : P h block := by
  have hfetcher : AsyncBlockRetriever.Caches P
      ((Ranges.between env.background (r.firstHeight daHeight) (h + 1)).foldl
        AsyncBlockRetriever.runBackground (r.asyncFetcher.updateCurrentHeight daHeight)) :=
    between_background_induct (background_caches henv)
      (AsyncBlockRetriever.updateCurrentHeight_caches hr daHeight) _ _
  unfold cachedAt lookedUp lookUpCached AsyncBlockRetriever.getCachedBlock at hc
  split_ifs at hc
  exact hfetcher h block hc

end ForcedInclusionRetriever

end Caches

/-! ## An honest DA layer

`da h` is what DA height `h` holds. An honest DA layer answers with it, says that there
is nothing where there is nothing, or says that the height is still to come.
-/

/-- The reply for height `h` is true to the content `da`. -/
def ResultRetrieve.Honest (da : ℕ → List Blob) (h : ℕ) (result : ResultRetrieve) : Prop :=
  (result.code = .success ∧ result.data = da h) ∨
    (result.code = .notFound ∧ da h = []) ∨ result.code = .heightFromFuture

/-- Every reply of a call is honest, those the background goroutine gets included. -/
structure RetrieveEnv.Honest (da : ℕ → List Blob) (env : RetrieveEnv) : Prop where
  retrieve : ∀ h, (env.retrieve h).Honest da h
  background : ∀ h target result,
    .prefetch target result ∈ env.background h → result.Honest da target

/-- A reply that may report any failure, but says nothing false about the content. -/
def ResultRetrieve.Truthful (da : ℕ → List Blob) (h : ℕ) (result : ResultRetrieve) : Prop :=
  (result.code = .success → result.data = da h) ∧ (result.code = .notFound → da h = [])

/-- Every reply of a call is truthful. -/
structure RetrieveEnv.Truthful (da : ℕ → List Blob) (env : RetrieveEnv) : Prop where
  retrieve : ∀ h, (env.retrieve h).Truthful da h
  background : ∀ h target result,
    .prefetch target result ∈ env.background h → result.Truthful da target

/-- The height is not answered with an error status. -/
def RetrieveEnv.AnswersAt (env : RetrieveEnv) (h : ℕ) : Prop :=
  (env.retrieve h).code = .success ∨ (env.retrieve h).code = .notFound ∨
    (env.retrieve h).code = .heightFromFuture

def RetrieveEnv.Answers (env : RetrieveEnv) : Prop :=
  ∀ h, env.AnswersAt h

/-- Every height is answered with what it holds, or with nothing. -/
def RetrieveEnv.Succeeds (env : RetrieveEnv) : Prop :=
  ∀ h, (env.retrieve h).code = .success ∨ (env.retrieve h).code = .notFound

section

variable {env : RetrieveEnv} {da : ℕ → List Blob}

theorem RetrieveEnv.Succeeds.answers (henv : env.Succeeds) :
    env.Answers := by
  intro h
  rcases henv h with hcode | hcode
  · exact .inl hcode
  · exact .inr (.inl hcode)

theorem ResultRetrieve.Honest.truthful {h : ℕ}
    (hres : result.Honest da h) : result.Truthful da h := by
  unfold ResultRetrieve.Truthful
  rcases hres with ⟨hcode, hdata⟩ | ⟨hcode, hempty⟩ | hcode
  · rw [hcode]
    exact ⟨fun _ => hdata, fun hbad => absurd hbad (by decide)⟩
  · rw [hcode]
    exact ⟨fun hbad => absurd hbad (by decide), fun _ => hempty⟩
  · rw [hcode]
    exact ⟨fun hbad => absurd hbad (by decide), fun hbad => absurd hbad (by decide)⟩

theorem RetrieveEnv.Honest.truthful (henv : env.Honest da) : env.Truthful da :=
  ⟨fun h => (henv.retrieve h).truthful,
    fun h target result hmem => (henv.background h target result hmem).truthful⟩

theorem RetrieveEnv.Honest.answers (henv : env.Honest da) : env.Answers := by
  intro h
  rcases henv.retrieve h with ⟨hcode, -⟩ | ⟨hcode, -⟩ | hcode
  · exact .inl hcode
  · exact .inr (.inl hcode)
  · exact .inr (.inr hcode)

end

def AsyncBlockRetriever.Holds (da : ℕ → List Blob) (f : AsyncBlockRetriever) : Prop :=
  ∀ h block, f.cache h = some block → block.blobs = da h

section Honest

variable {da : ℕ → List Blob}

theorem AsyncBlockRetriever.new_holds (start window : ℕ) :
    (AsyncBlockRetriever.new namespaceBz start window).Holds da :=
  AsyncBlockRetriever.new_caches namespaceBz start window

theorem blobs_filter_eq_self (hda : ∀ h, ∀ b ∈ da h, b ≠ []) (h : ℕ) :
    (da h).filter (fun blob => 0 < blob.length) = da h := by
  rw [filter_eq_self]
  intro b hb
  simpa [length_pos_iff] using hda h b hb

theorem RetrieveEnv.Truthful.prefetches {env : RetrieveEnv} (hda : ∀ h, ∀ b ∈ da h, b ≠ [])
    (henv : env.Truthful da) : env.Prefetches (fun h block => block.blobs = da h) := by
  intro h target result hmem block hblock
  obtain ⟨hsuccess, hnotFound⟩ := henv.background h target result hmem
  unfold ResultRetrieve.toCache at hblock
  split at hblock
  · rename_i hcode
    rw [← some.inj hblock, hnotFound hcode]
  · rename_i hcode
    rw [← some.inj hblock, hsuccess hcode]
    exact blobs_filter_eq_self hda target
  · simp at hblock

namespace ForcedInclusionRetriever

variable {r : ForcedInclusionRetriever} {env : RetrieveEnv} {daHeight : ℕ}

section

variable (hda : ∀ h, ∀ b ∈ da h, b ≠ []) (henv : env.Truthful da)
include hda henv

theorem retrieve_holds (hr : r.asyncFetcher.Holds da) :
    (r.retrieveForcedIncludedTxs env daHeight).2.asyncFetcher.Holds da :=
  retrieve_caches (henv.prefetches hda) hr

theorem blobsOf_blockAt
    (hr : r.asyncFetcher.Holds da) {h : ℕ} (hsome : (r.blockAt env daHeight h).isSome) :
    blobsOf (r.blockAt env daHeight h) = da h := by
  unfold blockAt at hsome ⊢
  cases hc : r.cachedAt env daHeight h with
  | some block =>
    have hblobs : block.blobs = da h := cachedAt_caches (henv.prefetches hda) hr hc
    rw [some_or, blobsOf, elim_some, hblobs, blobs_filter_eq_self hda]
  | none =>
    rw [hc, none_or, ResultRetrieve.block?_isSome] at hsome
    rw [none_or, ResultRetrieve.block?]
    rcases hsome with hcode | hcode
    · rw [hcode, blobsOf, elim_some, (henv.retrieve h).1 hcode, blobs_filter_eq_self hda]
    · rw [hcode, blobsOf, (henv.retrieve h).2 hcode]
      rfl

/-- What a truthful call without error statuses in its epoch answers: an empty event below an
epoch end, and at an epoch end either "not yet" or all that DA holds for the epoch, in order. -/
theorem retrieve_honest
    (hans : ∀ h ∈ r.heights daHeight, env.AnswersAt h) (hr : r.asyncFetcher.Holds da)
    (hns : r.client.hasForcedNamespace = true) (hd : r.daStartHeight ≤ daHeight) :
    (daHeight ≠ r.lastHeight daHeight ∧ (r.retrieveForcedIncludedTxs env daHeight).1 =
        .ok ⟨zeroTime, daHeight, daHeight, []⟩) ∨
      (∃ h, (r.retrieveForcedIncludedTxs env daHeight).1 = .error (.heightFromFuture h)) ∨
      (daHeight = r.lastHeight daHeight ∧ ∃ timestamp,
        (r.retrieveForcedIncludedTxs env daHeight).1 =
          .ok ⟨timestamp, r.firstHeight daHeight, daHeight,
            Ranges.between da (r.firstHeight daHeight) (daHeight + 1)⟩) := by
  by_cases hend : daHeight = r.lastHeight daHeight
  · by_cases hfuture : ∃ h ∈ r.heights daHeight, r.FutureAt env daHeight h
    · exact .inr (.inl (retrieve_of_future hns hd hend hfuture))
    have hall : ∀ h ∈ r.heights daHeight, (r.blockAt env daHeight h).isSome := by
      intro h hh
      refine blockAt_isSome.mpr ⟨fun hf => hfuture ⟨h, hh, hf⟩, ?_⟩
      rintro ⟨-, hnf, hns', hn'⟩
      rcases hans h hh with hcode | hcode | hcode
      · exact hns' hcode
      · exact hn' hcode
      · exact hnf hcode
    obtain ⟨timestamp, hres⟩ := retrieve_of_complete hns hd hend hall
    refine .inr (.inr ⟨hend, timestamp, ?_⟩)
    have htxs : (r.heights daHeight).flatMap
        (fun h => blobsOf (r.blockAt env daHeight h)) =
        Ranges.between da (r.firstHeight daHeight) (daHeight + 1) := by
      rw [Ranges.between, ← heights_eq_of_end hend]
      exact flatMap_congr (fun h hh => blobsOf_blockAt hda henv hr (hall h hh))
    rw [hres, htxs]
  · exact .inl ⟨hend, retrieve_of_ne_end hns hd hend⟩

end

end ForcedInclusionRetriever

end Honest

end ChainSdk

/-
The DA follower, `block/internal/syncing/da_follower.go`, with the fetching half of
`da_retriever.go`.

Two goroutines share the follower.
-/
import ChainSdk.ForeignBlobs
import ChainSdk.ForcedInclusionRetriever

namespace ChainSdk

/-! ## Fetching -/

inductive FetchError
  | retrievalFailed (message : String)
  | heightFromFuture
  | blobNotFound
  | cancelled
  deriving DecidableEq

section

variable (res : ResultRetrieve)

def validateBlobResponse : Except FetchError Unit :=
  match res.code with
  | .error => .error (.retrievalFailed res.message)
  | .heightFromFuture => .error .heightFromFuture
  | .notFound => .error .blobNotFound
  | _ => .ok ()

def validateHalf : Except FetchError Unit :=
  match validateBlobResponse res with
  | .error .blobNotFound => .ok ()
  | checked => checked

def ResultRetrieve.found : List Blob :=
  if res.code = .success then res.data else []

end

def fetchBlobs (headerNamespace dataNamespace : Bytes) (headerRes dataRes : ResultRetrieve) :
    Except FetchError (List Blob) :=
  if headerNamespace = dataNamespace then
    match validateBlobResponse headerRes with
    | .error e => .error e
    | .ok () => .ok headerRes.data
  else
    match validateHalf headerRes with
    | .error e => .error e
    | .ok () =>
      match validateHalf dataRes with
      | .error e => .error e
      | .ok () =>
        if headerRes.found ++ dataRes.found = [] then .error .blobNotFound
        else .ok (headerRes.found ++ dataRes.found)

def blobsFromDA (headerNamespace dataNamespace : Bytes) (headerRes dataRes : ResultRetrieve)
    (cancelled : Bool) : Except FetchError (List Blob) :=
  match fetchBlobs headerNamespace dataNamespace headerRes dataRes with
  | .error e => .error e
  | .ok blobs => if cancelled then .error .cancelled else .ok blobs

def DaRetriever.popPriorityHeight (priorityHeights : List ℕ) : ℕ × List ℕ :=
  match priorityHeights with
  | [] => (0, [])
  | height :: rest => (height, rest)

/-! ## The two routines -/

structure SubscriptionEvent where
  height : ℕ
  blobs : List Blob
  deriving DecidableEq

/-- Where `handleSubscriptionEvent` is. -/
inductive FollowPc
  | idle
  /-- The highest height is up to date. -/
  | claiming (ev : SubscriptionEvent)
  | claimed (ev : SubscriptionEvent)
  | piping (daHeight : ℕ) (events : List DAHeightEvent)
  | rollingBack (daHeight : ℕ)
  deriving DecidableEq

/-- Why `fetchAndPipeHeight` is called: for a hint, without a claim, or for the height that
has been claimed. -/
inductive FetchKind
  | priority
  | sequential
  deriving DecidableEq

/-- Where `catchupLoop` is. -/
inductive CatchupPc
  /-- Waiting for `catchupSignal`. -/
  | waiting
  /-- At the head of the loop of `runCatchup`. -/
  | looping
  /-- Popping priority heights until one is not stale. -/
  | draining
  | loading
  | comparing (localHeight : ℕ)
  | claiming (localHeight : ℕ)
  | fetching (kind : FetchKind) (daHeight : ℕ)
  | piping (kind : FetchKind) (daHeight : ℕ) (events : List DAHeightEvent)
  /-- `fetchAndPipeHeight` has returned an error. -/
  | failed (kind : FetchKind) (daHeight : ℕ)
  deriving DecidableEq

def FollowPc.claim : FollowPc → Option ℕ
  | .claimed ev => some ev.height
  | .piping daHeight _ | .rollingBack daHeight => some daHeight
  | _ => none

def FetchKind.claim (daHeight : ℕ) : FetchKind → Option ℕ
  | .priority => none
  | .sequential => some daHeight

/-- The height the catch-up loop has claimed and not let go of. -/
def CatchupPc.claim : CatchupPc → Option ℕ
  | .fetching kind daHeight | .piping kind daHeight _ | .failed kind daHeight => kind.claim daHeight
  | _ => none

/-- `daFollower`, with the retriever it shares, where its routines are, and the calls of
`processBlobs` made so far. -/
structure DaFollower where
  retriever : DaRetriever
  namespaceBz : Bytes
  dataNamespace : Bytes
  priorityHeights : List ℕ
  localNextDAHeight : ℕ
  highestSeenDAHeight : ℕ
  headReached : Bool
  catchupSignal : Bool
  follow : FollowPc
  catchup : CatchupPc
  /-- The panic that has ended the process. -/
  panicked : Option Panic
  passed : List DaRetriever.Call

/-- What a step of the follow loop takes from outside. -/
structure FollowInput where
  event : SubscriptionEvent
  now : Time
  piped : Bool

/-- What a step of the catch-up loop takes from outside. -/
structure CatchupInput where
  headerRes : ResultRetrieve
  dataRes : ResultRetrieve
  cancelled : Bool
  now : Time
  piped : Bool

namespace DaFollower

def new (retriever : DaRetriever) (namespaceBz dataNamespace : Bytes) (startDAHeight : ℕ) :
    DaFollower where
  retriever := retriever
  namespaceBz := namespaceBz
  dataNamespace := if dataNamespace = [] then namespaceBz else dataNamespace
  priorityHeights := []
  localNextDAHeight := if startDAHeight = 0 then 1 else startDAHeight
  highestSeenDAHeight := 0
  headReached := false
  catchupSignal := true
  follow := .idle
  catchup := .waiting
  panicked := none
  passed := []

variable (f : DaFollower)

/-- `updateHighest`. Only the follow loop calls it, so its compare-and-swap succeeds. -/
def updateHighest (height : ℕ) : DaFollower :=
  if height ≤ f.highestSeenDAHeight then f
  else { f with highestSeenDAHeight := height, catchupSignal := true }

def processBlobs (call : DaRetriever.Call) (next : DaFollower → List DAHeightEvent → DaFollower) :
    DaFollower :=
  let f := { f with passed := f.passed ++ [call] }
  match f.retriever.processBlobs call with
  | .error panic => { f with panicked := some panic }
  | .ok (r, events) => next { f with retriever := r } events

/-- One step of `handleSubscriptionEvent`. -/
def followStep (inp : FollowInput) : DaFollower :=
  match f.follow with
  | .idle => { f.updateHighest inp.event.height with follow := .claiming inp.event }
  | .claiming ev =>
    if 0 < ev.blobs.length ∧ f.localNextDAHeight = ev.height then
      { f with localNextDAHeight := ev.height + 1, follow := .claimed ev }
    else { f with follow := .idle }
  | .claimed ev =>
    f.processBlobs ⟨ev.blobs, ev.height, inp.now⟩ fun f events =>
      { f with follow := .piping ev.height events }
  | .piping daHeight events =>
    -- without events no pipe can fail, and the height is rolled back all the same
    if events = [] ∨ inp.piped = false then { f with follow := .rollingBack daHeight }
    else
      { f with
        headReached := f.headReached || decide (f.highestSeenDAHeight < f.localNextDAHeight)
        follow := .idle }
  | .rollingBack daHeight => { f with localNextDAHeight := daHeight, follow := .idle }

def afterError (inp : CatchupInput) : CatchupPc :=
  if inp.cancelled then .waiting else .looping

def catchupStep (inp : CatchupInput) : DaFollower :=
  match f.catchup with
  | .waiting =>
    if f.catchupSignal then { f with catchupSignal := false, catchup := .looping } else f
  | .looping => { f with catchup := if inp.cancelled then .waiting else .draining }
  | .draining =>
    let popped := DaRetriever.popPriorityHeight f.priorityHeights
    let f := { f with priorityHeights := popped.2 }
    if popped.1 = 0 then { f with catchup := .loading }
    else if popped.1 < f.localNextDAHeight then f
    else { f with catchup := .fetching .priority popped.1 }
  | .loading => { f with catchup := .comparing f.localNextDAHeight }
  | .comparing localHeight =>
    if 0 < f.highestSeenDAHeight ∧ f.highestSeenDAHeight < localHeight then
      { f with headReached := true, catchup := .waiting }
    else { f with catchup := .claiming localHeight }
  | .claiming localHeight =>
    if f.localNextDAHeight = localHeight then
      { f with
        localNextDAHeight := localHeight + 1
        catchup := .fetching .sequential localHeight }
    else { f with catchup := .looping }
  | .fetching kind daHeight =>
    if daHeight = 0 then { f with catchup := .looping }
    else
      match blobsFromDA f.namespaceBz f.dataNamespace inp.headerRes inp.dataRes
          inp.cancelled with
      | .error .blobNotFound => { f with catchup := .looping }
      | .error .heightFromFuture =>
        { f with headReached := true, catchup := .failed kind daHeight }
      | .error _ => { f with catchup := .failed kind daHeight }
      | .ok blobs =>
        f.processBlobs ⟨blobs, daHeight, inp.now⟩ fun f events =>
          { f with catchup := .piping kind daHeight events }
  | .piping kind daHeight events =>
    if events = [] ∨ inp.piped = true then { f with catchup := .looping }
    else { f with catchup := .failed kind daHeight }
  | .failed .priority _ => { f with catchup := afterError inp }
  | .failed .sequential daHeight =>
    { f with localNextDAHeight := daHeight, catchup := afterError inp }

/-- A step of one of the routines, or a hint another goroutine queues. -/
inductive Step
  | follow (inp : FollowInput)
  | catchup (inp : CatchupInput)
  | hint (daHeight : ℕ)

def step (s : Step) : DaFollower :=
  if f.panicked.isSome then f
  else
    match s with
    | .follow inp => f.followStep inp
    | .catchup inp => f.catchupStep inp
    | .hint daHeight =>
      { f with
        priorityHeights := DaRetriever.queuePriorityHeight f.priorityHeights daHeight }

end DaFollower

end ChainSdk

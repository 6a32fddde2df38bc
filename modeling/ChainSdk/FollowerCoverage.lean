/-
What the DA follower leaves behind it has been processed, and when it has not.

A height below `localNextDAHeight` is either done or claimed by a routine that still works on it.
-/
import ChainSdk.DaFollower

namespace ChainSdk

open Except List Option

/-! ## What the DA layer holds -/

/-- A truthful reply with one of the four codes that `Retrieve` returns. -/
structure ResultRetrieve.Reports (da : ℕ → List Blob) (d : ℕ) (res : ResultRetrieve) :
    Prop where
  truthful : res.Truthful da d
  code : res.code ∈ [StatusCode.success, .notFound, .error, .heightFromFuture]

section

variable {da : ℕ → List Blob} {d : ℕ} {res : ResultRetrieve}

instance : Decidable (res.Reports da d) :=
  decidable_of_iff
    (((res.code = .success → res.data = da d) ∧ (res.code = .notFound → da d = [])) ∧
      res.code ∈ [StatusCode.success, .notFound, .error, .heightFromFuture])
    ⟨fun h => ⟨h.1, h.2⟩, fun h => ⟨h.truthful, h.code⟩⟩

theorem ResultRetrieve.Reports.validate_ok (hres : res.Reports da d)
    (hok : validateBlobResponse res = .ok ()) : res.data = da d := by
  obtain ⟨⟨hsuccess, -⟩, hcode⟩ := hres
  unfold validateBlobResponse at hok
  rcases hres : res.code <;> simp_all

theorem ResultRetrieve.Reports.validate_notFound (hres : res.Reports da d)
    (herror : validateBlobResponse res = .error .blobNotFound) : da d = [] := by
  obtain ⟨⟨-, hnotFound⟩, hcode⟩ := hres
  unfold validateBlobResponse at herror
  rcases hres : res.code <;> simp_all

theorem ResultRetrieve.Reports.half_found (hres : res.Reports da d)
    (hok : validateHalf res = .ok ()) : res.found = da d := by
  obtain ⟨⟨hsuccess, hnotFound⟩, hcode⟩ := hres
  unfold validateHalf validateBlobResponse at hok
  unfold ResultRetrieve.found
  rcases hres : res.code <;> simp_all

theorem validateHalf_ne_notFound (res : ResultRetrieve) :
    validateHalf res ≠ .error .blobNotFound := by
  unfold validateHalf validateBlobResponse
  rcases res.code <;> simp

end

/-! ## Blobs that complete no block -/

/-- With what the blobs decode to, every pending header still waits for its data. -/
def DaRetriever.CompletesNone (r : DaRetriever) (call : DaRetriever.Call) : Prop :=
  match decodeBlobs call.now call.daHeight ⟨r, [], []⟩ call.blobs with
  | .error _ => True
  | .ok decoded =>
    (decoded.data.foldl addData (decoded.headers.foldl addHeader decoded.retriever)).Settled

theorem DaRetriever.CompletesNone.no_events {r r' : DaRetriever} {call : DaRetriever.Call}
    {events : List DAHeightEvent} (hnone : r.CompletesNone call)
    (h : r.processBlobs call = .ok (r', events)) : events = [] := by
  unfold processBlobs at h
  unfold CompletesNone at hnone
  rcases hdecode : decodeBlobs call.now call.daHeight ⟨r, [], []⟩ call.blobs with
    panic | decoded
  · simp [hdecode] at h
  · rw [hdecode] at h hnone
    dsimp only at h hnone
    rw [hnone.matchHeaders_eq] at h
    exact (Prod.mk.inj (ok.inj h)).2.symm

instance (r : DaRetriever) : Decidable r.Settled :=
  decidable_of_iff (∀ p ∈ r.pendingHeaders.entries,
      r.pendingData.lookup p.1 = none ∧ DaRetriever.isEmptyDataExpected p.2 = false)
    ⟨fun hall h header hlookup => hall ⟨h, header⟩ (AList.mem_lookup_iff.mp hlookup),
      fun hall p hp => hall p.1 p.2 (AList.mem_lookup_iff.mpr hp)⟩

instance (r : DaRetriever) (call : DaRetriever.Call) : Decidable (r.CompletesNone call) := by
  unfold DaRetriever.CompletesNone
  split <;> infer_instance

/-! ## What has been passed -/

theorem FetchKind.eq_of_claim {kind : FetchKind} {d d' : ℕ} (h : kind.claim d = some d') :
    d = d' := by
  cases kind with
  | priority => exact absurd h (by simp [FetchKind.claim])
  | sequential => exact some.inj h

namespace DaFollower

section

variable (content : Bytes → ℕ → List Blob)

def heightBlobs (f : DaFollower) (d : ℕ) : List Blob :=
  content f.namespaceBz d ++ content f.dataNamespace d

def Passed (f : DaFollower) (d : ℕ) (blob : Blob) : Prop :=
  ∃ call ∈ f.passed, call.daHeight = d ∧ blob ∈ call.blobs

def Covered (f : DaFollower) (d : ℕ) : Prop :=
  ∀ blob ∈ f.heightBlobs content d, f.Passed d blob

end

section

variable {content : Bytes → ℕ → List Blob} {f : DaFollower} {d : ℕ}
  {headerRes dataRes : ResultRetrieve} (hheader : headerRes.Reports (content f.namespaceBz) d)
  (hdata : dataRes.Reports (content f.dataNamespace) d)
include hheader hdata

theorem fetchBlobs_spec {out : Except FetchError (List Blob)}
    (h : fetchBlobs f.namespaceBz f.dataNamespace headerRes dataRes = out) :
    (∀ blobs, out = .ok blobs → ∀ blob ∈ f.heightBlobs content d, blob ∈ blobs) ∧
      (out = .error .blobNotFound → f.heightBlobs content d = []) := by
  subst h
  unfold fetchBlobs heightBlobs
  by_cases hsame : f.namespaceBz = f.dataNamespace
  · rw [if_pos hsame, ← hsame]
    rcases hvalid : validateBlobResponse headerRes with e | _
    · refine ⟨fun blobs h => absurd h (by simp), fun h => ?_⟩
      rw [error.inj h] at hvalid
      rw [hheader.validate_notFound hvalid]
      rfl
    · rw [hheader.validate_ok hvalid]
      exact ⟨fun blobs h => by rw [← ok.inj h]; simp, fun h => absurd h (by simp)⟩
  · rw [if_neg hsame]
    rcases hvalid : validateHalf headerRes with e | _
    · refine ⟨fun blobs h => absurd h (by simp), fun h => ?_⟩
      rw [error.inj h] at hvalid
      exact absurd hvalid (validateHalf_ne_notFound headerRes)
    rcases hvalid' : validateHalf dataRes with e | _
    · refine ⟨fun blobs h => absurd h (by simp), fun h => ?_⟩
      rw [error.inj h] at hvalid'
      exact absurd hvalid' (validateHalf_ne_notFound dataRes)
    rw [hheader.half_found hvalid, hdata.half_found hvalid']
    dsimp only
    split_ifs with hempty
    · exact ⟨fun blobs h => absurd h (by simp), fun _ => hempty⟩
    · exact ⟨fun blobs h blob hblob => ok.inj h ▸ hblob, fun h => absurd h (by simp)⟩

end

/-! ## One step -/

/-- What is kept of a follower: its namespaces, and the calls it has made. -/
structure Extends (f f' : DaFollower) : Prop where
  namespaceBz_eq : f'.namespaceBz = f.namespaceBz
  dataNamespace_eq : f'.dataNamespace = f.dataNamespace
  passed : ∀ call ∈ f.passed, call ∈ f'.passed

section

variable {content : Bytes → ℕ → List Blob} {start d : ℕ} {f f' : DaFollower}

theorem Covered.mono (hd : f.Covered content d) (hext : f.Extends f') :
    f'.Covered content d := by
  intro blob hblob
  unfold heightBlobs at hblob
  rw [hext.namespaceBz_eq, hext.dataNamespace_eq] at hblob
  obtain ⟨call, hcall, hrest⟩ := hd blob hblob
  exact ⟨call, hext.passed call hcall, hrest⟩

/-- Every height behind is done, or claimed by a routine that still works on it. -/
structure Accounted (content : Bytes → ℕ → List Blob) (start : ℕ) (f : DaFollower) :
    Prop where
  behind : ∀ d, start ≤ d → d < f.localNextDAHeight →
    f.Covered content d ∨ f.follow.claim = some d ∨ f.catchup.claim = some d
  /-- Events on the fast path come from a height that is done. -/
  inline : ∀ d events, f.follow = .piping d events → events = [] ∨ f.Covered content d
  fetched : ∀ kind d events, f.catchup = .piping kind d events → f.Covered content d

theorem Accounted.follow_moves {pc : FollowPc} (hf : Accounted content start f)
    (hpc : f.follow = pc) (hext : f.Extends f') (hcatchup : f'.catchup = f.catchup)
    (hnext : ∀ d, d < f'.localNextDAHeight → d < f.localNextDAHeight ∨ f'.follow.claim = some d)
    (hclaim : ∀ d, pc.claim = some d → d < f'.localNextDAHeight →
      f'.Covered content d ∨ f'.follow.claim = some d)
    (hinline : ∀ d events, f'.follow = .piping d events → events = [] ∨ f'.Covered content d) :
    Accounted content start f' := by
  refine ⟨fun d hstart hd => ?_, hinline, fun kind d events hpiping => ?_⟩
  · rcases hnext d hd with hbehind | hnew
    · rcases hf.behind d hstart hbehind with hcovered | hfollow | hother
      · exact .inl (hcovered.mono hext)
      · exact (hclaim d (hpc ▸ hfollow) hd).imp_right .inl
      · exact .inr (.inr (hcatchup ▸ hother))
    · exact .inr (.inl hnew)
  · rw [hcatchup] at hpiping
    exact (hf.fetched kind d events hpiping).mono hext

theorem Accounted.catchup_moves {pc : CatchupPc} (hf : Accounted content start f)
    (hpc : f.catchup = pc) (hext : f.Extends f') (hfollow : f'.follow = f.follow)
    (hnext : ∀ d, d < f'.localNextDAHeight → d < f.localNextDAHeight ∨ f'.catchup.claim = some d)
    (hclaim : ∀ d, start ≤ d → pc.claim = some d → d < f'.localNextDAHeight →
      f'.Covered content d ∨ f'.catchup.claim = some d)
    (hfetched : ∀ kind d events, f'.catchup = .piping kind d events → f'.Covered content d) :
    Accounted content start f' := by
  refine ⟨fun d hstart hd => ?_, fun d events hpiping => ?_, hfetched⟩
  · rcases hnext d hd with hbehind | hnew
    · rcases hf.behind d hstart hbehind with hcovered | hother | hcatchup
      · exact .inl (hcovered.mono hext)
      · exact .inr (.inl (hfollow ▸ hother))
      · exact (hclaim d hstart (hpc ▸ hcatchup) hd).imp_right .inr
    · exact .inr (.inr hnew)
  · rw [hfollow] at hpiping
    exact (hf.inline d events hpiping).imp_right (fun hcovered => hcovered.mono hext)

theorem processBlobs_cases (f : DaFollower) (call : DaRetriever.Call)
    (next : DaFollower → List DAHeightEvent → DaFollower) :
    (∃ panic, f.processBlobs call next =
        { f with passed := f.passed ++ [call], panicked := some panic }) ∨
      ∃ r events, f.retriever.processBlobs call = .ok (r, events) ∧
        f.processBlobs call next =
          next { f with passed := f.passed ++ [call], retriever := r } events := by
  unfold processBlobs
  dsimp only
  rcases f.retriever.processBlobs call with panic | ⟨r, events⟩
  · exact .inl ⟨panic, rfl⟩
  · exact .inr ⟨r, events, rfl, rfl⟩

end

/-! ## The condition -/

section

variable (content : Bytes → ℕ → List Blob)

/-- An event with blobs carries those its namespace holds at the height, and the replies to a fetch
report what the namespaces hold. -/
def Step.Faithful (f : DaFollower) : Step → Prop
  | .follow inp => f.follow = .idle → inp.event.blobs = [] ∨
      inp.event.blobs = content f.namespaceBz inp.event.height ∨
      inp.event.blobs = content f.dataNamespace inp.event.height
  | .catchup inp =>
    match f.catchup with
    | .fetching _ d => inp.headerRes.Reports (content f.namespaceBz) d ∧
        inp.dataRes.Reports (content f.dataNamespace) d
    | _ => True
  | .hint _ => True

def BringsRest (f : DaFollower) (ev : SubscriptionEvent) : Prop :=
  ∀ blob ∈ f.heightBlobs content ev.height, blob ∈ ev.blobs ∨ f.Passed ev.height blob

/-- An event on the fast path brings the rest of its height or completes no block, and a
roll-back moves `localNextDAHeight` down. -/
def Step.Harmless (f : DaFollower) : Step → Prop
  | .follow inp =>
    match f.follow with
    | .claimed ev => f.BringsRest content ev ∨
        f.retriever.CompletesNone ⟨ev.blobs, ev.height, inp.now⟩
    | .rollingBack d => d ≤ f.localNextDAHeight
    | _ => True
  | .catchup _ =>
    match f.catchup with
    | .failed .sequential d => d ≤ f.localNextDAHeight
    | _ => True
  | .hint _ => True

instance (f : DaFollower) (d : ℕ) (blob : Blob) : Decidable (f.Passed d blob) :=
  inferInstanceAs (Decidable (∃ call ∈ f.passed, call.daHeight = d ∧ blob ∈ call.blobs))

instance (f : DaFollower) (d : ℕ) : Decidable (f.Covered content d) :=
  inferInstanceAs (Decidable (∀ blob ∈ f.heightBlobs content d, f.Passed d blob))

instance (f : DaFollower) (ev : SubscriptionEvent) : Decidable (f.BringsRest content ev) :=
  inferInstanceAs (Decidable (∀ blob ∈ f.heightBlobs content ev.height,
    blob ∈ ev.blobs ∨ f.Passed ev.height blob))

instance (f : DaFollower) (s : Step) : Decidable (s.Faithful content f) := by
  unfold Step.Faithful
  cases s with
  | follow inp => exact inferInstance
  | catchup inp => rcases f.catchup with _ | _ | _ | _ | _ | _ | _ | _ | _ <;> exact inferInstance
  | hint daHeight => exact inferInstance

instance (f : DaFollower) (s : Step) : Decidable (s.Harmless content f) := by
  unfold Step.Harmless
  cases s with
  | follow inp => rcases f.follow with _ | _ | _ | _ | _ <;> exact inferInstance
  | catchup inp =>
    rcases f.catchup with _ | _ | _ | _ | _ | _ | _ | _ | ⟨_ | _, _⟩ <;> exact inferInstance
  | hint daHeight => exact inferInstance

end

section

variable {content : Bytes → ℕ → List Blob} {start : ℕ} {f : DaFollower}

theorem BringsRest.covered {ev : SubscriptionEvent} (hrest : f.BringsRest content ev)
    (now : Time) (r : DaRetriever) (pc : FollowPc) :
    Covered content
      { f with
        passed := f.passed ++ [⟨ev.blobs, ev.height, now⟩]
        retriever := r
        follow := pc } ev.height := by
  intro blob hblob
  rcases hrest blob hblob with hnew | ⟨call, hcall, hpassed⟩
  · exact ⟨_, mem_append_right _ mem_cons_self, rfl, hnew⟩
  · exact ⟨call, mem_append_left _ hcall, hpassed⟩

theorem Accounted.followStep (hf : Accounted content start f) {inp : FollowInput}
    (hsafe : Step.Harmless content f (.follow inp)) :
    Accounted content start (f.followStep inp) := by
  unfold DaFollower.followStep
  unfold Step.Harmless at hsafe
  rcases hpc : f.follow with _ | ev | ev | ⟨d, events⟩ | d <;> rw [hpc] at hsafe
  · unfold updateHighest
    split_ifs
    all_goals
      exact hf.follow_moves hpc ⟨rfl, rfl, fun _ => id⟩ rfl (fun d hd => .inl hd)
        (by simp [FollowPc.claim]) (by simp)
  · dsimp only
    by_cases hcas : 0 < ev.blobs.length ∧ f.localNextDAHeight = ev.height
    · rw [if_pos hcas]
      refine hf.follow_moves hpc ⟨rfl, rfl, fun _ => id⟩ rfl (fun d hd => ?_)
        (by simp [FollowPc.claim]) (by simp)
      -- the one height more is the one claimed
      rw [hcas.2]
      exact (Nat.lt_succ_iff_lt_or_eq.mp hd).imp_right (fun heq => congrArg some heq.symm)
    · rw [if_neg hcas]
      exact hf.follow_moves hpc ⟨rfl, rfl, fun _ => id⟩ rfl (fun d hd => .inl hd)
        (by simp [FollowPc.claim]) (by simp)
  · dsimp only
    have hmore : ∀ call ∈ f.passed, call ∈ f.passed ++ [⟨ev.blobs, ev.height, inp.now⟩] :=
      fun call hcall => mem_append_left _ hcall
    rcases f.processBlobs_cases ⟨ev.blobs, ev.height, inp.now⟩
        (fun f events => { f with follow := .piping ev.height events }) with
      ⟨panic, heq⟩ | ⟨r, events, hprocess, heq⟩
    · rw [heq]
      exact hf.follow_moves rfl ⟨rfl, rfl, hmore⟩ rfl (fun d hd => .inl hd)
        (fun d hclaim _ => .inr hclaim) (by simp [hpc])
    rw [heq]
    refine hf.follow_moves hpc ⟨rfl, rfl, hmore⟩ rfl (fun d hd => .inl hd)
      (fun d hclaim _ => .inr hclaim) ?_
    -- events without the rest of the height are what the condition excludes
    intro d events' hpiping
    obtain ⟨rfl, rfl⟩ := FollowPc.piping.inj hpiping
    rcases hsafe with hrest | hnone
    · exact .inr (hrest.covered inp.now r _)
    · exact .inl (hnone.no_events hprocess)
  · dsimp only
    by_cases hback : events = [] ∨ inp.piped = false
    · rw [if_pos hback]
      exact hf.follow_moves hpc ⟨rfl, rfl, fun _ => id⟩ rfl (fun d hd => .inl hd)
        (fun d hclaim _ => .inr hclaim) (by simp)
    rw [if_neg hback]
    refine hf.follow_moves hpc ⟨rfl, rfl, fun _ => id⟩ rfl (fun d hd => .inl hd) ?_ (by simp)
    intro d' hclaim _
    obtain rfl := some.inj hclaim
    exact .inl ((hf.inline d events hpc).resolve_left (fun hnil => hback (.inl hnil)))
  · have hdown : d ≤ f.localNextDAHeight := hsafe
    refine hf.follow_moves hpc ⟨rfl, rfl, fun _ => id⟩ rfl
      (fun d' hd' => .inl (lt_of_lt_of_le hd' hdown)) ?_ (by simp)
    intro d' hclaim hd'
    obtain rfl := some.inj hclaim
    exact absurd hd' (lt_irrefl d)

section

variable {inp : CatchupInput} (hf : Accounted content start f) (hstart : 0 < start)
include hf hstart

theorem Accounted.fetching {kind : FetchKind} {d : ℕ} (hpc : f.catchup = .fetching kind d)
    (hda : Step.Faithful content f (.catchup inp)) :
    Accounted content start (f.catchupStep inp) := by
  unfold Step.Faithful at hda
  rw [hpc] at hda
  obtain ⟨hheader, hdata⟩ := hda
  -- a fetch given up leaves the height claimed, if it was
  have hfailed : ∀ head : Bool, Accounted content start
      { f with headReached := head, catchup := .failed kind d } := by
    intro head
    exact hf.catchup_moves hpc ⟨rfl, rfl, fun _ => id⟩ rfl (fun d hd => .inl hd)
      (fun d _ hclaim _ => .inr hclaim) (by simp)
  -- a height without blobs is done without a call
  have hdone : f.heightBlobs content d = [] ∨ d = 0 →
      Accounted content start { f with catchup := .looping } := by
    intro hnothing
    refine hf.catchup_moves hpc ⟨rfl, rfl, fun _ => id⟩ rfl (fun d hd => .inl hd) ?_ (by simp)
    intro d' hstart' hclaim _
    obtain rfl := FetchKind.eq_of_claim hclaim
    rcases hnothing with hempty | rfl
    · refine .inl fun blob hblob => ?_
      have hblob' : blob ∈ f.heightBlobs content d := hblob
      rw [hempty] at hblob'
      exact absurd hblob' not_mem_nil
    · exact absurd hstart' (Nat.not_le.mpr hstart)
  unfold DaFollower.catchupStep
  rw [hpc]
  dsimp only
  by_cases hzero : d = 0
  · rw [if_pos hzero]
    exact hdone (.inr hzero)
  rw [if_neg hzero]
  unfold blobsFromDA
  rcases hfetch : fetchBlobs f.namespaceBz f.dataNamespace inp.headerRes inp.dataRes with
    e | blobs
  · cases e with
    | blobNotFound => exact hdone (.inl ((fetchBlobs_spec hheader hdata hfetch).2 rfl))
    | heightFromFuture => exact hfailed true
    | retrievalFailed message | cancelled => exact hfailed f.headReached
  · dsimp only
    by_cases hcancelled : inp.cancelled = true
    · rw [if_pos hcancelled]
      exact hfailed f.headReached
    rw [if_neg hcancelled]
    dsimp only
    have hall := (fetchBlobs_spec hheader hdata hfetch).1 _ rfl
    have hmore : ∀ call ∈ f.passed, call ∈ f.passed ++ [⟨blobs, d, inp.now⟩] :=
      fun call hcall => mem_append_left _ hcall
    rcases f.processBlobs_cases ⟨blobs, d, inp.now⟩
        (fun f events => { f with catchup := .piping kind d events }) with
      ⟨panic, heq⟩ | ⟨r, events, -, heq⟩
    · rw [heq]
      exact hf.catchup_moves rfl ⟨rfl, rfl, hmore⟩ rfl (fun d hd => .inl hd)
        (fun d _ hclaim _ => .inr hclaim) (by simp [hpc])
    rw [heq]
    refine hf.catchup_moves hpc ⟨rfl, rfl, hmore⟩ rfl (fun d hd => .inl hd)
      (fun d _ hclaim _ => .inr hclaim) ?_
    intro kind' d' events' hpiping
    obtain ⟨-, rfl, -⟩ := CatchupPc.piping.inj hpiping
    exact fun blob hblob =>
      ⟨_, mem_append_right _ mem_cons_self, rfl, hall blob hblob⟩

theorem Accounted.catchupStep (hda : Step.Faithful content f (.catchup inp))
    (hsafe : Step.Harmless content f (.catchup inp)) :
    Accounted content start (f.catchupStep inp) := by
  rcases hpc : f.catchup with _ | _ | _ | _ | d | d | ⟨kind, d⟩ | ⟨kind, d, events⟩ | ⟨kind, d⟩
  case fetching => exact hf.fetching hstart hpc hda
  all_goals
    unfold DaFollower.catchupStep
    rw [hpc]
    dsimp only
  case waiting =>
    by_cases hsignal : f.catchupSignal = true
    · rw [if_pos hsignal]
      exact hf.catchup_moves hpc ⟨rfl, rfl, fun _ => id⟩ rfl (fun d hd => .inl hd)
        (by simp [CatchupPc.claim]) (by simp)
    · rw [if_neg hsignal]
      exact hf
  case looping =>
    refine hf.catchup_moves hpc ⟨rfl, rfl, fun _ => id⟩ rfl (fun d hd => .inl hd)
      (by simp [CatchupPc.claim]) ?_
    intro kind d events hpiping
    split_ifs at hpiping
  case draining =>
    split_ifs
    all_goals
      exact hf.catchup_moves hpc ⟨rfl, rfl, fun _ => id⟩ rfl (fun d hd => .inl hd)
        (by simp [CatchupPc.claim]) (by simp)
  case loading =>
    exact hf.catchup_moves hpc ⟨rfl, rfl, fun _ => id⟩ rfl (fun d hd => .inl hd)
      (by simp [CatchupPc.claim]) (by simp)
  case comparing =>
    split_ifs
    all_goals
      exact hf.catchup_moves hpc ⟨rfl, rfl, fun _ => id⟩ rfl (fun d hd => .inl hd)
        (by simp [CatchupPc.claim]) (by simp)
  case claiming =>
    by_cases hcas : f.localNextDAHeight = d
    · rw [if_pos hcas]
      refine hf.catchup_moves hpc ⟨rfl, rfl, fun _ => id⟩ rfl (fun d' hd' => ?_)
        (by simp [CatchupPc.claim]) (by simp)
      rw [hcas]
      exact (Nat.lt_succ_iff_lt_or_eq.mp hd').imp_right (fun heq => congrArg some heq.symm)
    · rw [if_neg hcas]
      exact hf.catchup_moves hpc ⟨rfl, rfl, fun _ => id⟩ rfl (fun d hd => .inl hd)
        (by simp [CatchupPc.claim]) (by simp)
  case piping =>
    by_cases hpiped : events = [] ∨ inp.piped = true
    · rw [if_pos hpiped]
      refine hf.catchup_moves hpc ⟨rfl, rfl, fun _ => id⟩ rfl (fun d hd => .inl hd) ?_ (by simp)
      intro d' _ hclaim _
      obtain rfl := FetchKind.eq_of_claim hclaim
      exact .inl (hf.fetched kind d events hpc)
    · rw [if_neg hpiped]
      exact hf.catchup_moves hpc ⟨rfl, rfl, fun _ => id⟩ rfl (fun d hd => .inl hd)
        (fun d _ hclaim _ => .inr hclaim) (by simp)
  case failed =>
    have hnotPiping : ∀ kind d events, afterError inp ≠ .piping kind d events := by
      intro kind d events
      unfold afterError
      split_ifs <;> simp
    cases kind with
    | priority =>
      exact hf.catchup_moves hpc ⟨rfl, rfl, fun _ => id⟩ rfl (fun d hd => .inl hd)
        (by simp [CatchupPc.claim, FetchKind.claim])
        (fun kind d events hpiping => absurd hpiping (hnotPiping kind d events))
    | sequential =>
      have hdown : d ≤ f.localNextDAHeight := by
        unfold Step.Harmless at hsafe
        rwa [hpc] at hsafe
      refine hf.catchup_moves hpc ⟨rfl, rfl, fun _ => id⟩ rfl
        (fun d' hd' => .inl (lt_of_lt_of_le hd' hdown)) ?_
        (fun kind d events hpiping => absurd hpiping (hnotPiping kind d events))
      intro d' _ hclaim hd'
      obtain rfl := some.inj hclaim
      exact absurd hd' (lt_irrefl d)

theorem Accounted.step {s : Step} (hda : s.Faithful content f) (hsafe : s.Harmless content f) :
    Accounted content start (f.step s) := by
  unfold DaFollower.step
  by_cases hpanicked : f.panicked.isSome = true
  · rw [if_pos hpanicked]
    exact hf
  rw [if_neg hpanicked]
  cases s with
  | follow inp => exact hf.followStep hsafe
  | catchup inp => exact hf.catchupStep hstart hda hsafe
  | hint daHeight => exact ⟨hf.behind, hf.inline, hf.fetched⟩

end

end

/-! ## Whole runs -/

section

variable (content : Bytes → ℕ → List Blob)

theorem new_accounted (r : DaRetriever) (namespaceBz dataNamespace : Bytes) (startDAHeight : ℕ) :
    Accounted content (new r namespaceBz dataNamespace startDAHeight).localNextDAHeight
      (new r namespaceBz dataNamespace startDAHeight) := by
  refine ⟨fun d hstart hd => absurd hd (Nat.not_lt.mpr hstart), ?_, ?_⟩
  · simp [new]
  · simp [new]

/-- In every interleaving in which events on the fast path bring the rest of their height or
complete no block, and roll-backs move `localNextDAHeight` down: while neither routine has
claimed a height, all blobs of every height behind have been passed to `processBlobs`. -/
theorem heights_behind_processed (content : Bytes → ℕ → List Blob) (r : DaRetriever)
    (namespaceBz dataNamespace : Bytes) (startDAHeight : ℕ) (steps : List Step)
    (hda : ∀ p ∈ Runs.steps step (new r namespaceBz dataNamespace startDAHeight) steps,
      p.2.Faithful content p.1)
    (hsafe : ∀ p ∈ Runs.steps step (new r namespaceBz dataNamespace startDAHeight) steps,
      p.2.Harmless content p.1) (hfollow : (steps.foldl step
      (new r namespaceBz dataNamespace startDAHeight)).follow.claim = none)
    (hcatchup : (steps.foldl step
      (new r namespaceBz dataNamespace startDAHeight)).catchup.claim = none)
    (d : ℕ) (hstart : (new r namespaceBz dataNamespace startDAHeight).localNextDAHeight ≤ d)
    (hbehind : d < (steps.foldl step
      (new r namespaceBz dataNamespace startDAHeight)).localNextDAHeight) :
    (steps.foldl step (new r namespaceBz dataNamespace startDAHeight)).Covered content d := by
  have hpos : 0 < (new r namespaceBz dataNamespace startDAHeight).localNextDAHeight := by
    unfold new
    dsimp only
    split_ifs with hzero
    · exact Nat.one_pos
    · exact Nat.pos_of_ne_zero hzero
  have hrun := Runs.foldl_invariant step (Accounted content _)
    (fun f s => s.Faithful content f ∧ s.Harmless content f)
    (fun f s hf hs => hf.step hpos hs.1 hs.2)
    (new_accounted content r namespaceBz dataNamespace startDAHeight)
    (fun p hp => ⟨hda p hp, hsafe p hp⟩)
  rcases hrun.behind d hstart hbehind with hcovered | hclaim | hclaim
  · exact hcovered
  · simp [hfollow] at hclaim
  · simp [hcatchup] at hclaim

/-! ## Two heights skipped -/

/-- The run skips a height: it leaves it behind, with a blob of it never passed. -/
def Skips (f : DaFollower) (steps : List Step) : Prop :=
  (∀ p ∈ Runs.steps step f steps, p.2.Faithful content p.1) ∧
    (steps.foldl step f).follow.claim = none ∧ (steps.foldl step f).catchup.claim = none ∧
      ∃ d, f.localNextDAHeight ≤ d ∧ d < (steps.foldl step f).localNextDAHeight ∧
        ¬ (steps.foldl step f).Covered content d

end

def halvesWire : Wire :=
  tableWire
    [([1], ⟨⟨some ⟨none, 1, 1, [], dataHashForEmptyTxs, [], [7], [], "chain", []⟩, [7, 1],
      some (blockSigner 7)⟩, []⟩)]
    [([2], ⟨some ⟨some ⟨"chain", 2, 2, []⟩, [[5]]⟩, [7, 3], some (blockSigner 7)⟩)]

def halvesContent (ns : Bytes) (d : ℕ) : List Blob := if d = 1 then [ns] else []

def delivered (height : ℕ) (blobs : List Blob) : Step := .follow ⟨⟨height, blobs⟩, 0, true⟩

def failing : Step := .catchup ⟨⟨.error, "", 0, []⟩, ⟨.error, "", 0, []⟩, false, 0, true⟩

/-- The catch-up loop claims height 1, the follow loop height 2. -/
def racingSteps : List Step :=
  List.replicate 6 failing ++ List.replicate 3 (delivered 2 [[9]]) ++
    List.replicate 2 failing ++ List.replicate 2 (delivered 2 [[9]])

/-- The header's event completes a block, so that the data at the same height is skipped; and
with one namespace only, the two roll-backs of a race skip a height. -/
theorem heights_behind_skipped :
    Skips halvesContent (new (.new proposerGenesis byteCodec halvesWire) [1] [2] 1)
        (List.replicate 4 (delivered 1 [[1]])) ∧
      Skips (fun _ _ => [[9]]) (new (.new proposerGenesis byteCodec halvesWire) [1] [] 1)
        racingSteps := by
  refine ⟨⟨?_, ?_, ?_, 1, ?_, ?_, ?_⟩, ?_, ?_, ?_, 1, ?_, ?_, ?_⟩
  all_goals decide +kernel

/-- The header's event completes nothing and is rolled back, the data's event brings the rest,
and the catch-up loop finds itself at the head. -/
def halvesSteps : List Step :=
  List.replicate 5 (delivered 1 [[1]]) ++ List.replicate 4 (delivered 1 [[2]]) ++
    List.replicate 5 failing

theorem heights_behind_processed_on_halves :
    (halvesSteps.foldl step
      (new (.new proposerGenesis byteCodec (blockWire 7)) [1] [2] 1)).Covered halvesContent 1 :=
  heights_behind_processed halvesContent (.new proposerGenesis byteCodec (blockWire 7)) [1] [2] 1
    halvesSteps (by decide +kernel) (by decide +kernel) (by decide +kernel) (by decide +kernel) 1
    (by decide +kernel) (by decide +kernel)

end DaFollower

end ChainSdk

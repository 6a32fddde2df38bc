/-
The two heights of the submission ledger never run ahead of DA; and when they go back.

Whoever sets one of the heights has a reason that stays good: everything up to the height is
acknowledged, or asks for no acknowledgement.
-/
import ChainSdk.Runs
import ChainSdk.SubmissionLedger
import ChainSdk.Watermark

namespace ChainSdk

open DaRetriever Function Option PendingBase Store

open Watermark

/-! ## One submission -/

section

variable {α : Type} {S S' : Stream α} {item item' : ℕ → Option α} {pb : PendingBase α}

structure BaseSound (S : Stream α) (item : ℕ → Option α) (pb : PendingBase α) : Prop where
  lastHeight : S.Mark pb.lastHeight
  metadata : S.Mark (pb.metadata.getD 0)
  cache : PendingBase.CacheOf item S.bound pb.pendingCache

/-- What a submission is about to send leaves nothing out, and the height it is about to set may
be set. -/
def PcSound (S : Stream α) : SubmitPc α → Prop
  | .idle => True
  | .attempting items _ => S.Queued items
  | .setting pc rest _ => S.Mark pc.new ∧ S.Queued rest

theorem BaseSound.extend (hpb : BaseSound S item pb) (hext : S.Extends S')
    (hitem : ∀ h ≤ S.bound, item' h = item h) : BaseSound S' item' pb := by
  refine ⟨hpb.lastHeight.extend hext, hpb.metadata.extend hext, fun h x hx => ?_⟩
  obtain ⟨hle, hsome⟩ := hpb.cache h x hx
  exact ⟨hle.trans hext.bound, (hitem h hle).trans hsome⟩

theorem PcSound.extend {pc : SubmitPc α} (hpc : PcSound S pc) (hext : S.Extends S') :
    PcSound S' pc := by
  cases pc with
  | idle => trivial
  | attempting items attempt => exact Stream.Queued.extend hpc hext
  | setting pc rest attempt => exact ⟨hpc.1.extend hext, hpc.2.extend hext⟩

theorem pcSound_afterCallback {rest : List α} (hrest : S.Queued rest) (attempt : ℕ) :
    PcSound S (.afterCallback rest attempt) := by
  unfold SubmitPc.afterCallback
  split_ifs
  · trivial
  · exact hrest

theorem BaseSound.setStep (hpb : BaseSound S item pb) {pc : SetPc} (hpc : S.Mark pc.new)
    (written : Bool) :
    BaseSound S item (pb.setStep written pc).1 ∧
      ∀ pc', (pb.setStep written pc).2 = some pc' → S.Mark pc'.new := by
  unfold PendingBase.setStep
  cases pc with
  | loading new =>
    refine ⟨hpb, fun pc' hpc' => ?_⟩
    dsimp only at hpc'
    split_ifs at hpc'
    rw [← some.inj hpc']
    exact hpc
  | swapping new lsh =>
    dsimp only
    split_ifs
    · refine ⟨⟨hpc, hpb.metadata, hpb.cache⟩, fun pc' hpc' => ?_⟩
      rw [← some.inj hpc']
      exact hpc
    · exact ⟨hpb, fun pc' hpc' => absurd hpc' (by simp)⟩
  | writing new =>
    split_ifs
    · exact ⟨⟨hpb.lastHeight, hpc, hpb.cache⟩, fun pc' hpc' => absurd hpc' (by simp)⟩
    · exact ⟨hpb, fun pc' hpc' => absurd hpc' (by simp)⟩

theorem mapM_marshal_fst {marshal : α → Option Blob} {items : List α} {marshaled : List (α × Blob)}
    (h : items.mapM (fun x => (marshal x).map (fun bz => (x, bz))) = some marshaled) :
    marshaled.map Prod.fst = items := by
  induction items generalizing marshaled with
  | nil =>
    rw [← some.inj h]
    rfl
  | cons x items ih =>
    rw [List.mapM_cons] at h
    rcases hx : marshal x with _ | bz
    · simp [hx] at h
    rcases hrest : items.mapM (fun x => (marshal x).map (fun bz => (x, bz))) with _ | rest
    · simp [hrest] at h
    · rw [hx, hrest] at h
      have heq : (x, bz) :: rest = marshaled := by simpa using h
      rw [← heq, List.map_cons, ih hrest]

structure Lists (S : Stream α) (item : ℕ → Option α) (fetch : ℕ → Except PendingListError α)
    (keep : α → Bool) : Prop where
  fetch : ∀ h x, fetch h = .ok x → item h = some x
  required : ∀ k y, S.required k y → item k = some y ∧ keep y = true
  number : ∀ k y, item k = some y → S.number y = k

variable {fetch : ℕ → Except PendingListError α} {keep : α → Bool}

theorem BaseSound.start (hpb : BaseSound S item pb) (hlists : Lists S item fetch keep)
    (inp : SubmitInput α) :
    BaseSound S item (SubmitPc.start pb S.bound fetch keep inp).1 ∧
      PcSound S (SubmitPc.start pb S.bound fetch keep inp).2 := by
  unfold SubmitPc.start
  dsimp only
  have hread : ∀ h x, (if inp.readable h then fetch h else .error (.unreadable h)) = .ok x →
      item h = some x := by
    intro h x hx
    split_ifs at hx
    exact hlists.fetch h x hx
  obtain ⟨hlast, hmetadata⟩ := pb.getPending_heights
    (if inp.heightRead then some S.bound else none)
    (fun h => if inp.readable h then fetch h else .error (.unreadable h))
  obtain ⟨hcache, hitems⟩ := getPending_spec hread hpb.cache
    (show ∀ h, (if inp.heightRead then some S.bound else none) = some h → h ≤ S.bound from
      fun h hh => by split_ifs at hh; exact (some.inj hh).ge)
  rcases hpending : pb.getPending (if inp.heightRead then some S.bound else none)
    (fun h => if inp.readable h then fetch h else .error (.unreadable h)) with ⟨e | pending, pb'⟩
  all_goals
    rw [hpending] at hlast hmetadata hcache hitems
    have hpb' : BaseSound S item pb' := ⟨hlast ▸ hpb.lastHeight, hmetadata ▸ hpb.metadata, hcache⟩
    dsimp only
  · exact ⟨hpb', trivial⟩
  -- the pending items that are asked for make a queue, and so does what is left of them
  obtain ⟨h, hheight, hle, hwindow⟩ := hitems pending rfl
  have hbound : h = S.bound := by split_ifs at hheight; exact (some.inj hheight).symm
  have hlength : pending.length = pendingCount pb.lastHeight h := by
    simpa using congrArg List.length hwindow
  have hqueued : S.Queued (pending.filter keep) := by
    refine Stream.queued_filter hpb.lastHeight.1 hlists.required hlists.number
      (hlength ▸ hwindow) ?_
    rw [hlength, pendingCount]
    omega
  split_ifs
  · exact ⟨hpb', trivial⟩
  rcases hmarshal : (pending.filter keep).mapM
    (fun x => (inp.marshal x).map (fun bz => (x, bz))) with _ | marshaled
  · exact ⟨hpb', trivial⟩
  dsimp only
  split_ifs
  · exact ⟨hpb', trivial⟩
  rcases hlimit : DaSubmitter.limitBatchBySize defaultMaxBlobSize marshaled with e | batch
  · exact ⟨hpb', trivial⟩
  refine ⟨hpb', ?_⟩
  show S.Queued (batch.map Prod.fst)
  rw [(DaSubmitter.limitBatchBySize_spec hlimit).2.1, List.map_take, mapM_marshal_fst hmarshal]
  exact hqueued.take _

theorem queued_onReply {items : List α} (hitems : S.Queued items) (res : ResultSubmit) :
    let outcome := DaSubmitter.onReply items res
    (S.ack outcome.submitted).Queued outcome.rest ∧
      ∀ last, outcome.submitted.getLast? = some last →
        (S.ack outcome.submitted).Mark (S.number last) := by
  have hnone : ∀ rest, S.Queued rest → (S.ack []).Queued rest ∧
      ∀ last, ([] : List α).getLast? = some last → (S.ack []).Mark (S.number last) :=
    fun rest hrest => ⟨hrest.extend (S.extends_ack []), fun last hlast => absurd hlast (by simp)⟩
  unfold DaSubmitter.onReply
  rcases res.code
  case success =>
    dsimp only
    refine ⟨?_, fun last hlast => hitems.mark_last hlast⟩
    split_ifs
    · exact Stream.queued_nil _
    · exact hitems.ack_drop _
  case tooBig =>
    dsimp only
    split_ifs
    · exact hnone _ S.queued_nil
    all_goals exact hnone _ (hitems.take _)
  case contextCanceled => exact hnone _ S.queued_nil
  all_goals exact hnone _ hitems

theorem pcSound_attempt {items : List α} (hitems : S.Queued items) (maxAttempts attempt : ℕ)
    (inp : SubmitInput α) :
    PcSound (S.ack (SubmitPc.attempt S.number maxAttempts items attempt inp).2)
      (SubmitPc.attempt S.number maxAttempts items attempt inp).1 := by
  unfold SubmitPc.attempt
  split_ifs
  · trivial
  obtain ⟨hrest, hmark⟩ := queued_onReply hitems inp.reply
  dsimp only
  rcases hlast : (DaSubmitter.onReply items inp.reply).submitted.getLast? with _ | last
  · exact pcSound_afterCallback hrest _
  · exact ⟨hmark last hlast, hrest⟩

theorem submitStep_sound {pc : SubmitPc α} (hpb : BaseSound S item pb) (hpc : PcSound S pc)
    (hlists : Lists S item fetch keep) (maxAttempts : ℕ) (inp : SubmitInput α) :
    let next := submitStep S.number maxAttempts S.bound fetch keep pb inp pc
    BaseSound (S.ack next.2.2) item next.1 ∧ PcSound (S.ack next.2.2) next.2.1 := by
  have hack : ∀ acked, BaseSound (S.ack acked) item pb :=
    fun acked => hpb.extend (S.extends_ack acked) (fun _ _ => rfl)
  unfold submitStep
  cases pc with
  | idle =>
    obtain ⟨hbase, hstarted⟩ := hpb.start hlists inp
    exact ⟨hbase.extend (S.extends_ack []) (fun _ _ => rfl), hstarted.extend (S.extends_ack [])⟩
  | attempting items attempt => exact ⟨hack _, pcSound_attempt hpc maxAttempts attempt inp⟩
  | setting pc rest attempt =>
    dsimp only
    obtain ⟨hbase, hnext⟩ := hpb.setStep hpc.1 inp.written
    rcases hset : pb.setStep inp.written pc with ⟨pb', _ | pc'⟩
    all_goals
      rw [hset] at hbase hnext
      refine ⟨hbase.extend (S.extends_ack []) (fun _ _ => rfl), ?_⟩
    · exact (pcSound_afterCallback hpc.2 attempt).extend (S.extends_ack [])
    · have hmark := hnext pc' rfl
      exact ⟨hmark.extend (S.extends_ack []), hpc.2.extend (S.extends_ack [])⟩

end

namespace LedgerNode

/-! ## The two streams -/

/-- Every header of the chain is to be submitted. -/
def headerStream (n : LedgerNode) : Stream SignedHeader where
  required := fun k header => n.store.headerAt k = some header
  number := fun header => header.header.height
  acked := n.ackedHeaders
  bound := n.store.height

def dataStream (n : LedgerNode) : Stream Data where
  required := fun k data => n.store.dataAt k = some data ∧ nonEmpty data = true
  number := dataHeight
  acked := n.ackedData
  bound := n.store.height

structure StoredFrom (initialHeight : ℕ) (store : Store) : Prop where
  blocks : ∀ h, (∃ block, store.blocks h = some block) ↔ initialHeight ≤ h ∧ h ≤ store.height
  heights : ∀ h block, store.blocks h = some block →
    block.header.header.height = h ∧ dataHeight block.data = h
  start : initialHeight ≤ store.height + 1

/-- A call of `NumPendingData` has looked at everything up to where it is. -/
def CallSound (S : Stream Data) : AdvancePc → Prop
  | .idle => True
  | .started storeHeight => storeHeight ≤ S.bound
  | .looping height storeHeight => storeHeight ≤ S.bound ∧ ∃ m, height = m + 1 ∧ S.Mark m
  | .setting pc height storeHeight =>
    storeHeight ≤ S.bound ∧ S.Mark pc.new ∧ S.Mark height

theorem CallSound.extend {S S' : Stream Data} {pc : AdvancePc} (hpc : CallSound S pc)
    (hext : S.Extends S') : CallSound S' pc := by
  cases pc with
  | idle => trivial
  | started storeHeight => exact Nat.le_trans hpc hext.bound
  | looping height storeHeight =>
    obtain ⟨hle, m, heq, hmark⟩ := hpc
    exact ⟨hle.trans hext.bound, m, heq, hmark.extend hext⟩
  | setting pc height storeHeight =>
    exact ⟨hpc.1.trans hext.bound, hpc.2.1.extend hext, hpc.2.2.extend hext⟩

/-- Every height that is set, or about to be, is sound. -/
structure LedgerSound (initialHeight : ℕ) (n : LedgerNode) : Prop where
  stored : StoredFrom initialHeight n.store
  headers : BaseSound n.headerStream n.store.headerAt n.headers
  data : BaseSound n.dataStream n.store.dataAt n.data
  submittingHeaders : PcSound n.headerStream n.submittingHeaders
  submittingData : PcSound n.dataStream n.submittingData
  counting : ∀ call, CallSound n.dataStream (n.counting call)

variable {initialHeight : ℕ} {n : LedgerNode}

theorem fetchItem_ok {α : Type} {itemHeight : α → ℕ} {item : ℕ → Option α} {h : ℕ} {x : α}
    (hx : fetchItem itemHeight item h = .ok x) : item h = some x := by
  unfold fetchItem at hx
  rcases hitem : item h with _ | y
  · simp [hitem] at hx
  · rw [hitem] at hx
    dsimp only at hx
    split_ifs at hx
    rw [Except.ok.inj hx]

theorem headerAt_eq_some {store : Store} {h : ℕ} {header : SignedHeader} :
    store.headerAt h = some header ↔ ∃ block, store.blocks h = some block ∧
      block.header = header :=
  map_eq_some_iff

theorem dataAt_eq_some {store : Store} {h : ℕ} {data : Data} :
    store.dataAt h = some data ↔ ∃ block, store.blocks h = some block ∧ block.data = data :=
  map_eq_some_iff

theorem headerLists (hn : StoredFrom initialHeight n.store) :
    Lists n.headerStream n.store.headerAt (fetchSignedHeader n.store) (fun _ => true) where
  fetch := fun _ _ => fetchItem_ok
  required := fun _ _ hrequired => ⟨hrequired, rfl⟩
  number := by
    intro k header hheader
    obtain ⟨block, hblock, rfl⟩ := headerAt_eq_some.mp hheader
    exact (hn.heights k block hblock).1

theorem dataLists (hn : StoredFrom initialHeight n.store) :
    Lists n.dataStream n.store.dataAt (fetchData n.store) nonEmpty where
  fetch := fun _ _ => fetchItem_ok
  required := fun _ _ hrequired => hrequired
  number := by
    intro k data hdata
    obtain ⟨block, hblock, rfl⟩ := dataAt_eq_some.mp hdata
    exact (hn.heights k block hblock).2

/-! ## One step of each kind -/

section

variable (hn : LedgerSound initialHeight n)
include hn

theorem LedgerSound.submitHeaders
    (inp : SubmitInput SignedHeader) : LedgerSound initialHeight (n.submitHeaders inp) := by
  obtain ⟨hbase, hpc⟩ := submitStep_sound hn.headers hn.submittingHeaders
    (headerLists hn.stored) n.maxAttempts inp
  exact ⟨hn.stored, hbase, hn.data, hpc, hn.submittingData, hn.counting⟩

theorem LedgerSound.submitData (inp : SubmitInput Data) :
    LedgerSound initialHeight (n.submitData inp) := by
  obtain ⟨hbase, hpc⟩ := submitStep_sound hn.data hn.submittingData (dataLists hn.stored)
    n.maxAttempts inp
  exact ⟨hn.stored, hn.headers, hbase, hn.submittingHeaders, hpc,
    fun call => (hn.counting call).extend (n.dataStream.extends_ack _)⟩

theorem LedgerSound.countStep (inp : AdvanceInput)
    {pc : AdvancePc} (hpc : CallSound n.dataStream pc) :
    BaseSound n.dataStream n.store.dataAt (n.countStep inp pc).1 ∧
      CallSound n.dataStream (n.countStep inp pc).2 := by
  unfold LedgerNode.countStep
  cases pc with
  | idle =>
    refine ⟨hn.data, ?_⟩
    dsimp only
    split_ifs
    · exact (le_rfl : n.store.height ≤ n.store.height)
    · trivial
  | started storeHeight => exact ⟨hn.data, hpc, n.data.lastHeight, rfl, hn.data.lastHeight⟩
  | looping height storeHeight =>
    obtain ⟨hbound, m, rfl, hsettled, hle⟩ := hpc
    dsimp only
    split_ifs with hend
    · exact ⟨hn.data, trivial⟩
    · exact ⟨hn.data, trivial⟩
    rcases hfetch : fetchData n.store (m + 1) with e | data
    · exact ⟨hn.data, trivial⟩
    dsimp only
    split_ifs with hempty
    · exact ⟨hn.data, trivial⟩
    refine ⟨hn.data, hbound, ?_⟩
    have hdata := fetchItem_ok hfetch
    have hmark : n.dataStream.Mark (m + 1) := by
      refine ⟨hsettled.succ (fun y hy => ?_), by omega⟩
      rw [← some.inj (hdata.symm.trans hy.1)] at hy
      exact absurd hy.2 hempty
    exact ⟨hmark, hmark⟩
  | setting pc height storeHeight =>
    obtain ⟨hbound, hmark, hheight⟩ := hpc
    dsimp only
    obtain ⟨hbase, hnext⟩ := hn.data.setStep hmark inp.written
    rcases hset : n.data.setStep inp.written pc with ⟨pb', _ | pc'⟩
    all_goals
      rw [hset] at hbase hnext
      refine ⟨hbase, hbound, ?_⟩
    · exact ⟨height, rfl, hheight⟩
    · exact ⟨hnext pc' rfl, hheight⟩

theorem LedgerSound.numPendingData (call : ℕ)
    (inp : AdvanceInput) : LedgerSound initialHeight (n.numPendingData call inp) := by
  obtain ⟨hbase, hpc⟩ := hn.countStep inp (hn.counting call)
  refine ⟨hn.stored, hn.headers, hbase, hn.submittingHeaders, hn.submittingData,
    fun other => ?_⟩
  show CallSound n.dataStream (update n.counting call _ other)
  by_cases hother : other = call
  · rw [hother, update_self]
    exact hpc
  · rw [update_of_ne hother]
    exact hn.counting other

theorem LedgerSound.produce (header : SignedHeader)
    (data : Data) : LedgerSound initialHeight (n.produce header data) := by
  unfold LedgerNode.produce
  by_cases hnext : n.IsNext header data
  swap
  · rw [if_neg hnext]
    exact hn
  rw [if_pos hnext]
  obtain ⟨hheight, hdata⟩ := hnext
  have hdataHeight : dataHeight data = header.header.height := by
    rw [dataHeight, hdata]
    rfl
  generalize hstore : (n.store.saveBlockData header data header.signature).setHeight
    header.header.height = store
  have hnew : store.height = n.store.height + 1 ∧ store.blocks = update n.store.blocks
      (n.store.height + 1) (some ⟨header, data, header.signature⟩) := by
    rw [← hstore, ← hheight]
    unfold setHeight saveBlockData
    dsimp only
    rw [if_neg (by omega)]
    exact ⟨rfl, rfl⟩
  have hold : ∀ h ≤ n.store.height, store.blocks h = n.store.blocks h := by
    intro h hle
    rw [hnew.2, update_of_ne (by omega)]
  have hheaders : ∀ h ≤ n.store.height, store.headerAt h = n.store.headerAt h := by
    intro h hle
    rw [Store.headerAt, hold h hle, Store.headerAt]
  have hdatas : ∀ h ≤ n.store.height, store.dataAt h = n.store.dataAt h := by
    intro h hle
    rw [Store.dataAt, hold h hle, Store.dataAt]
  have hextHeaders : n.headerStream.Extends { n with store := store }.headerStream :=
    ⟨rfl, fun _ h => h, by show n.store.height ≤ store.height; omega,
      fun k hk y hy => (hheaders k hk).symm.trans hy⟩
  have hextData : n.dataStream.Extends { n with store := store }.dataStream :=
    ⟨rfl, fun _ h => h, by show n.store.height ≤ store.height; omega,
      fun k hk y hy => ⟨(hdatas k hk).symm.trans hy.1, hy.2⟩⟩
  refine ⟨⟨fun h => ?_, ?_, ?_⟩, hn.headers.extend hextHeaders hheaders,
    hn.data.extend hextData hdatas, hn.submittingHeaders.extend hextHeaders,
    hn.submittingData.extend hextData, fun call => (hn.counting call).extend hextData⟩
  · show (∃ block, store.blocks h = some block) ↔ initialHeight ≤ h ∧ h ≤ store.height
    have hstart := hn.stored.start
    by_cases hh : h = n.store.height + 1
    · rw [hnew.1, hnew.2, hh, update_self]
      exact ⟨fun _ => ⟨hstart, le_rfl⟩, fun _ => ⟨_, rfl⟩⟩
    · rw [hnew.2, update_of_ne hh, hn.stored.blocks h]
      omega
  · dsimp only
    rw [hnew.2]
    exact forall_update_some (fun h block _ => hn.stored.heights h block)
      ⟨hheight, hdataHeight.trans hheight⟩
  · show initialHeight ≤ store.height + 1
    have hstart := hn.stored.start
    omega

end

theorem baseSound_init {α : Type} {S : Stream α} {item : ℕ → Option α} {metadata : Option ℕ}
    (hmark : S.Mark (metadata.getD 0)) : BaseSound S item (.init metadata) :=
  ⟨hmark, hmark, cacheOf_new _⟩

theorem LedgerSound.step (hn : LedgerSound initialHeight n) (e : Event) :
    LedgerSound initialHeight (n.step e) := by
  cases e with
  | produce header data => exact hn.produce header data
  | submitHeaders inp => exact hn.submitHeaders inp
  | submitData inp => exact hn.submitData inp
  | numPendingData call inp => exact hn.numPendingData call inp
  | restart =>
    exact ⟨hn.stored, baseSound_init hn.headers.metadata, baseSound_init hn.data.metadata,
      trivial, trivial, fun _ => trivial⟩

theorem fresh_sound (hinitial : 1 ≤ initialHeight) (maxAttempts : ℕ) :
    LedgerSound initialHeight (fresh initialHeight maxAttempts) := by
  refine ⟨⟨fun h => ?_, fun h block hblock => absurd hblock (by simp [fresh, empty]), ?_⟩,
    baseSound_init ⟨fun k _ y hy => ?_, Nat.zero_le _⟩,
    baseSound_init ⟨fun k _ y hy => ?_, Nat.zero_le _⟩, trivial, trivial, fun _ => trivial⟩
  · show (∃ block, (none : Option StoredBlock) = some block) ↔ initialHeight ≤ h ∧
      h ≤ initialHeight - 1
    refine ⟨fun ⟨block, hblock⟩ => absurd hblock (by simp), fun hh => by omega⟩
  · show initialHeight ≤ initialHeight - 1 + 1
    omega
  · exact absurd hy (by simp [fresh, empty, headerStream, Store.headerAt])
  · exact absurd hy.1 (by simp [fresh, empty, Store.dataAt])

theorem run_sound (hinitial : 1 ≤ initialHeight) (maxAttempts : ℕ) (events : List Event) :
    LedgerSound initialHeight (events.foldl step (fresh initialHeight maxAttempts)) :=
  Runs.foldl_invariant step (LedgerSound initialHeight) (fun _ _ => True)
    (fun _ e hn _ => hn.step e) (fresh_sound hinitial maxAttempts) (fun _ _ => trivial)

end LedgerNode

end ChainSdk

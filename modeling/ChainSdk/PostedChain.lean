/-
The chain of a producer on DA, and what a retriever makes of it.

The blobs of a block may be anywhere: header and data in one call or in different ones, in either
order, several blocks in one call, a blob read twice.
-/
import ChainSdk.ForeignBlobs
import ChainSdk.ProducedData

namespace ChainSdk

open DaRetriever List Option

/-! ## Blobs of a chain -/

structure PostedBlobs where
  header : StoredBlock → Blob
  data : StoredBlock → Blob

structure DataRoundTrips (genesis : Genesis) (c : Codec) (w : Wire) (key : PubKey) (data : Data)
    (bz : Blob) : Prop where
  ne_nil : bz ≠ []
  decodes : ∃ signature, SignedData.unmarshalBinary w bz =
      some ⟨some data, signature, ⟨some key, genesis.proposerAddress⟩⟩ ∧
    w.verify key (c.dataBytes data) signature = .ok true
  unsigned : ∀ header signature,
    SignedHeader.unmarshalDAEnvelope w bz = some (header, signature) → signature = []
  nameless : ∀ header, DecodesTo w bz header → header.header.proposerAddress = []

/-- A block's blobs decode to what was encoded: the header in an envelope signed with `key`, and
the data, if there is any. -/
structure RoundTrips (config : ExecutorConfig) (w : Wire) (key : PubKey) (posted : PostedBlobs)
    (block : StoredBlock) : Prop where
  header_ne : posted.header block ≠ []
  header : ∃ signature, SignedHeader.unmarshalDAEnvelope w (posted.header block) =
      some (block.header, signature) ∧ 0 < signature.length ∧
    w.verify key (w.signedHeaderBytes block.header) signature = .ok true
  data : block.data.txs ≠ [] →
    DataRoundTrips config.genesis config.codec w key block.data (posted.data block)

/-- Calls that hold the blobs of the chain in `s` and no others, and headers only once their time is
reached. -/
structure PostedChain (posted : PostedBlobs) (s : Store) (calls : List DaRetriever.Call) :
    Prop where
  only : ∀ call ∈ calls, ∀ bz ∈ call.blobs, ∃ h block, s.blocks h = some block ∧
    (bz = posted.header block ∨ bz = posted.data block ∧ block.data.txs ≠ [])
  header : ∀ h block, s.blocks h = some block → ∃ call ∈ calls, posted.header block ∈ call.blobs
  data : ∀ h block, s.blocks h = some block → block.data.txs ≠ [] →
    ∃ call ∈ calls, posted.data block ∈ call.blobs
  clock : ∀ call ∈ calls, ∀ h block, s.blocks h = some block →
    posted.header block ∈ call.blobs →
    timeOfUint64 block.header.header.time ≤ call.now + maxClockDrift

def PostedBlobs.blobs (posted : PostedBlobs) (block : StoredBlock) : List Blob :=
  if block.data.txs = [] then [posted.header block] else [posted.header block, posted.data block]

theorem PostedBlobs.mem_blobs {posted : PostedBlobs} {block : StoredBlock} {bz : Blob} :
    bz ∈ posted.blobs block ↔
      bz = posted.header block ∨ block.data.txs ≠ [] ∧ bz = posted.data block := by
  unfold PostedBlobs.blobs
  split_ifs with hempty <;> simp [hempty]

def StoredBlock.shownData (block : StoredBlock) : Data :=
  if block.data.txs = [] then createEmptyDataForHeader block.header else block.data

/-- The event has the block's header, and its data or what stands for empty data. -/
structure DAHeightEvent.Shows (block : StoredBlock) (ev : DAHeightEvent) : Prop where
  header_eq : ev.header = block.header
  data_eq : ev.data = if block.data.txs = [] then
    createEmptyDataForHeader block.header else block.data

namespace DaRetriever

/-- A block of height `h` that the retriever can read. -/
structure Readable (config : ExecutorConfig) (w : Wire) (key : PubKey) (posted : PostedBlobs)
    (h : ℕ) (block : StoredBlock) : Prop extends RoundTrips config w key posted block where
  height_eq : block.header.header.height = h
  pubKey_eq : block.header.signer.pubKey = some key
  proposer_eq : block.header.header.proposerAddress = config.genesis.proposerAddress
  validateBasic : ∀ now, timeOfUint64 block.header.header.time ≤ now + maxClockDrift →
    block.header.header.validateBasic now = .ok ()
  metadata : ∃ m, block.data.metadata = some m ∧ m.height = h
  empty_iff : isEmptyDataExpected block.header = true ↔ block.data.txs = []

structure OfChain (config : ExecutorConfig) (w : Wire) (s : Store) (r : DaRetriever) : Prop where
  genesis_eq : r.genesis = config.genesis
  codec_eq : r.codec = config.codec
  wire_eq : r.wire = w
  headers : ∀ h header, r.pendingHeaders.lookup h = some header →
    ∃ block, s.blocks h = some block ∧ block.header = header
  data : ∀ h data, r.pendingData.lookup h = some data →
    ∃ block, s.blocks h = some block ∧ block.data = data ∧ data.txs ≠ []

/-- A call with blobs of the chain only, at a time when the headers among them are valid. -/
structure OfPosted (posted : PostedBlobs) (s : Store) (call : Call) : Prop where
  only : ∀ bz ∈ call.blobs, ∃ h block, s.blocks h = some block ∧
    (bz = posted.header block ∨ bz = posted.data block ∧ block.data.txs ≠ [])
  clock : ∀ h block, s.blocks h = some block → posted.header block ∈ call.blobs →
    timeOfUint64 block.header.header.time ≤ call.now + maxClockDrift

section

variable {config : ExecutorConfig} {w : Wire} {key : PubKey} {posted : PostedBlobs} {s : Store}
  {r r' : DaRetriever} {h : ℕ} {block : StoredBlock}

theorem new_ofChain : (new config.genesis config.codec w).OfChain config w s :=
  ⟨rfl, rfl, rfl, fun _ _ hlookup => absurd hlookup (by simp [new]),
    fun _ _ hlookup => absurd hlookup (by simp [new])⟩

section

variable {h' : ℕ} {block' : StoredBlock} (hblock : Readable config w key posted h block)
include hblock

theorem Readable.dataHeight_eq :
    dataHeight block.data = h := by
  obtain ⟨m, hmetadata, hm⟩ := hblock.metadata
  rw [dataHeight, hmetadata]
  exact hm

theorem Readable.header_injective (hblock' : Readable config w key posted h' block')
    (heq : posted.header block = posted.header block') : block.header = block'.header := by
  obtain ⟨signature, hdecode, -⟩ := hblock.header
  obtain ⟨signature', hdecode', -⟩ := hblock'.header
  rw [heq, hdecode'] at hdecode
  exact (Prod.mk.inj (some.inj hdecode)).1.symm

theorem Readable.data_injective
    (hblock' : Readable config w key posted h' block') (hfull : block.data.txs ≠ [])
    (hfull' : block'.data.txs ≠ []) (heq : posted.data block = posted.data block') :
    block.data = block'.data := by
  obtain ⟨signature, hdecode, -⟩ := (hblock.data hfull).decodes
  obtain ⟨signature', hdecode', -⟩ := (hblock'.data hfull').decodes
  rw [heq, hdecode'] at hdecode
  exact (some.inj (SignedData.mk.inj (some.inj hdecode)).1).symm

theorem Readable.header_ne_data
    (hblock' : Readable config w key posted h' block') (hfull' : block'.data.txs ≠ []) :
    posted.header block ≠ posted.data block' := by
  intro heq
  obtain ⟨signature, hdecode, hsigned, -⟩ := hblock.header
  rw [heq] at hdecode
  simp [(hblock'.data hfull').unsigned _ _ hdecode] at hsigned

/-! ## Decoding -/

theorem Readable.decodeBlob_header
    (hgenesis : r.genesis = config.genesis) (hwire : r.wire = w) {now : Time}
    (hclock : timeOfUint64 block.header.header.time ≤ now + maxClockDrift) (daHeight : ℕ)
    (hs : List SignedHeader) (ds : List Data) :
    ∃ r', decodeBlob now daHeight ⟨r, hs, ds⟩ (posted.header block) =
      .ok ⟨r', hs ++ [block.header], ds⟩ := by
  subst hwire
  obtain ⟨signature, hdecode, hsigned, hverify⟩ := hblock.header
  unfold decodeBlob
  rw [if_neg (by simpa using hblock.header_ne), tryDecodeHeader_envelope hdecode hsigned
    hblock.pubKey_eq hverify (hblock.validateBasic now hclock) (hgenesis ▸ hblock.proposer_eq)]
  exact ⟨_, rfl⟩

theorem Readable.decodeBlob_data
    (hgenesis : r.genesis = config.genesis) (hcodec : r.codec = config.codec) (hwire : r.wire = w)
    (hfull : block.data.txs ≠ []) (now : Time) (daHeight : ℕ) (hs : List SignedHeader)
    (ds : List Data) :
    ∃ r', decodeBlob now daHeight ⟨r, hs, ds⟩ (posted.data block) =
      .ok ⟨r', hs, ds ++ [block.data]⟩ := by
  subst hwire
  obtain ⟨hne, ⟨signature, hdecode, hverify⟩, hunsigned, hnameless⟩ := hblock.data hfull
  obtain ⟨metadata, hmetadata, -⟩ := hblock.metadata
  rw [← hgenesis] at hdecode
  rw [← hcodec] at hverify
  unfold decodeBlob
  rw [if_neg (by simpa using hne), tryDecodeHeader_nameless hunsigned hnameless]
  dsimp only
  rw [tryDecodeData_valid hdecode (.inl hfull) hverify hmetadata]
  exact ⟨_, rfl⟩

end

/-- What a decoding loop has found in the blobs it has got through. -/
structure FindsChain (posted : PostedBlobs) (s : Store) (blobs : List Blob) (acc : Decoded) :
    Prop where
  headers : ∀ header, header ∈ acc.headers ↔ ∃ h block, s.blocks h = some block ∧
    posted.header block ∈ blobs ∧ block.header = header
  data : ∀ data, data ∈ acc.data ↔ ∃ h block, (s.blocks h = some block ∧ block.data.txs ≠ []) ∧
    posted.data block ∈ blobs ∧ block.data = data

section

variable {α : Type} {Q : ℕ → StoredBlock → Prop} {blob : StoredBlock → Blob}
  {part : StoredBlock → α} {blobs : List Blob} {bz : Blob} {found : List α}
  (hfound : ∀ x, x ∈ found ↔ ∃ h block, Q h block ∧ blob block ∈ blobs ∧ part block = x)
include hfound

theorem finds_append {new : List α}
    (hnew : ∀ x, x ∈ new ↔ ∃ h block, Q h block ∧ blob block = bz ∧ part block = x) (x : α) :
    x ∈ found ++ new ↔ ∃ h block, Q h block ∧ blob block ∈ blobs ++ [bz] ∧ part block = x := by
  rw [mem_append, hfound, hnew]
  simp only [mem_append, mem_singleton, or_and_right, and_or_left, exists_or]

theorem finds_none (hnone : ∀ h block, Q h block → blob block ≠ bz) (x : α) :
    x ∈ found ↔ ∃ h block, Q h block ∧ blob block ∈ blobs ++ [bz] ∧ part block = x := by
  have hnew (x : α) : x ∈ [] ↔ ∃ h block, Q h block ∧ blob block = bz ∧ part block = x :=
    iff_of_false not_mem_nil fun ⟨h, block, hQ, heq, _⟩ => hnone h block hQ heq
  rw [← finds_append hfound hnew, append_nil]

end

variable (hchain : ∀ h block, s.blocks h = some block → Readable config w key posted h block)
include hchain

theorem FindsChain.decodeBlob {blobs : List Blob} {acc : Decoded} {call : Call} {bz : Blob}
    (hfound : FindsChain posted s blobs acc) (hr : r.OfChain config w s)
    (hacc : r.Decodes blobs acc) (hcall : OfPosted posted s call) (hbz : bz ∈ call.blobs) :
    ∃ acc', decodeBlob call.now call.daHeight acc bz = .ok acc' ∧
      FindsChain posted s (blobs ++ [bz]) acc' := by
  obtain ⟨strict, headerMarks, dataMarks, hretriever⟩ := hacc.retriever
  have hgenesis : acc.retriever.genesis = config.genesis := hretriever ▸ hr.genesis_eq
  have hcodec : acc.retriever.codec = config.codec := hretriever ▸ hr.codec_eq
  have hwire : acc.retriever.wire = w := hretriever ▸ hr.wire_eq
  obtain ⟨h, block, hblock, rfl | ⟨rfl, hfull⟩⟩ := hcall.only bz hbz
  · have hreadable := hchain h block hblock
    obtain ⟨r', hdecode⟩ := hreadable.decodeBlob_header hgenesis hwire
      (hcall.clock h block hblock hbz) call.daHeight acc.headers acc.data
    refine ⟨_, hdecode, finds_append hfound.headers fun header => ?_, finds_none hfound.data
      fun k b hb heq => hreadable.header_ne_data (hchain k b hb.1) hb.2 heq.symm⟩
    rw [mem_singleton]
    constructor
    · rintro rfl
      exact ⟨h, block, hblock, rfl, rfl⟩
    · rintro ⟨k, b, hb, heq, rfl⟩
      exact (hchain k b hb).header_injective hreadable heq
  · have hreadable := hchain h block hblock
    obtain ⟨r', hdecode⟩ := hreadable.decodeBlob_data hgenesis hcodec hwire hfull call.now
      call.daHeight acc.headers acc.data
    refine ⟨_, hdecode, finds_none hfound.headers fun k b hb =>
      (hchain k b hb).header_ne_data hreadable hfull, finds_append hfound.data fun data => ?_⟩
    rw [mem_singleton]
    constructor
    · rintro rfl
      exact ⟨h, block, ⟨hblock, hfull⟩, rfl, rfl⟩
    · rintro ⟨k, b, ⟨hb, hfull'⟩, heq, rfl⟩
      exact (hchain k b hb).data_injective hreadable hfull' hfull heq

theorem FindsChain.decodeBlobs (hr : r.OfChain config w s) {call : Call}
    (hcall : OfPosted posted s call) {more : List Blob} (hmore : more ⊆ call.blobs) :
    ∀ {blobs : List Blob} {acc : Decoded}, FindsChain posted s blobs acc → r.Decodes blobs acc →
      ∃ acc', decodeBlobs call.now call.daHeight acc more = .ok acc' ∧
        FindsChain posted s (blobs ++ more) acc' := by
  induction more with
  | nil =>
    intro blobs acc hfound _
    exact ⟨acc, rfl, by rwa [append_nil]⟩
  | cons bz more ih =>
    intro blobs acc hfound hacc
    obtain ⟨acc₁, hone, hfound₁⟩ := hfound.decodeBlob hchain hr hacc hcall
      (hmore mem_cons_self)
    obtain ⟨acc₂, hrest, hfound₂⟩ := ih (fun b hb => hmore (mem_cons_of_mem _ hb)) hfound₁
      (hacc.decodeBlob hone)
    refine ⟨acc₂, ?_, ?_⟩
    · rw [DaRetriever.decodeBlobs, hone]
      exact hrest
    · rwa [append_assoc] at hfound₂

/-! ## One call, height by height -/

def HeaderHere (posted : PostedBlobs) (r : DaRetriever) (call : Call) (h : ℕ)
    (block : StoredBlock) : Prop :=
  (r.pendingHeaders.lookup h).isSome ∨ posted.header block ∈ call.blobs

def DataHere (posted : PostedBlobs) (r : DaRetriever) (call : Call) (h : ℕ)
    (block : StoredBlock) : Prop :=
  (r.pendingData.lookup h).isSome ∨ block.data.txs ≠ [] ∧ posted.data block ∈ call.blobs

/-- The block is there as far as there are blobs of it. -/
def Completes (posted : PostedBlobs) (r : DaRetriever) (call : Call) (h : ℕ)
    (block : StoredBlock) : Prop :=
  HeaderHere posted r call h block ∧ (block.data.txs = [] ∨ DataHere posted r call h block)

structure Advances (posted : PostedBlobs) (r : DaRetriever) (call : Call) (r' : DaRetriever)
    (events : List DAHeightEvent) (h : ℕ) (block : StoredBlock) : Prop where
  header_iff : (r'.pendingHeaders.lookup h).isSome ↔
    HeaderHere posted r call h block ∧ ¬ Completes posted r call h block
  data_iff : (r'.pendingData.lookup h).isSome ↔
    DataHere posted r call h block ∧ ¬ Completes posted r call h block
  complete : Completes posted r call h block →
    events.filter (·.header.header.height = h) =
      [⟨block.header, block.shownData, call.daHeight⟩]
  incomplete : ¬ Completes posted r call h block →
    events.filter (·.header.header.height = h) = []

section

variable {call : Call} {decoded : Decoded} (hr : r.OfChain config w s)
  (hfound : FindsChain posted s call.blobs decoded)
include hr hfound

theorem headerAt_chain {header : SignedHeader} (hat : r.headerAt decoded h = some header) :
    ∃ block, s.blocks h = some block ∧ block.header = header := by
  rcases headerAt_cases hat with hold | ⟨hnew, hheight⟩
  · exact hr.headers h header hold
  · obtain ⟨k, block, hblock, -, rfl⟩ := (hfound.headers header).mp hnew
    obtain rfl := (hchain k block hblock).height_eq.symm.trans hheight
    exact ⟨block, hblock, rfl⟩

theorem dataAt_chain {data : Data} (hat : r.dataAt decoded h = some data) :
    ∃ block, s.blocks h = some block ∧ block.data = data ∧ data.txs ≠ [] := by
  rcases dataAt_cases hat with hold | ⟨hnew, hheight⟩
  · exact hr.data h data hold
  · obtain ⟨k, block, ⟨hblock, hfull⟩, -, rfl⟩ := (hfound.data data).mp hnew
    obtain rfl := (hchain k block hblock).dataHeight_eq.symm.trans hheight
    exact ⟨block, hblock, rfl, hfull⟩

omit hr in
theorem isSome_headerAt (hblock : s.blocks h = some block) :
    (r.headerAt decoded h).isSome ↔ HeaderHere posted r call h block := by
  have hreadable := hchain h block hblock
  rw [headerAt, isSome_or, Bool.or_eq_true, List.find?_isSome]
  refine or_congr_right ⟨?_, fun hmem => ?_⟩
  · rintro ⟨header, hmem, hheight⟩
    obtain ⟨k, b, hb, hblob, rfl⟩ := (hfound.headers header).mp hmem
    obtain rfl := (hchain k b hb).height_eq.symm.trans (by simpa using hheight)
    rwa [some.inj (hblock.symm.trans hb)]
  · exact ⟨_, (hfound.headers _).mpr ⟨h, block, hblock, hmem, rfl⟩, by simp [hreadable.height_eq]⟩

omit hr in
theorem isSome_dataAt (hblock : s.blocks h = some block) :
    (r.dataAt decoded h).isSome ↔ DataHere posted r call h block := by
  have hreadable := hchain h block hblock
  rw [dataAt, isSome_or, Bool.or_eq_true, List.find?_isSome]
  refine or_congr_right ⟨?_, fun ⟨hfull, hmem⟩ => ?_⟩
  · rintro ⟨data, hmem, hheight⟩
    obtain ⟨k, b, ⟨hb, hfull⟩, hblob, rfl⟩ := (hfound.data data).mp hmem
    obtain rfl := (hchain k b hb).dataHeight_eq.symm.trans (by simpa using hheight)
    obtain rfl := some.inj (hblock.symm.trans hb)
    exact ⟨hfull, hblob⟩
  · exact ⟨_, (hfound.data _).mpr ⟨h, block, ⟨hblock, hfull⟩, hmem, rfl⟩,
      by simp [hreadable.dataHeight_eq]⟩

theorem Processed.advances {events : List DAHeightEvent}
    (hp : r.Processed call decoded r' events) (hblock : s.blocks h = some block) :
    Advances posted r call r' events h block := by
  have hreadable := hchain h block hblock
  have hheader : (r.headerAt decoded h).isSome ↔ _ := isSome_headerAt hchain hfound hblock
  have hdata : (r.dataAt decoded h).isSome ↔ _ := isSome_dataAt hchain hfound hblock
  have hevents := hp.events_at (fun k header hlookup => by
    obtain ⟨b, hb, rfl⟩ := hr.headers k header hlookup
    exact (hchain k b hb).height_eq) h
  have hheaders := hp.headers h
  have hpending := hp.data h
  rcases hat : r.headerAt decoded h with _ | header
  · -- no header, so that data waits if there is any
    rw [hat] at hheader hevents hheaders hpending
    have hnot : ¬ HeaderHere posted r call h block := by simpa using hheader
    refine ⟨?_, ?_, fun hc => absurd hc.1 hnot, fun _ => hevents⟩
    · simp [hheaders, hnot]
    · rw [hpending]
      simpa [Completes, hnot] using hdata
  obtain ⟨b, hb, rfl⟩ := headerAt_chain hchain hr hfound hat
  obtain rfl := some.inj (hblock.symm.trans hb)
  rw [hat] at hheader hevents hheaders hpending
  have hhere : HeaderHere posted r call h block := by simpa using hheader
  rcases hdat : r.dataAt decoded h with _ | data
  · rw [hdat] at hdata hevents hheaders
    have hnot : ¬ DataHere posted r call h block := by simpa using hdata
    by_cases hempty : block.data.txs = []
    · have hc : Completes posted r call h block := ⟨hhere, .inl hempty⟩
      have hexpected := hreadable.empty_iff.mpr hempty
      refine ⟨?_, ?_, fun _ => ?_, fun hn => absurd hc hn⟩
      · simp [hheaders, emit, hexpected, hc]
      · simp [hpending, hnot]
      · simpa [emit, hexpected, StoredBlock.shownData, hempty] using hevents
    · have hn : ¬ Completes posted r call h block := by
        rintro ⟨-, hnil | hd⟩
        · exact hempty hnil
        · exact hnot hd
      have hexpected : isEmptyDataExpected block.header = false := by
        rwa [← Bool.not_eq_true, hreadable.empty_iff]
      refine ⟨?_, ?_, fun hc => absurd hc hn, fun _ => ?_⟩
      · simp [hheaders, emit, hexpected, hhere, hn]
      · simp [hpending, hnot]
      · simpa [emit, hexpected] using hevents
  · obtain ⟨b, hb, rfl, hfull⟩ := dataAt_chain hchain hr hfound hdat
    obtain rfl := some.inj (hblock.symm.trans hb)
    rw [hdat] at hdata hevents hheaders
    have hc : Completes posted r call h block := ⟨hhere, .inr (by simpa using hdata)⟩
    refine ⟨?_, ?_, fun _ => ?_, fun hn => absurd hc hn⟩
    · simp [hheaders, emit, hc]
    · simp [hpending, hc]
    · simpa [emit, StoredBlock.shownData, hfull] using hevents

end

def ShowChain (s : Store) (events : List DAHeightEvent) : Prop :=
  ∀ ev ∈ events, ∃ h block, s.blocks h = some block ∧ ev.Shows block

def Emitted (events : List DAHeightEvent) (h : ℕ) : Prop :=
  ∃ ev ∈ events, ev.header.header.height = h

theorem processBlobsIn_chain (hr : r.OfChain config w s) {call : Call}
    (hcall : OfPosted posted s call) (order : MapOrder) :
    ∃ r' events, r.processBlobsIn order call = .ok (r', events) ∧ r'.OfChain config w s ∧
      ShowChain s events ∧
      ∀ h block, s.blocks h = some block → Advances posted r call r' events h block := by
  have hstart : FindsChain posted s [] ⟨r, [], []⟩ := ⟨by simp, by simp⟩
  obtain ⟨decoded, hdecoded, hfound⟩ := hstart.decodeBlobs hchain hr hcall
    (List.Subset.refl call.blobs) (Decodes.start r)
  obtain ⟨-, r', events, hprocess, hp⟩ := processBlobsIn_of_decoded hdecoded
  have hadvances : ∀ h block, s.blocks h = some block →
      Advances posted r call r' events h block :=
    fun h block hblock => hp.advances hchain hr hfound hblock
  refine ⟨r', events, hprocess, ⟨hp.genesis_eq.trans hr.genesis_eq, hp.codec_eq.trans hr.codec_eq,
    hp.wire_eq.trans hr.wire_eq, fun h header hlookup => ?_, fun h data hlookup => ?_⟩,
    fun ev hev => ?_, hadvances⟩
  · rw [hp.headers, filter_eq_some_iff] at hlookup
    exact headerAt_chain hchain hr hfound hlookup.1
  · rw [hp.data] at hlookup
    split_ifs at hlookup
    exact dataAt_chain hchain hr hfound hlookup
  · obtain ⟨h, header, hat, hemit⟩ := hp.mem_events.mp hev
    obtain ⟨block, hblock, rfl⟩ := headerAt_chain hchain hr hfound hat
    have hmem : ev ∈ events.filter (·.header.header.height = h) := by
      simp [hev, (emit_eq_some hemit).1, (hchain h block hblock).height_eq]
    by_cases hc : Completes posted r call h block
    · rw [(hadvances h block hblock).complete hc, mem_singleton] at hmem
      rw [hmem]
      exact ⟨h, block, hblock, rfl, rfl⟩
    · simp [(hadvances h block hblock).incomplete hc] at hmem

/-! ## Runs -/

omit hchain

/-- A sequence of calls, each with the order in which it finds the pending headers. -/
def runIn : DaRetriever → List (MapOrder × Call) → List DAHeightEvent × Except Panic DaRetriever
  | r, [] => ([], .ok r)
  | r, (order, call) :: steps =>
    match r.processBlobsIn order call with
    | .error panic => ([], .error panic)
    | .ok (r, events) => (events ++ (runIn r steps).1, (runIn r steps).2)

theorem run_eq_runIn (r : DaRetriever) (calls : List Call) :
    r.run calls = r.runIn (calls.map (MapOrder.asListed, ·)) := by
  induction calls generalizing r with
  | nil => rfl
  | cons call calls ih =>
    rw [run, map_cons, runIn, processBlobs_eq]
    rcases r.processBlobsIn .asListed call with panic | ⟨r', events⟩
    · rfl
    · simp only [ih]

theorem runIn_invariant {Inv : List Call → List DAHeightEvent → DaRetriever → Prop}
    {calls : List Call} (hstep : ∀ done call rest order events r, done ++ call :: rest = calls →
      Inv done events r → ∃ r' emitted, r.processBlobsIn order call = .ok (r', emitted) ∧
        Inv (done ++ [call]) (events ++ emitted) r') :
    ∀ {steps done events r}, done ++ steps.map Prod.snd = calls → Inv done events r →
      ∃ r', (r.runIn steps).2 = .ok r' ∧ Inv calls (events ++ (r.runIn steps).1) r' := by
  intro steps
  induction steps with
  | nil =>
    intro done events r hdone hinv
    rw [map_nil, append_nil] at hdone
    subst hdone
    exact ⟨r, rfl, by simpa [runIn] using hinv⟩
  | cons step steps ih =>
    intro done events r hdone hinv
    obtain ⟨r₁, emitted, hcall, hinv₁⟩ := hstep done step.2 _ step.1 events r hdone hinv
    obtain ⟨r₂, hrest, hinv₂⟩ := ih (by simpa using hdone) hinv₁
    rw [runIn, hcall]
    rw [append_assoc] at hinv₂
    exact ⟨r₂, hrest, hinv₂⟩

/-- What the retriever has read of a block was emitted or waits, and a header waits for data only.
-/
structure HasRead (config : ExecutorConfig) (w : Wire) (posted : PostedBlobs) (s : Store)
    (done : List Call) (events : List DAHeightEvent) (r : DaRetriever) : Prop where
  ofChain : r.OfChain config w s
  shown : ShowChain s events
  header : ∀ h block, s.blocks h = some block → posted.header block ∈ done.flatMap Call.blobs →
    Emitted events h ∨ (r.pendingHeaders.lookup h).isSome
  data : ∀ h block, s.blocks h = some block → block.data.txs ≠ [] →
    posted.data block ∈ done.flatMap Call.blobs →
    Emitted events h ∨ (r.pendingData.lookup h).isSome
  settled : ∀ h block, s.blocks h = some block → (r.pendingHeaders.lookup h).isSome →
    block.data.txs ≠ [] ∧ ¬ (r.pendingData.lookup h).isSome

include hchain

theorem HasRead.processBlobs {done : List Call} {events : List DAHeightEvent}
    (hr : HasRead config w posted s done events r) {call : Call}
    (hcall : OfPosted posted s call) (order : MapOrder) :
    ∃ r' emitted, r.processBlobsIn order call = .ok (r', emitted) ∧
      HasRead config w posted s (done ++ [call]) (events ++ emitted) r' := by
  obtain ⟨r', emitted, hprocess, hchain', hshown, hadvances⟩ :=
    processBlobsIn_chain hchain hr.ofChain hcall order
  have hold : ∀ {h}, Emitted events h → Emitted (events ++ emitted) h :=
    fun ⟨ev, hmem, hh⟩ => ⟨ev, mem_append_left _ hmem, hh⟩
  have hnew : ∀ {h block}, s.blocks h = some block → Completes posted r call h block →
      Emitted (events ++ emitted) h := by
    intro h block hblock hc
    have hmem : (⟨block.header, block.shownData, call.daHeight⟩ : DAHeightEvent) ∈
        emitted.filter (·.header.header.height = h) := by
      rw [(hadvances h block hblock).complete hc]
      exact mem_singleton_self _
    exact ⟨_, mem_append_right _ (mem_of_mem_filter hmem),
      (hchain h block hblock).height_eq⟩
  refine ⟨r', emitted, hprocess, hchain', fun ev hmem => ?_, fun h block hblock hmem => ?_,
    fun h block hblock hfull hmem => ?_, fun h block hblock hpending => ?_⟩
  · exact (mem_append.mp hmem).elim (hr.shown ev) (hshown ev)
  · by_cases hc : Completes posted r call h block
    · exact .inl (hnew hblock hc)
    rw [(hadvances h block hblock).header_iff]
    simp only [flatMap_append, flatMap_singleton] at hmem
    rcases mem_append.mp hmem with hread | hhere
    · exact (hr.header h block hblock hread).imp hold fun hp => ⟨.inl hp, hc⟩
    · exact .inr ⟨.inr hhere, hc⟩
  · by_cases hc : Completes posted r call h block
    · exact .inl (hnew hblock hc)
    rw [(hadvances h block hblock).data_iff]
    simp only [flatMap_append, flatMap_singleton] at hmem
    rcases mem_append.mp hmem with hread | hhere
    · exact (hr.data h block hblock hfull hread).imp hold fun hp => ⟨.inl hp, hc⟩
    · exact .inr ⟨.inr ⟨hfull, hhere⟩, hc⟩
  · obtain ⟨hhere, hc⟩ := (hadvances h block hblock).header_iff.mp hpending
    refine ⟨fun hempty => hc ⟨hhere, .inl hempty⟩, fun hdata => hc ⟨hhere, .inr ?_⟩⟩
    exact ((hadvances h block hblock).data_iff.mp hdata).1

theorem run_postedChain {calls : List Call} (hposted : PostedChain posted s calls) :
    (∃ r', ((new config.genesis config.codec w).run calls).2 = .ok r') ∧
      ShowChain s ((new config.genesis config.codec w).run calls).1 ∧
      ∀ h block, s.blocks h = some block →
        Emitted ((new config.genesis config.codec w).run calls).1 h := by
  have hfresh : HasRead config w posted s [] [] (new config.genesis config.codec w) :=
    ⟨new_ofChain, fun ev hmem => absurd hmem not_mem_nil, by simp, by simp, by simp [new]⟩
  have hcall : ∀ {done call rest}, done ++ call :: rest = calls → OfPosted posted s call := by
    intro done call rest hcalls
    have hmem : call ∈ calls := hcalls ▸ by simp
    exact ⟨hposted.only call hmem, hposted.clock call hmem⟩
  have hcalls : [] ++ (calls.map (MapOrder.asListed, ·)).map Prod.snd = calls := by
    simp [Function.comp_def]
  obtain ⟨r', hrun, hread⟩ := runIn_invariant (fun done call rest order events r hsplit hr =>
    hr.processBlobs hchain (hcall hsplit) order) hcalls hfresh
  rw [run_eq_runIn]
  refine ⟨⟨r', hrun⟩, hread.shown, fun h block hblock => ?_⟩
  rcases hread.header h block hblock (mem_flatMap.mpr (hposted.header h block hblock)) with
    hemitted | hpending
  · exact hemitted
  -- a header that still waits has transactions to come, and their data is not there
  obtain ⟨hfull, hnone⟩ := hread.settled h block hblock hpending
  exact (hread.data h block hblock hfull (mem_flatMap.mpr
    (hposted.data h block hblock hfull))).resolve_right hnone

end

end DaRetriever

end ChainSdk

/-
Blocks put together from their blobs, whatever the order.

The blobs of finitely many blocks of the producer are permuted, cut into calls and read at any DA
heights, and each call goes through the pending headers in an order of its own. Every blob is read
once.
-/
import ChainSdk.BlobKinds

namespace ChainSdk

open DaRetriever List

namespace DaRetriever

/-! ## Every blob once -/

section

variable {config : ExecutorConfig} {w : Wire} {key : PubKey} {posted : PostedBlobs} {s : Store}
  {r r' : DaRetriever} {h : ℕ} {block : StoredBlock}

def AllRead (posted : PostedBlobs) (done : List Call) (block : StoredBlock) : Prop :=
  posted.blobs block ⊆ done.flatMap Call.blobs

theorem allRead_iff {done : List Call} : AllRead posted done block ↔
    posted.header block ∈ done.flatMap Call.blobs ∧
      (block.data.txs = [] ∨ posted.data block ∈ done.flatMap Call.blobs) := by
  unfold AllRead PostedBlobs.blobs
  split_ifs with hempty <;> simp [hempty]

def CompletedBy (posted : PostedBlobs) (done : List Call) (block : StoredBlock) (daHeight : ℕ) :
    Prop :=
  ∃ pre call post, done = pre ++ call :: post ∧ call.daHeight = daHeight ∧
    ¬ AllRead posted pre block ∧ AllRead posted (pre ++ [call]) block

/-- After these calls a block of which everything was read has left in one event, and what was read
of another waits. -/
structure Assembles (config : ExecutorConfig) (w : Wire) (posted : PostedBlobs) (s : Store)
    (done : List Call) (events : List DAHeightEvent) (r : DaRetriever) : Prop where
  ofChain : r.OfChain config w s
  shown : ShowChain s events
  header_iff : ∀ h block, s.blocks h = some block → ((r.pendingHeaders.lookup h).isSome ↔
    posted.header block ∈ done.flatMap Call.blobs ∧ ¬ AllRead posted done block)
  data_iff : ∀ h block, s.blocks h = some block → ((r.pendingData.lookup h).isSome ↔
    (block.data.txs ≠ [] ∧ posted.data block ∈ done.flatMap Call.blobs) ∧
      ¬ AllRead posted done block)
  complete : ∀ h block, s.blocks h = some block → AllRead posted done block →
    ∃ daHeight, CompletedBy posted done block daHeight ∧
      events.filter (·.header.header.height = h) = [⟨block.header, block.shownData, daHeight⟩]
  incomplete : ∀ h block, s.blocks h = some block → ¬ AllRead posted done block →
    events.filter (·.header.header.height = h) = []

section

variable (hchain : ∀ h block, s.blocks h = some block → Readable config w key posted h block)
include hchain

theorem Assembles.processBlobs {done : List Call} {events : List DAHeightEvent}
    (hr : Assembles config w posted s done events r) {call : Call} (hcall : OfPosted posted s call)
    (hfresh : ∀ bz ∈ call.blobs, bz ∉ done.flatMap Call.blobs) (order : MapOrder) :
    ∃ r' emitted, r.processBlobsIn order call = .ok (r', emitted) ∧
      Assembles config w posted s (done ++ [call]) (events ++ emitted) r' := by
  obtain ⟨r', emitted, hprocess, hchain', hshown, hadvances⟩ :=
    processBlobsIn_chain hchain hr.ofChain hcall order
  have hread : ∀ bz, bz ∈ (done ++ [call]).flatMap Call.blobs ↔
      bz ∈ done.flatMap Call.blobs ∨ bz ∈ call.blobs := by
    simp
  -- a block that has left has no blob in this call, and nothing of it waits
  have hgone : ∀ h block, s.blocks h = some block → AllRead posted done block →
      AllRead posted (done ++ [call]) block ∧ ¬ HeaderHere posted r call h block ∧
        ¬ DataHere posted r call h block := by
    intro h block hblock hall
    obtain ⟨hheader, hdata⟩ := allRead_iff.mp hall
    refine ⟨fun bz hbz => (hread bz).mpr (.inl (hall hbz)), ?_, ?_⟩
    · rintro (hpending | hmem)
      · exact ((hr.header_iff h block hblock).mp hpending).2 hall
      · exact hfresh _ hmem hheader
    · rintro (hpending | ⟨hfull, hmem⟩)
      · exact ((hr.data_iff h block hblock).mp hpending).2 hall
      · exact hfresh _ hmem (hdata.resolve_left hfull)
  -- of any other block what is here is what was read
  have hhere : ∀ h block, s.blocks h = some block → ¬ AllRead posted done block →
      (HeaderHere posted r call h block ↔
        posted.header block ∈ (done ++ [call]).flatMap Call.blobs) ∧
      (DataHere posted r call h block ↔ block.data.txs ≠ [] ∧
        posted.data block ∈ (done ++ [call]).flatMap Call.blobs) ∧
      (Completes posted r call h block ↔ AllRead posted (done ++ [call]) block) := by
    intro h block hblock hnot
    have hheader : HeaderHere posted r call h block ↔ _ :=
      or_congr_left ((hr.header_iff h block hblock).trans (and_iff_left hnot))
    have hdata : DataHere posted r call h block ↔ _ :=
      or_congr_left ((hr.data_iff h block hblock).trans (and_iff_left hnot))
    rw [← hread] at hheader
    rw [← and_or_left, ← hread] at hdata
    refine ⟨hheader, hdata, ?_⟩
    rw [allRead_iff, Completes, hheader, hdata]
    tauto
  refine ⟨r', emitted, hprocess, hchain', fun ev hmem => ?_, fun h block hblock => ?_,
    fun h block hblock => ?_, fun h block hblock hall' => ?_, fun h block hblock hnot' => ?_⟩
  · exact (mem_append.mp hmem).elim (hr.shown ev) (hshown ev)
  · rw [(hadvances h block hblock).header_iff]
    by_cases hall : AllRead posted done block
    · obtain ⟨hall', hheader, -⟩ := hgone h block hblock hall
      tauto
    · obtain ⟨hheader, -, hcompletes⟩ := hhere h block hblock hall
      rw [hheader, hcompletes]
  · rw [(hadvances h block hblock).data_iff]
    by_cases hall : AllRead posted done block
    · obtain ⟨hall', -, hdata⟩ := hgone h block hblock hall
      tauto
    · obtain ⟨-, hdata, hcompletes⟩ := hhere h block hblock hall
      rw [hdata, hcompletes]
  · rw [filter_append]
    by_cases hall : AllRead posted done block
    · obtain ⟨daHeight, ⟨pre, call', post, rfl, hrest⟩, hevents⟩ :=
        hr.complete h block hblock hall
      refine ⟨daHeight, ⟨pre, call', post ++ [call], by simp, hrest⟩, ?_⟩
      rw [hevents, (hadvances h block hblock).incomplete fun hc => (hgone h block hblock hall).2.1
        hc.1, append_nil]
    · refine ⟨call.daHeight, ⟨done, call, [], rfl, rfl, hall, hall'⟩, ?_⟩
      rw [hr.incomplete h block hblock hall, nil_append,
        (hadvances h block hblock).complete ((hhere h block hblock hall).2.2.mpr hall')]
  · have hall : ¬ AllRead posted done block := fun hall => hnot' (hgone h block hblock hall).1
    rw [filter_append, hr.incomplete h block hblock hall, nil_append,
      (hadvances h block hblock).incomplete fun hc =>
        hnot' ((hhere h block hblock hall).2.2.mp hc)]


end

end

/-! ## Finitely many blocks -/

def storeOf (blocks : List StoredBlock) : Store :=
  { Store.empty with blocks := fun h => blocks.find? (·.header.header.height = h) }

section

variable {config : ExecutorConfig} {w : Wire} {key : PubKey} {posted : PostedBlobs}
  {blocks : List StoredBlock} (hheights : (blocks.map (·.header.header.height)).Nodup)

include hheights in
theorem storeOf_blocks_iff {h : ℕ} {block : StoredBlock} :
    (storeOf blocks).blocks h = some block ↔ block ∈ blocks ∧ block.header.header.height = h := by
  constructor
  · intro hfind
    exact ⟨mem_of_find?_eq_some hfind, by simpa using List.find?_some hfind⟩
  · rintro ⟨hmem, rfl⟩
    obtain ⟨b, hb⟩ : ∃ b, (storeOf blocks).blocks block.header.header.height = some b :=
      Option.isSome_iff_exists.mp (List.find?_isSome.mpr ⟨block, hmem, by simp⟩)
    have hheight : b.header.header.height = block.header.header.height := by
      simpa using List.find?_some hb
    rw [hb, inj_on_of_nodup_map hheights (mem_of_find?_eq_some hb) hmem hheight]

variable (hreadable : ∀ block ∈ blocks,
  Readable config w key posted block.header.header.height block)
include hheights hreadable

theorem nodup_blobs : (blocks.flatMap posted.blobs).Nodup := by
  refine nodup_flatMap.mpr ⟨fun block hmem => ?_, ?_⟩
  · unfold PostedBlobs.blobs
    split_ifs with hempty
    · exact nodup_singleton _
    · simpa using (hreadable block hmem).header_ne_data (hreadable block hmem) hempty
  refine (pairwise_map.mp hheights).imp_of_mem fun {a b} ha hb hne bz hbz hbz' => hne ?_
  rcases PostedBlobs.mem_blobs.mp hbz with rfl | ⟨hfull, rfl⟩ <;>
    rcases PostedBlobs.mem_blobs.mp hbz' with heq | ⟨hfull', heq⟩
  · rw [(hreadable a ha).header_injective (hreadable b hb) heq]
  · exact absurd heq ((hreadable a ha).header_ne_data (hreadable b hb) hfull')
  · exact absurd heq.symm ((hreadable b hb).header_ne_data (hreadable a ha) hfull)
  · have hdata := (hreadable a ha).data_injective (hreadable b hb) hfull hfull' heq
    rw [← (hreadable a ha).dataHeight_eq, hdata, (hreadable b hb).dataHeight_eq]

theorem runIn_blocks {r : DaRetriever} (hgenesis : r.genesis = config.genesis)
    (hcodec : r.codec = config.codec) (hwire : r.wire = w) (hheaders : r.pendingHeaders = ∅)
    (hdata : r.pendingData = ∅) {steps : List (MapOrder × Call)}
    (hblobs : ((steps.map Prod.snd).flatMap Call.blobs).Perm (blocks.flatMap posted.blobs))
    (hclock : ∀ call ∈ steps.map Prod.snd, ∀ block ∈ blocks, posted.header block ∈ call.blobs →
      timeOfUint64 block.header.header.time ≤ call.now + maxClockDrift) :
    ∃ r', (r.runIn steps).2 = .ok r' ∧
      Assembles config w posted (storeOf blocks) (steps.map Prod.snd) (r.runIn steps).1 r' := by
  have hchain : ∀ h block, (storeOf blocks).blocks h = some block →
      Readable config w key posted h block := by
    intro h block hblock
    obtain ⟨hmem, rfl⟩ := (storeOf_blocks_iff hheights).mp hblock
    exact hreadable block hmem
  have hnodup := hblobs.nodup_iff.mpr (nodup_blobs hheights hreadable)
  have hnone : ∀ block, ¬ AllRead posted [] block := by simp [allRead_iff]
  have hstart : Assembles config w posted (storeOf blocks) [] [] r := by
    refine ⟨⟨hgenesis, hcodec, hwire, ?_, ?_⟩, ?_, ?_, ?_, fun h block _ hall => ?_, ?_⟩
    · simp [hheaders]
    · simp [hdata]
    · simp [ShowChain]
    · simp [hheaders]
    · simp [hdata]
    · exact absurd hall (hnone block)
    · simp
  refine runIn_invariant (fun done call rest order events r hsplit hr => ?_) (nil_append _)
    hstart
  have hmem : call ∈ steps.map Prod.snd := hsplit ▸ by simp
  refine hr.processBlobs hchain ⟨fun bz hbz => ?_, fun h block hblock => ?_⟩ (fun bz hbz hold => ?_)
    order
  · obtain ⟨block, hblock, hof⟩ := mem_flatMap.mp
      (hblobs.subset (mem_flatMap.mpr ⟨call, hmem, hbz⟩))
    refine ⟨_, block, (storeOf_blocks_iff hheights).mpr ⟨hblock, rfl⟩, ?_⟩
    exact (PostedBlobs.mem_blobs.mp hof).imp id And.symm
  · exact hclock call hmem block ((storeOf_blocks_iff hheights).mp hblock).1
  · rw [← hsplit, flatMap_append, nodup_append'] at hnodup
    exact hnodup.2.2 hold (by simp [hbz])

end

end DaRetriever

/-! ## Blocks of the producer -/

/-- A block that a producer has built and signed, with the blobs the submitter makes of it. -/
structure Posts (w : Wire) (marshalPublicKey : PubKey → Except String Bytes)
    (config : ExecutorConfig) (key : PubKey) (posted : PostedBlobs) (block : StoredBlock) :
    Prop where
  created : ∃ (e : Executor) (height : ℕ) (batchData : BatchData) (inp : ProduceInput)
    (unsigned : SignedHeader), e.config = config ∧
      e.createBlock height batchData inp = .ok (unsigned, block.data) ∧
      block.header = { unsigned with signature := block.header.signature }
  pubKey_eq : block.header.signer.pubKey = some key
  time_ne_zero : block.header.header.time ≠ 0
  header_inRange : block.header.header.InRange
  data_inRange : block.data.InRange
  header : ∃ cache signature, block.header.signer.Caches marshalPublicKey cache ∧ signature ≠ [] ∧
    w.verify key ((w.signing marshalPublicKey).signedHeaderBytes block.header) signature =
      .ok true ∧
    block.header.marshalDAEnvelope marshalPublicKey cache signature = .ok (posted.header block)
  data : block.data.txs ≠ [] → ∃ signer signed, signer.Genuine w ∧ signer.getPublic = .ok key ∧
    DaSubmitter.signData marshalPublicKey (some signer) config.genesis
      [(block.data, block.data.marshalBinary)] = .ok [(signed, posted.data block)]
  fits : ∀ bz ∈ posted.blobs block, bz.length < 2 ^ 63

section

variable {w : Wire} {marshalPublicKey : PubKey → Except String Bytes}
  (hkeys : KeysRoundTrip w marshalPublicKey) {sha256 : Bytes → Hash} {config : ExecutorConfig}
  (hcodec : config.codec = wireCodec sha256) (hproposer : config.genesis.proposerAddress ≠ [])
  (hcommitment : ∀ txs, config.codec.daCommitment txs ≠ [] ∧
    (config.codec.daCommitment txs = dataHashForEmptyTxs → txs = []))
  {key : PubKey} {posted : PostedBlobs}
include hkeys hcodec hproposer hcommitment

theorem Posts.readable {block : StoredBlock}
    (hblock : Posts w marshalPublicKey config key posted block) :
    DaRetriever.Readable config (w.signing marshalPublicKey) key posted
      block.header.header.height block := by
  obtain ⟨e, height, batchData, inp, unsigned, rfl, hcreate, hheader⟩ := hblock.created
  obtain ⟨time, last, pubKey, validatorHash, -, -, -, rfl, hdata⟩ := Executor.createBlock_ok hcreate
  obtain ⟨cache, signature, hcache, hne, hverify, hbz⟩ := hblock.header
  have hfits : (posted.header block).length < 2 ^ 63 :=
    hblock.fits _ (PostedBlobs.mem_blobs.mpr (.inl rfl))
  have hslim : block.header.header.legacy = none := by rw [hheader]
  have haddress : block.header.header.proposerAddress = e.config.genesis.proposerAddress := by
    rw [hheader]
  have hdecode := SignedHeader.decodes_envelope hkeys hcache hblock.header_inRange hfits hslim
    hblock.pubKey_eq hbz
  refine ⟨⟨fun hnil => ?_, ⟨signature, hdecode, length_pos_iff.mpr hne, hverify⟩,
    fun hfull => ?_⟩, rfl, hblock.pubKey_eq, haddress, fun now hclock => ?_, ?_, ?_⟩
  · rw [hnil] at hdecode
    have hnone : SignedHeader.unmarshalDAEnvelope (w.signing marshalPublicKey) [] = none := rfl
    exact absurd (hnone.symm.trans hdecode) (by simp)
  · obtain ⟨signer, signed, hgenuine, hpublic, hsigned⟩ := hblock.data hfull
    obtain ⟨u, key', hu, hkey, -, -, hround⟩ := DaSubmitter.signData_dataRoundTrips hkeys sha256
      hproposer hgenuine (by simpa using hblock.data_inRange) hsigned (mem_singleton_self _)
      (hblock.fits _ (PostedBlobs.mem_blobs.mpr (.inr ⟨hfull, rfl⟩)))
    obtain rfl := mem_singleton.mp hu
    obtain rfl := Except.ok.inj (hpublic.symm.trans hkey)
    rwa [hcodec]
  · have hlength : block.header.header.proposerAddress.length ≠ 0 := by simpa [haddress]
    unfold Header.validateBasic
    rw [if_neg hlength, if_neg hblock.time_ne_zero, if_neg (not_lt.mpr hclock)]
  · exact ⟨_, by rw [hdata], by rw [hheader]⟩
  · have hhash : block.header.header.dataHash = if block.data.txs = [] then dataHashForEmptyTxs
        else e.config.codec.daCommitment block.data.txs := by
      rw [hheader, hdata]
      simp
    unfold isEmptyDataExpected
    rw [hhash]
    split_ifs with hempty
    · simp [hempty]
    · simpa [hempty, (hcommitment _).1] using fun heq => hempty ((hcommitment _).2 heq)

/-- Blobs of finitely many blocks, in any order and in any calls, give one event of each block: in
the call with the last of its blobs, and with the block's data or what stands for empty data.
Nothing stays pending. -/
theorem blob_assembly_confluent (blocks : List StoredBlock)
    (hposts : ∀ block ∈ blocks, Posts w marshalPublicKey config key posted block)
    (hheights : (blocks.map (·.header.header.height)).Nodup) (r : DaRetriever)
    (hgenesis : r.genesis = config.genesis) (hrcodec : r.codec = config.codec)
    (hwire : r.wire = w.signing marshalPublicKey) (hheaders : r.pendingHeaders = ∅)
    (hdata : r.pendingData = ∅) (steps : List (DaRetriever.MapOrder × DaRetriever.Call))
    (hblobs : ((steps.map Prod.snd).flatMap DaRetriever.Call.blobs).Perm
      (blocks.flatMap posted.blobs))
    (hclock : ∀ call ∈ steps.map Prod.snd, ∀ block ∈ blocks, posted.header block ∈ call.blobs →
      timeOfUint64 block.header.header.time ≤ call.now + maxClockDrift) :
    ∃ r', (r.runIn steps).2 = .ok r' ∧ r'.pendingHeaders = ∅ ∧ r'.pendingData = ∅ ∧
      ((r.runIn steps).1.map (fun ev => (ev.header, ev.data))).Perm
        (blocks.map (fun block => (block.header, block.shownData))) ∧
      ∀ ev ∈ (r.runIn steps).1, ∃ block ∈ blocks, ev.header = block.header ∧
        CompletedBy posted (steps.map Prod.snd) block ev.daHeight := by
  have hreadable := fun block hblock =>
    (hposts block hblock).readable hkeys hcodec hproposer hcommitment
  obtain ⟨r', hrun, hr'⟩ := runIn_blocks hheights hreadable hgenesis hrcodec hwire
    hheaders hdata hblobs hclock
  have hstored : ∀ {h block}, (DaRetriever.storeOf blocks).blocks h = some block ↔ _ :=
    storeOf_blocks_iff hheights
  have hall : ∀ block ∈ blocks, DaRetriever.AllRead posted (steps.map Prod.snd) block :=
    fun block hblock bz hbz => hblobs.symm.subset (mem_flatMap.mpr ⟨block, hblock, hbz⟩)
  have hevent : ∀ block ∈ blocks, ∃ daHeight,
      CompletedBy posted (steps.map Prod.snd) block daHeight ∧
      (r.runIn steps).1.filter (·.header.header.height = block.header.header.height) =
        [⟨block.header, block.shownData, daHeight⟩] :=
    fun block hblock => hr'.complete _ block (hstored.mpr ⟨hblock, rfl⟩) (hall block hblock)
  have hshown : ∀ ev ∈ (r.runIn steps).1, ∃ block ∈ blocks, ev.header = block.header ∧
      ev.data = block.shownData := by
    intro ev hev
    obtain ⟨h, block, hblock, hheader, hdata⟩ := hr'.shown ev hev
    exact ⟨block, (hstored.mp hblock).1, hheader, hdata⟩
  refine ⟨r', hrun, eq_empty_of_lookup fun h => ?_, eq_empty_of_lookup fun h => ?_, ?_,
    fun ev hev => ?_⟩
  · rcases hlookup : r'.pendingHeaders.lookup h with _ | header
    · rfl
    obtain ⟨block, hblock, -⟩ := hr'.ofChain.headers h header hlookup
    have hpending := (hr'.header_iff h block hblock).mp (by simp [hlookup])
    exact absurd (hall block (hstored.mp hblock).1) hpending.2
  · rcases hlookup : r'.pendingData.lookup h with _ | data
    · rfl
    obtain ⟨block, hblock, -⟩ := hr'.ofChain.data h data hlookup
    have hpending := (hr'.data_iff h block hblock).mp (by simp [hlookup])
    exact absurd (hall block (hstored.mp hblock).1) hpending.2
  · -- the heights are those of the blocks, and a height gives the pair
    have hperm : ((r.runIn steps).1.map (·.header.header.height)).Perm
        (blocks.map (·.header.header.height)) := by
      refine perm_iff_count.mpr fun h => ?_
      by_cases hmem : h ∈ blocks.map (·.header.header.height)
      · rw [count_eq_one_of_mem hheights hmem]
        obtain ⟨block, hblock, rfl⟩ := mem_map.mp hmem
        obtain ⟨daHeight, -, hfilter⟩ := hevent block hblock
        rw [List.count, countP_map, countP_eq_length_filter]
        exact congrArg List.length hfilter
      · rw [count_eq_zero_of_not_mem hmem, count_eq_zero]
        intro hin
        obtain ⟨ev, hev, rfl⟩ := mem_map.mp hin
        obtain ⟨block, hblock, hheader, -⟩ := hshown ev hev
        exact hmem (mem_map.mpr ⟨block, hblock, by rw [hheader]⟩)
    have hpairs := hperm.filterMap fun h =>
      ((DaRetriever.storeOf blocks).blocks h).map fun block => (block.header, block.shownData)
    rw [filterMap_map, filterMap_map] at hpairs
    rw [← filterMap_eq_map, ← filterMap_eq_map]
    convert hpairs using 1 <;> refine filterMap_congr fun x hx => ?_
    · obtain ⟨block, hblock, hheader, hdata⟩ := hshown x hx
      simp [hstored.mpr ⟨hblock, rfl⟩, hheader, hdata]
    · simp [hstored.mpr ⟨hx, rfl⟩]
  · obtain ⟨block, hblock, hheader, -⟩ := hshown ev hev
    obtain ⟨daHeight, hcompleted, hfilter⟩ := hevent block hblock
    have hmem : ev ∈ (r.runIn steps).1.filter
        (·.header.header.height = block.header.header.height) := by
      simp [hev, hheader]
    rw [hfilter, mem_singleton] at hmem
    exact ⟨block, hblock, hheader, hmem ▸ hcompleted⟩

end

/-! ## The first block of a given time -/

def timedBlock (time : ℕ) : StoredBlock :=
  let signature := (timedHeader time []).header.marshalBinary
  ⟨timedHeader time signature, timedData time, signature⟩

def timedPosted : PostedBlobs where
  header := fun block => (block.header.marshalDAEnvelope unaryKey []
    ((echoWire.signing unaryKey).signedHeaderBytes block.header)).toOption.getD []
  data := fun block => (SignedData.marshalBinary unaryKey
    ⟨some block.data, block.data.marshalBinary, ⟨some ⟨1, [7]⟩, [7]⟩⟩).toOption.getD []

theorem timedBlock_posts {time : ℕ} (hne : time ≠ 0) (hlt : time < 2 ^ 64)
    (hcreate : (timedExecutor time).createBlock 1 firstBatch (DaSubmitter.produceFirst [5]) =
      .ok (timedHeader time [], timedData time))
    (hfits : ∀ bz ∈ timedPosted.blobs (timedBlock time), bz.length < 2 ^ 63) :
    Posts echoWire unaryKey (timedExecutor time).config ⟨1, [7]⟩ timedPosted
      (timedBlock time) where
  created := ⟨_, 1, firstBatch, DaSubmitter.produceFirst [5], _, rfl, hcreate, rfl⟩
  pubKey_eq := rfl
  time_ne_zero := hne
  header_inRange := timedHeader_inRange hlt _
  data_inRange := by simpa [timedBlock, timedData, Data.InRange, Metadata.InRange] using hlt
  header := ⟨[], _, .inl rfl, cons_ne_nil _ _, congrArg Except.ok (decide_eq_true rfl), rfl⟩
  data := fun _ => ⟨echoSigner, _, echoSigner_genuine, rfl, rfl⟩
  fits := hfits

theorem blob_assembly_of_first_block :
    let steps : List (DaRetriever.MapOrder × DaRetriever.Call) :=
      [(.asListed, ⟨[timedPosted.data (timedBlock 1)], 5, 0⟩),
        (.asListed, ⟨[timedPosted.header (timedBlock 1)], 6, 0⟩)]
    ∃ r', ((timedRetriever 1).runIn steps).2 = .ok r' ∧ r'.pendingHeaders = ∅ ∧
      r'.pendingData = ∅ ∧
      (((timedRetriever 1).runIn steps).1.map (fun ev => (ev.header, ev.data))).Perm
        [((timedBlock 1).header, timedData 1)] ∧
      ∀ ev ∈ ((timedRetriever 1).runIn steps).1, ∃ block ∈ [timedBlock 1],
        ev.header = block.header ∧
          CompletedBy timedPosted (steps.map Prod.snd) block ev.daHeight := by
  have hcodec : (timedExecutor 1).config.codec = wireCodec id := rfl
  have hposts : ∀ block ∈ [timedBlock 1],
      Posts echoWire unaryKey (timedExecutor 1).config ⟨1, [7]⟩ timedPosted block := by
    intro block hblock
    obtain rfl := mem_singleton.mp hblock
    exact timedBlock_posts (by decide) (by decide) rfl (by decide +kernel)
  refine blob_assembly_confluent (w := echoWire) unaryKeys_roundTrip hcodec (by decide) ?_
    [timedBlock 1] hposts (by decide) _ rfl rfl rfl rfl rfl _ ?_ ?_
  · exact fun txs => ⟨cons_ne_nil _ _, fun heq => absurd (cons.inj heq).1 (by decide)⟩
  · exact List.Perm.swap _ _ []
  · simp [timedBlock, timedHeader, timeOfUint64, maxClockDrift]

/-- Read at time 0, a block of a time 61 seconds later is lost. -/
theorem block_lost_ahead_of_clock :
    Posts echoWire unaryKey (timedExecutor 61000000000).config ⟨1, [7]⟩ timedPosted
        (timedBlock 61000000000) ∧
      ((timedRetriever 61000000000).runIn
        [(.asListed, ⟨timedPosted.blobs (timedBlock 61000000000), 5, 0⟩)]).1 = [] :=
  ⟨timedBlock_posts (by decide) (by decide) rfl (by decide +kernel),
    length_eq_zero_iff.mp (by decide +kernel)⟩

end ChainSdk

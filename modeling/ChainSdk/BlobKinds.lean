/-
Blobs of headers and of data in one DA namespace: neither is taken for the other.

The messages of signed headers, envelopes and signed data have the same numbers for different
things, so that each parses as the others.
-/
import ChainSdk.PostedChain
import ChainSdk.SignedEncoding

namespace ChainSdk

open DaRetriever DaSubmitter Except LegacyHeaderFields List Option SignedHeader

open ProtoWire

/-- The wire with the messages read as protobuf has them, and headers encoded by `MarshalBinary`
for the signature of an envelope. -/
def Wire.signing (w : Wire) (marshalPublicKey : PubKey → Except String Bytes) : Wire :=
  { w.proto with
    signedHeaderBytes := fun sh => (sh.marshalBinary marshalPublicKey []).toOption.getD [] }

/-! ## Messages read by the type of another -/

theorem submessageAt_encoded {M : Type} {number : ℕ} {ofFields : List Field → Option M}
    {fs inner : List Field} (hfits : Fits fs)
    (hselect : select number 2 fs = messageField number (some (encode inner)))
    (hwhole : WholeIfFits inner) : submessageAt number ofFields fs = (ofFields inner).map some := by
  have hmessage : messageAt number fs = some (some inner) :=
    messageAt_of_select hfits hselect (fun m hm => some.inj hm ▸ hwhole)
  rw [submessageAt, hmessage]
  cases hinner : ofFields inner <;> simp [hinner]

theorem SignedHeader.fromProto_proposer {w : Wire} {other : SignedHeaderPb} {sh : SignedHeader}
    (h : fromProto w other = some sh) :
    ∃ headerPb, other.header = some headerPb ∧
      sh.header.proposerAddress = headerPb.proposerAddress := by
  unfold fromProto at h
  rcases hheader : other.header with _ | headerPb
  · simp [hheader] at h
  refine ⟨headerPb, rfl, ?_⟩
  simp only [hheader, bind_eq_bind, bind_some, bind_eq_some_iff] at h
  obtain ⟨header, hfrom, signer, -, hsh⟩ := h
  rw [← some.inj hsh]
  unfold Header.fromProto at hfrom
  split at hfrom
  · simp at hfrom
  · rw [← some.inj hfrom]

section

variable {w : Wire} {data : Data} (hrange : data.InRange) {signature : Signature} {pb : SignerPb}
  {bz : Bytes} (hbz : bz = encode (SignedDataPb.fields ⟨some data, signature, some pb⟩))
  (hfits : bz.length < 2 ^ 63)
include hrange hbz hfits

theorem SignedDataPb.parse_fields :
    parse bz = some (SignedDataPb.fields ⟨some data, signature, some pb⟩) := by
  rw [hbz] at hfits ⊢
  exact parse_encode (SignedDataPb.readBack hrange signature pb hfits).1

theorem SignedDataPb.asHeader_nameless {sh : SignedHeaderPb}
    (hsh : SignedHeaderPb.ofFields (fields ⟨some data, signature, some pb⟩) = some sh)
    {headerPb : HeaderPb} (hheader : sh.header = some headerPb) :
    headerPb.proposerAddress = [] := by
  rw [hbz] at hfits
  have hdata : WholeIfFits data.fields := fun hf => (Data.readBack hrange hf).1
  have hsub : submessageAt 1 HeaderPb.ofFields (fields ⟨some data, signature, some pb⟩) =
      (HeaderPb.ofFields data.fields).map some :=
    submessageAt_encoded hfits (by simp [fields]) hdata
  unfold SignedHeaderPb.ofFields at hsh
  rw [hsub, bind_eq_some_iff] at hsh
  obtain ⟨header, hsome, hsh⟩ := hsh
  obtain ⟨headerPb', hread, rfl⟩ := map_eq_some_iff.mp hsome
  obtain ⟨signer, -, rfl⟩ := map_eq_some_iff.mp hsh
  obtain rfl := some.inj hheader
  unfold HeaderPb.ofFields at hread
  obtain ⟨version, -, hread⟩ := bind_eq_some_iff.mp hread
  obtain ⟨chainId, -, rfl⟩ := map_eq_some_iff.mp hread
  simp [bytesAt, Data.fields]

theorem SignedDataPb.decodesTo_nameless {header : SignedHeader} (h : DecodesTo w.proto bz header) :
    header.header.proposerAddress = [] := by
  have hparse := parse_fields hrange hbz hfits
  have hnone : ∀ sh, SignedHeaderPb.ofFields (fields ⟨some data, signature, some pb⟩) = some sh →
      fromProto w.proto sh = some header → header.header.proposerAddress = [] := by
    intro sh hsh hfrom
    obtain ⟨headerPb, hheader, hproposer⟩ := fromProto_proposer hfrom
    rw [hproposer]
    exact asHeader_nameless hrange hbz hfits hsh hheader
  rcases h with ⟨envelopeSignature, hdecode⟩ | ⟨-, hdecode⟩
  · simp only [unmarshalDAEnvelope, Wire.proto, hparse, bind_eq_bind,
      bind_some, bind_eq_some_iff] at hdecode
    obtain ⟨envelope, henvelope, header', hfrom, heq⟩ := hdecode
    obtain ⟨sh, hsh, rfl⟩ := map_eq_some_iff.mp henvelope
    obtain ⟨rfl, -⟩ := Prod.mk.inj (some.inj heq)
    exact hnone sh hsh hfrom
  · simp only [unmarshalBinary, Wire.proto, hparse, bind_some,
      bind_eq_some_iff] at hdecode
    obtain ⟨sh, hsh, hfrom⟩ := hdecode
    exact hnone sh hsh hfrom

theorem SignedDataPb.envelope_unsigned {header : SignedHeader} {envelopeSignature : Signature}
    (h : unmarshalDAEnvelope w.proto bz = some (header, envelopeSignature)) :
    envelopeSignature = [] := by
  simp only [unmarshalDAEnvelope, Wire.proto, parse_fields hrange hbz hfits,
    bind_eq_bind, bind_some, bind_eq_some_iff] at h
  obtain ⟨envelope, henvelope, header', -, heq⟩ := h
  obtain ⟨sh, -, rfl⟩ := map_eq_some_iff.mp henvelope
  obtain ⟨-, rfl⟩ := Prod.mk.inj (some.inj heq)
  simp [bytesAt, fields]

end

theorem SignedHeaderPb.asData {w : Wire} {h : Header} (hrange : h.InRange)
    {signature : Signature} {pb : SignerPb} {bz : Bytes}
    (hbz : bz = encode (fields ⟨some h.toProto, signature, some pb⟩)) (hfits : bz.length < 2 ^ 63)
    {sd : SignedData} (hsd : SignedData.unmarshalBinary w.proto bz = some sd) :
    sd.signature = signature ∧ Signer.fromProto w.proto (some pb) = some sd.signer ∧
      ∀ data, sd.data = some data → data.txs = [] := by
  rw [hbz] at hfits hsd
  have hread := SignedHeaderPb.readBack hrange signature pb wholeIfFits_nil (fun _ _ _ => rfl)
  rw [List.append_nil] at hread
  have hbytes : h.toProto.marshal =
      encode (h.toProto.fields ++ LegacyHeaderFields.fields h.legacy) := h.marshalBinary_eq
  have hsub : submessageAt 1 Data.ofFields (fields ⟨some h.toProto, signature, some pb⟩) =
      (Data.ofFields (h.toProto.fields ++ LegacyHeaderFields.fields h.legacy)).map some :=
    submessageAt_encoded hfits (by simp [fields, hbytes]) (fun hf => (Header.readBack hrange hf).1)
  have hsignature : bytesAt 2 (fields ⟨some h.toProto, signature, some pb⟩) = signature :=
    bytesAt_of_select hfits (by simp [fields])
  have hsigner : submessageAt 3 SignerPb.ofFields (fields ⟨some h.toProto, signature, some pb⟩) =
      some (some pb) :=
    submessageAt_of_select hfits (by simp [fields]) (fun m _ => m.readBack)
  simp only [SignedData.unmarshalBinary, Wire.proto, parse_encode (hread hfits).1,
    SignedDataPb.ofFields, hsub, hsignature, hsigner, bind_eq_bind, bind_some,
    bind_eq_some_iff, map_some] at hsd
  obtain ⟨other, ⟨data, hdata, hother⟩, signer, hfrom, hsd⟩ := hsd
  obtain ⟨data', hread', rfl⟩ := map_eq_some_iff.mp hdata
  obtain rfl := some.inj hother
  rw [← some.inj hsd]
  refine ⟨rfl, hfrom, fun data hd => ?_⟩
  obtain ⟨metadata, -, rfl⟩ := map_eq_some_iff.mp hread'
  rw [← some.inj hd]
  cases h.legacy <;>
    simp [repeatedAt, HeaderPb.fields, stringField, LegacyHeaderFields.fields]

theorem Header.marshalBinary_ne_data {h : Header} (hrange : h.InRange)
    (hproposer : h.proposerAddress ≠ []) (hfits : h.marshalBinary.length < 2 ^ 63) {data : Data}
    (hempty : data.txs = []) : h.marshalBinary ≠ data.marshalBinary := by
  intro heq
  have hwhole : WholeIfFits data.fields := by
    rw [Data.fields, hempty, map_nil, append_nil]
    exact wholeIfFits_messageField (by decide) _
  have hdata : parse h.marshalBinary = some data.fields := by
    rw [heq, Data.marshalBinary_eq] at hfits ⊢
    exact parse_encode (hwhole hfits)
  rw [Header.marshalBinary_eq] at hfits hdata
  rw [parse_encode (Header.readBack hrange hfits).1] at hdata
  have hfields := congrArg (select 10 2) (some.inj hdata)
  simp only [Data.fields, HeaderPb.fields, Header.toProto, stringField, select_append] at hfields
  simp at hfields
  simp [bytesField, hproposer] at hfields

/-! ## Blobs of the producer -/

def DataSigner.Genuine (w : Wire) (signer : DataSigner) : Prop :=
  ∀ key bz signature, signer.getPublic = .ok key → signer.sign bz = .ok signature →
    w.verify key bz signature = .ok true

section

variable {w : Wire} {marshalPublicKey : PubKey → Except String Bytes}
  (hkeys : KeysRoundTrip w marshalPublicKey)
include hkeys

theorem SignedData.dataRoundTrips {genesis : Genesis} (sha256 : Bytes → Hash) {data : Data}
    (hrange : data.InRange) {key : PubKey} {signature : Signature}
    (hverify : w.verify key data.marshalBinary signature = .ok true) {bz : Blob}
    (hbz : marshalBinary marshalPublicKey
      ⟨some data, signature, ⟨some key, genesis.proposerAddress⟩⟩ = .ok bz)
    (hfits : bz.length < 2 ^ 63) :
    DataRoundTrips genesis (wireCodec sha256) (w.signing marshalPublicKey) key data bz := by
  obtain ⟨pb, hpb, -⟩ := Signer.fromProto_toProto hkeys
    (show Signer.Caches marshalPublicKey ⟨some key, genesis.proposerAddress⟩ [] from .inl rfl)
  have hencoded := ok.inj (hbz.symm.trans (marshalBinary_eq hpb))
  obtain ⟨bz', hbz', hdecode⟩ :=
    SignedData.carries hkeys hrange signature key genesis.proposerAddress
  obtain rfl := ok.inj (hbz.symm.trans hbz')
  refine ⟨fun hnil => ?_, ⟨signature, hdecode hfits, hverify⟩,
    fun header envelopeSignature => SignedDataPb.envelope_unsigned hrange hencoded hfits,
    fun header => SignedDataPb.decodesTo_nameless hrange hencoded hfits⟩
  have hparse := SignedDataPb.parse_fields hrange hencoded hfits
  rw [hnil, show parse [] = some [] from rfl] at hparse
  simp [SignedDataPb.fields, messageField] at hparse

theorem DaSubmitter.signData_dataRoundTrips (sha256 : Bytes → Hash) {genesis : Genesis}
    (hproposer : genesis.proposerAddress ≠ []) {signer : DataSigner}
    (hgenuine : signer.Genuine w) {unsigned : List (Data × Bytes)}
    (hunsigned : ∀ u ∈ unsigned, u.1.InRange ∧ u.2 = u.1.marshalBinary)
    {signed : List (SignedData × Blob)}
    (hsigned : signData marshalPublicKey (some signer) genesis unsigned = .ok signed)
    {p : SignedData × Blob} (hp : p ∈ signed) (hfits : p.2.length < 2 ^ 63) :
    ∃ u key, u ∈ unsigned ∧ signer.getPublic = .ok key ∧ u.1.txs ≠ [] ∧ p.1.data = some u.1 ∧
      DataRoundTrips genesis (wireCodec sha256) (w.signing marshalPublicKey) key u.1 p.2 := by
  obtain ⟨s, key, address, hs, hpublic, -, haddress, u, hu, hfull, signature, hsign, hsd, hbz⟩ :=
    signData_mem hsigned hp
  obtain rfl := some.inj hs
  obtain ⟨hrange, hbytes⟩ := hunsigned u hu
  obtain rfl := haddress.resolve_left hproposer
  rw [hsd] at hbz
  exact ⟨u, key, hu, hpublic, hfull, by rw [hsd], SignedData.dataRoundTrips hkeys sha256 hrange
    (hgenuine key _ signature hpublic (hbytes ▸ hsign)) hbz hfits⟩

section

variable {sh : SignedHeader} {cache : Bytes} (hcache : sh.signer.Caches marshalPublicKey cache)
  (hrange : sh.header.InRange) {bz : Blob} (hfits : bz.length < 2 ^ 63)
include hcache hrange hfits

theorem SignedHeader.decodes_envelope (hlegacy : sh.header.legacy = none) {key : PubKey}
    (hkey : sh.signer.pubKey = some key) {envelopeSignature : Signature}
    (hbz : sh.marshalDAEnvelope marshalPublicKey cache envelopeSignature = .ok bz) :
    unmarshalDAEnvelope (w.signing marshalPublicKey) bz = some (sh, envelopeSignature) := by
  obtain ⟨bz', hbz', hdecode⟩ := carries_envelope hkeys hcache hrange
    (fun l hl => by simp [hlegacy] at hl) envelopeSignature
  obtain rfl := ok.inj (hbz.symm.trans hbz')
  have hheader : canonical sh.header.legacy = sh.header.legacy := by
    rw [hlegacy]
    rfl
  have hsigner : sh.signer.carried = sh.signer :=
    sh.signer.carried_eq_iff.mpr (.inl (by simp [hkey]))
  have hcarried : sh.carried = sh := by
    rw [carried, Header.canonical, hheader, hsigner]
  rw [← hcarried]
  exact hdecode hfits

theorem SignedHeader.not_taken_as_data {sha256 : Bytes → Hash} {r : DaRetriever}
    (hcodec : r.codec = wireCodec sha256) (hwire : r.wire = w.signing marshalPublicKey)
    (hproposer : sh.header.proposerAddress ≠ []) (hslim : sh.header.marshalBinary.length < 2 ^ 63)
    (hunique : ∀ key payload, sh.signer.pubKey = some key →
      w.verify key payload sh.signature = .ok true → payload = sh.header.marshalBinary)
    (hbz : sh.marshalBinary marshalPublicKey cache = .ok bz) (daHeight : ℕ) (data : Data)
    (r' : DaRetriever) : r.tryDecodeData bz daHeight ≠ .ok (some data, r') := by
  intro hdata
  obtain ⟨pb, hpb, hsigner⟩ := Signer.fromProto_toProto hkeys hcache
  rw [marshalBinary, toProto, hpb] at hbz
  obtain ⟨sd, key, hsd, hvouches⟩ := (tryDecodeData_spec hdata).2 data rfl
  rw [hwire, hcodec] at hvouches
  rw [hwire] at hsd
  obtain ⟨hsignature, hfrom, htxs⟩ :=
    SignedHeaderPb.asData hrange (ok.inj hbz).symm hfits hsd
  have hkey := hvouches.key_eq
  rw [← some.inj (hsigner.symm.trans hfrom)] at hkey
  have hkey : sh.signer.pubKey = some key := by
    unfold Signer.carried at hkey
    split at hkey
    · simp [Signer.zero] at hkey
    · exact hkey
  have hverify := hvouches.verifies
  rw [hsignature] at hverify
  exact Header.marshalBinary_ne_data hrange hproposer hslim (htxs data hvouches.data_eq)
    (hunique key _ hkey hverify).symm

end

/-- Blobs of the proposer's data and headers are told apart: signed data is no header, in either
mode and without a trace, and is taken as its data; a header is taken out of its envelope, at a
time when it is valid; and its encoding without an envelope is not taken as data. -/
theorem blob_kinds_apart (sha256 : Bytes → Hash) {genesis : Genesis}
    (hproposer : genesis.proposerAddress ≠ []) {r : DaRetriever} (hgenesis : r.genesis = genesis)
    (hcodec : r.codec = wireCodec sha256) (hwire : r.wire = w.signing marshalPublicKey)
    (now : Time) (daHeight : ℕ) :
    (∀ (signer : DataSigner) (unsigned : List (Data × Bytes)) (signed : List (SignedData × Blob)),
      signer.Genuine w →
      (∀ u ∈ unsigned, u.1.InRange ∧ u.1.metadata ≠ none ∧ u.2 = u.1.marshalBinary) →
      DaSubmitter.signData marshalPublicKey (some signer) genesis unsigned = .ok signed →
      ∀ p ∈ signed, p.2.length < 2 ^ 63 →
        r.tryDecodeHeader now p.2 daHeight = (none, r) ∧
          ∃ data marks, p.1.data = some data ∧
            r.tryDecodeData p.2 daHeight = .ok (some data, { r with dataDAIncluded := marks })) ∧
    ∀ (e : Executor) (height : ℕ) (batchData : BatchData) (inp : ProduceInput)
      (unsigned : SignedHeader) (data : Data) (signature : Signature) (cache : Bytes),
      e.config.genesis = genesis → e.createBlock height batchData inp = .ok (unsigned, data) →
      unsigned.header.InRange → unsigned.signer.Caches marshalPublicKey cache →
      let header := { unsigned with signature := signature }
      (∀ key envelopeSignature bz, header.signer.pubKey = some key → envelopeSignature ≠ [] →
        w.verify key (r.wire.signedHeaderBytes header) envelopeSignature = .ok true →
        header.marshalDAEnvelope marshalPublicKey cache envelopeSignature = .ok bz →
        bz.length < 2 ^ 63 → header.header.time ≠ 0 →
        timeOfUint64 header.header.time ≤ now + maxClockDrift →
        (r.tryDecodeHeader now bz daHeight).1 = some header) ∧
      ∀ bz, (∀ key payload, header.signer.pubKey = some key →
          w.verify key payload signature = .ok true → payload = header.header.marshalBinary) →
        header.marshalBinary marshalPublicKey cache = .ok bz → bz.length < 2 ^ 63 →
        header.header.marshalBinary.length < 2 ^ 63 →
        ∀ data r', r.tryDecodeData bz daHeight ≠ .ok (some data, r') := by
  subst hgenesis
  refine ⟨fun signer unsigned signed hgenuine hunsigned hsigned p hp hfits => ?_,
    fun e height batchData inp unsigned data signature cache hgenesis hblock hrange hcache => ?_⟩
  · obtain ⟨u, key, hu, -, hfull, hsd, hround⟩ := signData_dataRoundTrips hkeys sha256
      hproposer hgenuine (fun u hu => ⟨(hunsigned u hu).1, (hunsigned u hu).2.2⟩) hsigned hp hfits
    obtain ⟨metadata, hmetadata⟩ := ne_none_iff_exists'.mp (hunsigned u hu).2.1
    obtain ⟨-, ⟨signature, hdecode, hverify⟩, hunsigned, hnameless⟩ := hround
    rw [← hwire] at hdecode hverify hunsigned hnameless
    rw [← hcodec] at hverify
    exact ⟨tryDecodeHeader_nameless hunsigned hnameless, u.1, _, hsd,
      tryDecodeData_valid hdecode (.inl hfull) hverify hmetadata⟩
  · intro header
    obtain ⟨time, last, pubKey, validatorHash, -, -, -, rfl, -⟩ := Executor.createBlock_ok hblock
    have hcache : header.signer.Caches marshalPublicKey cache := hcache
    have hrange : header.header.InRange := hrange
    constructor
    · intro key envelopeSignature bz hkey hne hverify hbz hfits htime hclock
      have hdecode := decodes_envelope hkeys hcache hrange hfits rfl hkey hbz
      rw [← hwire] at hdecode
      have hbasic : header.header.validateBasic now = .ok () := by
        have hlength : header.header.proposerAddress.length ≠ 0 := by
          simpa [header, hgenesis] using hproposer
        unfold Header.validateBasic
        rw [if_neg hlength, if_neg htime, if_neg (not_lt.mpr hclock)]
      rw [tryDecodeHeader_envelope hdecode (length_pos_iff.mpr hne) hkey
        (hwire ▸ hverify) hbasic (congrArg Genesis.proposerAddress hgenesis)]
    · intro bz hunique hbz hfits hslim
      exact not_taken_as_data hkeys hcache hrange hfits hcodec hwire
        (by simpa [header, hgenesis] using hproposer) hslim hunique hbz daHeight

end

/-! ## A first block of a given time

A signature is the payload itself.
-/

def echoWire : Wire :=
  { unaryWire with verify := fun _ payload signature => .ok (decide (payload = signature)) }

def echoSigner : DataSigner := ⟨.ok ⟨1, [7]⟩, .ok [7], fun bz => .ok bz⟩

theorem echoSigner_genuine : echoSigner.Genuine echoWire := by
  intro key bz signature _ hsign
  rw [← ok.inj hsign]
  exact congrArg Except.ok (decide_eq_true rfl)

def timedExecutor (start : Time) : Executor :=
  .new { firstBlockExecutor.config with
    genesis := { queueGenesis with startTime := start }
    codec := wireCodec id } Store.empty

def timedHeader (time : ℕ) (signature : Signature) : SignedHeader :=
  ⟨⟨1, time, "sample", ⟨0, 0⟩, [], [0, 18, 1, 5], [], [], [7], none⟩, signature,
    ⟨some ⟨1, [7]⟩, [7]⟩⟩

def timedData (time : ℕ) : Data := ⟨some ⟨"sample", 1, time, []⟩, [[5]]⟩

def timedRetriever (start : Time) : DaRetriever :=
  .new (timedExecutor start).config.genesis (wireCodec id) (echoWire.signing unaryKey)

theorem timedHeader_inRange {time : ℕ} (htime : time < 2 ^ 64) (signature : Signature) :
    (timedHeader time signature).header.InRange := by
  simpa [timedHeader, Header.InRange, Version.InRange] using htime

theorem blob_kinds_apart_of_first_block :
    let r := timedRetriever 1
    let header := timedHeader 1 (timedHeader 1 []).header.marshalBinary
    (∃ signed, DaSubmitter.signData unaryKey (some echoSigner) r.genesis
        [(timedData 1, (timedData 1).marshalBinary)] = .ok [signed] ∧
      r.tryDecodeHeader 0 signed.2 5 = (none, r) ∧ ∃ data marks, signed.1.data = some data ∧
        r.tryDecodeData signed.2 5 = .ok (some data, { r with dataDAIncluded := marks })) ∧
    ∃ envelope bz, header.marshalDAEnvelope unaryKey [] (r.wire.signedHeaderBytes header) =
        .ok envelope ∧ header.marshalBinary unaryKey [] = .ok bz ∧
      (r.tryDecodeHeader 0 envelope 5).1 = some header ∧
      ∀ data r', r.tryDecodeData bz 5 ≠ .ok (some data, r') := by
  intro r header
  obtain ⟨hdata, hheader⟩ := blob_kinds_apart (w := echoWire) unaryKeys_roundTrip id
    (r := r) (by decide) rfl rfl rfl 0 5
  obtain ⟨henvelope, hplain⟩ := hheader (timedExecutor 1) 1 firstBatch
    (produceFirst [5]) (timedHeader 1 []) (timedData 1)
    (timedHeader 1 []).header.marshalBinary [] rfl rfl (timedHeader_inRange (by decide) _)
    (.inl rfl)
  refine ⟨⟨_, rfl, hdata echoSigner [(timedData 1, _)] _ echoSigner_genuine ?_ rfl _
      (mem_singleton_self _) (by decide)⟩, _, _, rfl, rfl,
    henvelope ⟨1, [7]⟩ _ _ rfl (cons_ne_nil _ _) ?_ rfl (by decide +kernel) (by decide)
      (by decide),
    hplain _ (fun _ payload hkey hverify => ?_) rfl (by decide +kernel) (by decide)⟩
  · simp [timedData, Data.InRange, Metadata.InRange]
  · exact congrArg Except.ok (decide_eq_true rfl)
  · simpa [echoWire] using hverify

/-- A header built for a time more than a minute ahead of the reader's clock is refused in its
envelope. -/
theorem envelope_refused_ahead_of_clock :
    let r := timedRetriever 61000000000
    let unsigned := timedHeader 61000000000 []
    let header := { unsigned with signature := unsigned.header.marshalBinary }
    (timedExecutor 61000000000).createBlock 1 firstBatch (produceFirst [5]) =
        .ok (unsigned, timedData 61000000000) ∧
      ∃ envelope, header.marshalDAEnvelope unaryKey [] (r.wire.signedHeaderBytes header) =
          .ok envelope ∧ (r.tryDecodeHeader 0 envelope 5).1 = none := by
  intro r unsigned header
  obtain ⟨envelope, henvelope⟩ : ∃ envelope, header.marshalDAEnvelope unaryKey []
    (r.wire.signedHeaderBytes header) = .ok envelope := ⟨_, rfl⟩
  have hfits : envelope.length < 2 ^ 63 := by
    rw [← ok.inj henvelope]
    decide +kernel
  have hdecode := decodes_envelope (w := echoWire) unaryKeys_roundTrip
    (.inl rfl) (timedHeader_inRange (by decide) _) hfits rfl rfl henvelope
  refine ⟨rfl, envelope, henvelope, eq_none_iff_forall_ne_some.mpr fun header' htaken => ?_⟩
  obtain ⟨hdecodes, hbasic, -⟩ := (tryDecodeHeader_spec r 0 _ 5).2 header' htaken
  rcases hdecodes with ⟨_, hdecode'⟩ | ⟨hnone, -⟩
  · obtain ⟨rfl, -⟩ := Prod.mk.inj (some.inj (hdecode.symm.trans hdecode'))
    exact absurd hbasic (by decide)
  · exact absurd (hdecode.symm.trans hnone) (by simp)

end ChainSdk

/-
The encodings of signed headers and signed data: `MarshalBinary`, the envelope for DA and the
envelope for P2P (`types/serialization.go`, `types/p2p_envelope.go`).

All of them hold the signer in one message, and leave it empty if there is no public key.
-/
import ChainSdk.BlockEncoding

namespace ChainSdk

open DaSubmitter Except LegacyHeaderFields Option SignedHeader

open ProtoWire

/-! ## The messages -/

structure P2PSignedHeaderPb extends SignedHeaderPb where
  daHeightHint : Option ℕ
  deriving DecidableEq

structure P2PSignedHeader where
  signedHeader : SignedHeader
  daHeightHint : ℕ
  deriving DecidableEq

def SignerPb.fields (s : SignerPb) : List Field := bytesField 1 s.address ++ bytesField 2 s.pubKey

section

variable (fs : List Field)

def SignerPb.ofFields : Option SignerPb := some ⟨bytesAt 1 fs, bytesAt 2 fs⟩

def SignedHeaderPb.fields (sh : SignedHeaderPb) : List Field :=
  messageField 1 (sh.header.map HeaderPb.marshal) ++ bytesField 2 sh.signature ++
    messageField 3 ((sh.signer.map SignerPb.fields).map encode)

def SignedHeaderPb.ofFields : Option SignedHeaderPb :=
  (submessageAt 1 HeaderPb.ofFields fs).bind (fun header =>
    (submessageAt 3 SignerPb.ofFields fs).map (fun signer => ⟨header, bytesAt 2 fs, signer⟩))

def DAHeaderEnvelopePb.fields (envelope : DAHeaderEnvelopePb) : List Field :=
  envelope.toSignedHeaderPb.fields ++ bytesField 4 envelope.envelopeSignature

def DAHeaderEnvelopePb.ofFields : Option DAHeaderEnvelopePb :=
  (SignedHeaderPb.ofFields fs).map (fun sh => ⟨sh, bytesAt 4 fs⟩)

def P2PSignedHeaderPb.fields (msg : P2PSignedHeaderPb) : List Field :=
  msg.toSignedHeaderPb.fields ++ optionalField 4 msg.daHeightHint

def P2PSignedHeaderPb.ofFields : Option P2PSignedHeaderPb :=
  (SignedHeaderPb.ofFields fs).map (fun sh => ⟨sh, optionalAt 4 fs⟩)

def SignedDataPb.fields (sd : SignedDataPb) : List Field :=
  messageField 1 ((sd.data.map Data.fields).map encode) ++ bytesField 2 sd.signature ++
    messageField 3 ((sd.signer.map SignerPb.fields).map encode)

def SignedDataPb.ofFields : Option SignedDataPb :=
  (submessageAt 1 Data.ofFields fs).bind (fun data =>
    (submessageAt 3 SignerPb.ofFields fs).map (fun signer => ⟨data, bytesAt 2 fs, signer⟩))

end

/-- The wire with the messages read as protobuf has them. -/
def Wire.proto (w : Wire) : Wire :=
  { w.withLegacyFields with
    daHeaderEnvelope := fun bz => (parse bz).bind DAHeaderEnvelopePb.ofFields
    signedHeader := fun bz => (parse bz).bind SignedHeaderPb.ofFields
    signedData := fun bz => (parse bz).bind SignedDataPb.ofFields }

/-! ## The codecs -/

section Codecs

variable (marshalPublicKey : PubKey → Except String Bytes)

def Signer.marshalledPubKey (signer : Signer) (cache : Bytes) : Except String Bytes × Bytes :=
  if 0 < cache.length then (.ok cache, cache)
  else
    match signer.pubKey with
    | none => (.ok [], cache)
    | some key =>
      match marshalPublicKey key with
      | .error e => (.error e, cache)
      | .ok bz => (.ok bz, bz)

def Signer.toProto (signer : Signer) (cache : Bytes) : Except String SignerPb :=
  match signer.pubKey with
  -- the address is left out with the key
  | none => .ok ⟨[], []⟩
  | some _ => (signer.marshalledPubKey marshalPublicKey cache).1.map (⟨signer.address, ·⟩)

section

variable (sh : SignedHeader)

def SignedHeader.toProto (cache : Bytes) : Except String SignedHeaderPb :=
  (sh.signer.toProto marshalPublicKey cache).map
    (fun signer => ⟨some sh.header.toProto, sh.signature, some signer⟩)

def SignedHeader.marshalBinary (cache : Bytes) : Except String Bytes :=
  (sh.toProto marshalPublicKey cache).map (fun p => encode p.fields)

def SignedHeader.toDAEnvelopeProto (cache : Bytes) (envelopeSignature : Signature) :
    Except String DAHeaderEnvelopePb :=
  (sh.signer.toProto marshalPublicKey cache).map
    (fun signer => ⟨⟨some sh.header.toProto, sh.signature, some signer⟩, envelopeSignature⟩)

def SignedHeader.marshalDAEnvelope (cache : Bytes) (envelopeSignature : Signature) :
    Except String Bytes :=
  (sh.toDAEnvelopeProto marshalPublicKey cache envelopeSignature).map (fun p => encode p.fields)

end

def P2PSignedHeader.marshalBinary (p : P2PSignedHeader) (cache : Bytes) : Except String Bytes :=
  (p.signedHeader.toProto marshalPublicKey cache).map (fun psh =>
    encode (P2PSignedHeaderPb.fields ⟨psh, some p.daHeightHint⟩))

def P2PSignedHeader.unmarshalBinary (w : Wire) (bz : Bytes) : Option P2PSignedHeader :=
  ((parse bz).bind P2PSignedHeaderPb.ofFields).bind (fun msg =>
    (fromProto w msg.toSignedHeaderPb).map (⟨·, msg.daHeightHint.getD 0⟩))

end Codecs

/-! ## Messages are read as they were written -/

theorem SignerPb.readBack (s : SignerPb) : ReadBack s.fields ofFields s := by
  intro hfits
  have haddress : bytesAt 1 s.fields = s.address := bytesAt_of_select hfits (by simp [fields])
  have hkey : bytesAt 2 s.fields = s.pubKey := bytesAt_of_select hfits (by simp [fields])
  refine ⟨?_, by rw [ofFields, haddress, hkey]⟩
  have hwhole : WholeIfFits s.fields :=
    (wholeIfFits_bytesField (by decide) _).append (wholeIfFits_bytesField (by decide) _)
  exact hwhole hfits

theorem SignedHeaderPb.readBack {h : Header} (hrange : h.InRange) (signature : Bytes)
    (signer : SignerPb) {tail : List Field} (hwholeTail : WholeIfFits tail)
    (htail : ∀ number ≤ 3, ∀ wireType, select number wireType tail = []) :
    ReadBack (fields ⟨some h.toProto, signature, some signer⟩ ++ tail) ofFields
      ⟨some h.toProto, signature, some signer⟩ := by
  intro hfits
  have hselect : select 1 2 (fields ⟨some h.toProto, signature, some signer⟩ ++ tail) =
      messageField 1 (((some h.toProto).map (fun _ : HeaderPb =>
        h.toProto.fields ++ LegacyHeaderFields.fields h.legacy)).map encode) := by
    have hbytes : h.toProto.marshal =
        encode (h.toProto.fields ++ LegacyHeaderFields.fields h.legacy) := h.marshalBinary_eq
    simp [fields, htail, hbytes]
  have hheader : submessageAt 1 HeaderPb.ofFields
      (fields ⟨some h.toProto, signature, some signer⟩ ++ tail) = some (some h.toProto) := by
    apply submessageAt_of_select hfits hselect
    intro m hm
    rw [← some.inj hm]
    exact Header.readBack hrange
  have hsignature : bytesAt 2 (fields ⟨some h.toProto, signature, some signer⟩ ++ tail) =
      signature := bytesAt_of_select hfits (by simp [fields, htail])
  have hsigner : submessageAt 3 SignerPb.ofFields
      (fields ⟨some h.toProto, signature, some signer⟩ ++ tail) = some (some signer) :=
    submessageAt_of_select hfits (by simp [fields, htail]) (fun m _ => m.readBack)
  refine ⟨?_, by rw [ofFields, hheader, bind_some, hsigner, map_some, hsignature]⟩
  have hwhole : WholeIfFits (fields ⟨some h.toProto, signature, some signer⟩) := by
    repeat' apply WholeIfFits.append
    · exact wholeIfFits_messageField (by decide) _
    · exact wholeIfFits_bytesField (by decide) _
    · exact wholeIfFits_messageField (by decide) _
  exact (hwhole.append hwholeTail) hfits

variable {pb : SignerPb} (signer : Signer) {daHeightHint : ℕ} {data : Data}

section

variable {h : Header} (hrange : h.InRange) (signature : Bytes) (signer : SignerPb)
include hrange

theorem DAHeaderEnvelopePb.readBack (envelopeSignature : Signature) :
    ReadBack (fields ⟨⟨some h.toProto, signature, some signer⟩, envelopeSignature⟩) ofFields
      ⟨⟨some h.toProto, signature, some signer⟩, envelopeSignature⟩ := by
  intro hfits
  have htail : ∀ number ≤ 3, ∀ wireType,
      select number wireType (bytesField 4 envelopeSignature) = [] := by
    intro number hnumber wireType
    rw [select_bytesField, if_neg (by omega)]
  obtain ⟨hwhole, hread⟩ := SignedHeaderPb.readBack hrange signature signer
    (wholeIfFits_bytesField (by decide) envelopeSignature) htail hfits
  have henvelope : bytesAt 4
      (fields ⟨⟨some h.toProto, signature, some signer⟩, envelopeSignature⟩) =
      envelopeSignature := bytesAt_of_select hfits (by simp [fields, SignedHeaderPb.fields])
  refine ⟨hwhole, ?_⟩
  unfold ofFields
  rw [henvelope]
  exact congrArg (Option.map _) hread

theorem P2PSignedHeaderPb.readBack (hhint : daHeightHint < 2 ^ 64) :
    ReadBack (fields ⟨⟨some h.toProto, signature, some signer⟩, some daHeightHint⟩) ofFields
      ⟨⟨some h.toProto, signature, some signer⟩, some daHeightHint⟩ := by
  intro hfits
  have hsome : ∀ n ∈ some daHeightHint, n < 2 ^ 64 := by
    intro n hn
    rw [← some.inj hn]
    exact hhint
  have htail : ∀ number ≤ 3, ∀ wireType,
      select number wireType (optionalField 4 (some daHeightHint)) = [] := by
    intro number hnumber wireType
    rw [select_optionalField, if_neg (by omega)]
  obtain ⟨hwhole, hread⟩ := SignedHeaderPb.readBack hrange signature signer
    (wholeIfFits_optionalField (by decide) hsome) htail hfits
  have hoptional : optionalAt 4
      (fields ⟨⟨some h.toProto, signature, some signer⟩, some daHeightHint⟩) =
      some daHeightHint := optionalAt_of_select (by simp [fields, SignedHeaderPb.fields]) hsome
  refine ⟨hwhole, ?_⟩
  unfold ofFields
  rw [hoptional]
  exact congrArg (Option.map _) hread

end

theorem SignedDataPb.readBack (hrange : data.InRange) (signature : Bytes) (signer : SignerPb) :
    ReadBack (fields ⟨some data, signature, some signer⟩) ofFields
      ⟨some data, signature, some signer⟩ := by
  intro hfits
  have hdata : submessageAt 1 Data.ofFields (fields ⟨some data, signature, some signer⟩) =
      some (some data) := by
    have hread : ∀ d ∈ some data, ReadBack d.fields Data.ofFields d := by
      intro d hd
      rw [← some.inj hd]
      exact Data.readBack hrange
    exact submessageAt_of_select hfits (by simp [fields]) hread
  have hsignature : bytesAt 2 (fields ⟨some data, signature, some signer⟩) = signature :=
    bytesAt_of_select hfits (by simp [fields])
  have hsigner : submessageAt 3 SignerPb.ofFields (fields ⟨some data, signature, some signer⟩) =
      some (some signer) :=
    submessageAt_of_select hfits (by simp [fields]) (fun m _ => m.readBack)
  refine ⟨?_, by rw [ofFields, hdata, bind_some, hsigner, map_some, hsignature]⟩
  have hwhole : WholeIfFits (fields ⟨some data, signature, some signer⟩) := by
    repeat' apply WholeIfFits.append
    · exact wholeIfFits_messageField (by decide) _
    · exact wholeIfFits_bytesField (by decide) _
    · exact wholeIfFits_messageField (by decide) _
  exact hwhole hfits

/-! ## What a signer's message carries -/

/-- Keys are read as they were written, and an encoded key is not empty. -/
def KeysRoundTrip (w : Wire) (marshalPublicKey : PubKey → Except String Bytes) : Prop :=
  ∀ key, ∃ bz, marshalPublicKey key = .ok bz ∧ bz ≠ [] ∧ w.unmarshalPublicKey bz = some key

/-- What may be in a signer's cache: nothing, or what an earlier call has put there. -/
def Signer.Caches (marshalPublicKey : PubKey → Except String Bytes) (signer : Signer)
    (cache : Bytes) : Prop :=
  cache = [] ∨ ∃ key, signer.pubKey = some key ∧ marshalPublicKey key = .ok cache

def Signer.carried (signer : Signer) : Signer :=
  match signer.pubKey with
  | none => Signer.zero
  | some _ => signer

def SignedHeader.carried (sh : SignedHeader) : SignedHeader :=
  ⟨sh.header.canonical, sh.signature, sh.signer.carried⟩

theorem Signer.carried_eq_iff :
    signer.carried = signer ↔ signer.pubKey ≠ none ∨ signer.address = [] := by
  obtain ⟨pubKey, address⟩ := signer
  cases pubKey with
  | none => simp [carried, zero, eq_comm]
  | some key => simp [carried]

section Signers

variable {w : Wire} {marshalPublicKey : PubKey → Except String Bytes}

section

variable {signer : Signer} {cache : Bytes} {key : PubKey}
  (hcache : signer.Caches marshalPublicKey cache) (hkey : signer.pubKey = some key)
include hcache hkey

theorem Signer.marshalledPubKey_of_caches :
    (signer.marshalledPubKey marshalPublicKey cache).1 = marshalPublicKey key ∧
      signer.Caches marshalPublicKey (signer.marshalledPubKey marshalPublicKey cache).2 := by
  unfold marshalledPubKey
  split_ifs with hcached
  · refine ⟨?_, hcache⟩
    rcases hcache with hnil | ⟨key', hkey', hbz⟩
    · simp [hnil] at hcached
    · rw [hkey] at hkey'
      rw [some.inj hkey', hbz]
  · rw [hkey]
    dsimp only
    rcases hbz : marshalPublicKey key with e | bz
    · exact ⟨rfl, hcache⟩
    · exact ⟨rfl, .inr ⟨key, hkey, hbz⟩⟩

theorem Signer.toProto_of_key :
    signer.toProto marshalPublicKey cache =
      (marshalPublicKey key).map (⟨signer.address, ·⟩) := by
  unfold toProto
  rw [(marshalledPubKey_of_caches hcache hkey).1, hkey]

end

theorem Signer.fromProto_toProto (hkeys : KeysRoundTrip w marshalPublicKey) {signer : Signer}
    {cache : Bytes} (hcache : signer.Caches marshalPublicKey cache) :
    ∃ pb, signer.toProto marshalPublicKey cache = .ok pb ∧
      fromProto w.proto (some pb) = some signer.carried := by
  unfold carried
  rcases hkey : signer.pubKey with _ | key
  · exact ⟨⟨[], []⟩, by rw [toProto, hkey], rfl⟩
  obtain ⟨bz, hbz, hne, hread⟩ := hkeys key
  refine ⟨⟨signer.address, bz⟩, ?_, ?_⟩
  · rw [toProto_of_key hcache hkey, hbz]
    rfl
  · have hkeyRead : w.proto.unmarshalPublicKey bz = some key := hread
    unfold fromProto
    dsimp only
    rw [if_pos (List.length_pos_iff.mpr hne), hkeyRead, map_some, ← hkey]

/-! ## What is decoded -/

/-- What a value is decoded into, if it is encoded at all; no slice is longer. -/
def Carries {α : Type} (encoded : Except String Bytes) (decode : Bytes → Option α) (a : α) : Prop :=
  ∃ bz, encoded = .ok bz ∧ (bz.length < 2 ^ 63 → decode bz = some a)

/-- A signed header is decoded as it is from its binary form, its DA envelope and its P2P form, with
the signature or hint they carry. -/
def SignedHeader.RoundTrips (w : Wire) (marshalPublicKey : PubKey → Except String Bytes)
    (cache : Bytes) (sh : SignedHeader) : Prop :=
  Carries (sh.marshalBinary marshalPublicKey cache) (unmarshalBinary w.proto) sh ∧
  (∀ envelopeSignature, Carries (sh.marshalDAEnvelope marshalPublicKey cache envelopeSignature)
    (unmarshalDAEnvelope w.proto) (sh, envelopeSignature)) ∧
  ∀ daHeightHint < 2 ^ 64,
    Carries (P2PSignedHeader.marshalBinary marshalPublicKey ⟨sh, daHeightHint⟩ cache)
      (P2PSignedHeader.unmarshalBinary w.proto) ⟨sh, daHeightHint⟩

variable {sh : SignedHeader} {cache : Bytes}

theorem SignedHeader.fromProto_carried (hlegacy : LegacyHeaderFields.Within sh.header.legacy)
    (hsigner : Signer.fromProto w.proto (some pb) = some sh.signer.carried) :
    fromProto w.proto ⟨some sh.header.toProto, sh.signature, some pb⟩ = some sh.carried := by
  have hheader : Header.fromProto w.proto sh.header.toProto = some sh.header.canonical :=
    Header.fromProto_toProto w hlegacy
  simp [fromProto, hheader, hsigner, carried]

section

variable (hkeys : KeysRoundTrip w marshalPublicKey)
  (hcache : sh.signer.Caches marshalPublicKey cache) (hrange : sh.header.InRange)
  (hlegacy : LegacyHeaderFields.Within sh.header.legacy)
include hkeys hcache hrange hlegacy

theorem SignedHeader.carries_binary :
    Carries (sh.marshalBinary marshalPublicKey cache) (unmarshalBinary w.proto) sh.carried := by
  obtain ⟨pb, hpb, hsigner⟩ := Signer.fromProto_toProto hkeys hcache
  refine ⟨encode (SignedHeaderPb.fields ⟨some sh.header.toProto, sh.signature, some pb⟩), ?_, ?_⟩
  · rw [marshalBinary, toProto, hpb]
    rfl
  · intro hfits
    have hread := SignedHeaderPb.readBack hrange sh.signature pb wholeIfFits_nil
      (fun _ _ _ => rfl)
    rw [List.append_nil] at hread
    have hmessage : w.proto.signedHeader _ = _ := hread.unmarshal hfits
    rw [unmarshalBinary, hmessage, bind_some, fromProto_carried hlegacy hsigner]

theorem SignedHeader.carries_envelope (envelopeSignature : Signature) :
    Carries (sh.marshalDAEnvelope marshalPublicKey cache envelopeSignature)
      (unmarshalDAEnvelope w.proto) (sh.carried, envelopeSignature) := by
  obtain ⟨pb, hpb, hsigner⟩ := Signer.fromProto_toProto hkeys hcache
  refine ⟨encode (DAHeaderEnvelopePb.fields
    ⟨⟨some sh.header.toProto, sh.signature, some pb⟩, envelopeSignature⟩), ?_, ?_⟩
  · rw [marshalDAEnvelope, toDAEnvelopeProto, hpb]
    rfl
  · intro hfits
    have hmessage : w.proto.daHeaderEnvelope _ = _ :=
      (DAHeaderEnvelopePb.readBack hrange sh.signature pb envelopeSignature).unmarshal hfits
    simp [unmarshalDAEnvelope, hmessage, fromProto_carried hlegacy hsigner]

theorem SignedHeader.carries_p2p (hhint : daHeightHint < 2 ^ 64) :
    Carries (P2PSignedHeader.marshalBinary marshalPublicKey ⟨sh, daHeightHint⟩ cache)
      (P2PSignedHeader.unmarshalBinary w.proto) ⟨sh.carried, daHeightHint⟩ := by
  obtain ⟨pb, hpb, hsigner⟩ := Signer.fromProto_toProto hkeys hcache
  refine ⟨encode (P2PSignedHeaderPb.fields
    ⟨⟨some sh.header.toProto, sh.signature, some pb⟩, some daHeightHint⟩), ?_, ?_⟩
  · rw [P2PSignedHeader.marshalBinary, toProto, hpb]
    rfl
  · intro hfits
    have hmessage := (P2PSignedHeaderPb.readBack hrange sh.signature pb hhint).unmarshal hfits
    rw [P2PSignedHeader.unmarshalBinary, hmessage, bind_some,
      fromProto_carried hlegacy hsigner]
    rfl

theorem SignedHeader.roundTrips_iff
    (hslice : ∀ bz, sh.marshalBinary marshalPublicKey cache = .ok bz → bz.length < 2 ^ 63) :
    sh.RoundTrips w marshalPublicKey cache ↔ sh.carried = sh := by
  constructor
  · rintro ⟨⟨bz, hbz, hdecoded⟩, -, -⟩
    obtain ⟨bz', hbz', hcarried⟩ := carries_binary hkeys hcache hrange hlegacy
    rw [hbz] at hbz'
    rw [← ok.inj hbz', hdecoded (hslice bz hbz)] at hcarried
    exact (some.inj (hcarried (hslice bz hbz))).symm
  · intro hsame
    have hbinary := carries_binary hkeys hcache hrange hlegacy
    have henvelope := carries_envelope hkeys hcache hrange hlegacy
    have hp2p (daHeightHint : ℕ) (hhint : daHeightHint < 2 ^ 64) :=
      carries_p2p hkeys hcache hrange hlegacy hhint
    rw [hsame] at hbinary henvelope hp2p
    exact ⟨hbinary, henvelope, hp2p⟩

end

theorem Signer.marshal_eq :
    signer.marshal marshalPublicKey =
      (signer.toProto marshalPublicKey []).map (fun pb => encode pb.fields) := by
  unfold marshal
  rcases hkey : signer.pubKey with _ | key
  · rw [toProto, hkey]
    rfl
  · rw [toProto_of_key (.inl rfl) hkey]
    dsimp only
    cases marshalPublicKey key <;>
      simp [Except.map, SignerPb.fields, encode_append, encode_bytesField]

theorem SignedData.marshalBinary_eq {signature : Signature} {signer : Signer}
    (hpb : signer.toProto marshalPublicKey [] = .ok pb) :
    marshalBinary marshalPublicKey ⟨some data, signature, signer⟩ =
      .ok (encode (SignedDataPb.fields ⟨some data, signature, some pb⟩)) := by
  rw [marshalBinary, Signer.marshal_eq, hpb]
  simp [Except.map, SignedDataPb.fields, encode_append, encode_messageField, encode_bytesField,
    Data.marshalBinary_eq]

theorem SignedData.carries (hkeys : KeysRoundTrip w marshalPublicKey)
    (hrange : data.InRange) (signature : Signature) (key : PubKey) (address : Bytes) :
    Carries (marshalBinary marshalPublicKey ⟨some data, signature, ⟨some key, address⟩⟩)
      (unmarshalBinary w.proto) ⟨some data, signature, ⟨some key, address⟩⟩ := by
  obtain ⟨pb, hpb, hsigner⟩ := Signer.fromProto_toProto hkeys
    (show Signer.Caches marshalPublicKey ⟨some key, address⟩ [] from .inl rfl)
  refine ⟨_, marshalBinary_eq hpb, ?_⟩
  intro hfits
  have hmessage : w.proto.signedData _ = _ :=
    (SignedDataPb.readBack hrange signature pb).unmarshal hfits
  simp [unmarshalBinary, hmessage, hsigner, Signer.carried]

end Signers

/-! ## What a node produces -/

theorem Executor.createBlock_carried {e : Executor} {height : ℕ} {batchData : BatchData}
    {inp : ProduceInput} {header : SignedHeader}
    (hblock : e.createBlock height batchData inp = .ok (header, data)) (signature : Signature) :
    carried { header with signature := signature } =
        { header with signature := signature } ↔
      e.config.signer = true ∨ e.config.genesis.proposerAddress = [] := by
  obtain ⟨time, last, pubKey, validatorHash, -, hkey, -, rfl, -⟩ := createBlock_ok hblock
  have hsigner : pubKey ≠ none ↔ e.config.signer = true := by
    unfold publicKey at hkey
    split_ifs at hkey with hsigner
    · split at hkey
      · simp at hkey
      · rw [← ok.inj hkey]
        simp [hsigner]
    · rw [← ok.inj hkey]
      simp [hsigner]
  have hcarried := Signer.carried_eq_iff ⟨pubKey, e.config.genesis.proposerAddress⟩
  rw [hsigner] at hcarried
  rw [← hcarried]
  simp [carried, Header.canonical, canonical,
    isZero]

/-- For every signed header made by `CreateBlock`, with any signature, and all data signed by
`signData`, under an encoding of keys that is read back: the data is decoded as it is, and the
header is decoded as it is, address and DA hint included, exactly if the node has a signer or the
proposer's address is empty. -/
theorem signed_codecs_round_trip_iff {w : Wire} {marshalPublicKey : PubKey → Except String Bytes}
    (hkeys : KeysRoundTrip w marshalPublicKey) :
    (∀ (e : Executor) (height : ℕ) (batchData : BatchData) (inp : ProduceInput)
      (header : SignedHeader) (data : Data),
      e.createBlock height batchData inp = .ok (header, data) → header.header.InRange →
      ∀ (signature : Signature) (cache : Bytes), header.signer.Caches marshalPublicKey cache →
      (∀ bz, marshalBinary marshalPublicKey { header with signature := signature }
        cache = .ok bz → bz.length < 2 ^ 63) →
      (SignedHeader.RoundTrips w marshalPublicKey cache { header with signature := signature } ↔
        e.config.signer = true ∨ e.config.genesis.proposerAddress = [])) ∧
    ∀ (signer : Option DataSigner) (genesis : Genesis) (unsigned : List (Data × Bytes))
      (signed : List (SignedData × Blob)),
      DaSubmitter.signData marshalPublicKey signer genesis unsigned = .ok signed →
      (∀ u ∈ unsigned, u.1.InRange) →
      ∀ p ∈ signed, p.1.marshalBinary marshalPublicKey = .ok p.2 ∧
        Carries (p.1.marshalBinary marshalPublicKey) (SignedData.unmarshalBinary w.proto) p.1 := by
  constructor
  · intro e height batchData inp header data hblock hrange signature cache hcache hslice
    have hlegacy : LegacyHeaderFields.Within header.header.legacy := by
      obtain ⟨time, last, pubKey, validatorHash, -, -, -, rfl, -⟩ := Executor.createBlock_ok hblock
      exact fun l hl => absurd hl (by simp)
    rw [← Executor.createBlock_carried hblock signature]
    exact roundTrips_iff hkeys hcache hrange hlegacy hslice
  · intro signer genesis unsigned signed hsigned hrange p hp
    obtain ⟨s, key, address, -, -, -, -, u, hu, -, signature, -, hsd, hbz⟩ :=
      signData_mem hsigned hp
    refine ⟨hbz, ?_⟩
    rw [hsd]
    exact SignedData.carries hkeys (hrange u hu) signature key address

/-! ### The first block of two nodes

Keys are written with the type in unary, a one after it and the raw bytes. The first node has a
signer, the second is a based sequencer.
-/

def unaryKey (key : PubKey) : Except String Bytes :=
  .ok (List.replicate key.keyType 0 ++ 1 :: key.raw)

def unaryWire : Wire :=
  { bareWire with
    unmarshalPublicKey := fun bz =>
      match bz.dropWhile (· = 0) with
      | [] => none
      | _ :: raw => some ⟨(bz.takeWhile (· = 0)).length, raw⟩ }

theorem unaryKeys_roundTrip : KeysRoundTrip unaryWire unaryKey := by
  rintro ⟨keyType, raw⟩
  refine ⟨_, rfl, by simp, ?_⟩
  have hdrop : (List.replicate keyType (0 : UInt8) ++ 1 :: raw).dropWhile (· = 0) = 1 :: raw := by
    rw [List.dropWhile_append_of_pos (by simp)]
    rfl
  have htake : ((List.replicate keyType (0 : UInt8) ++ 1 :: raw).takeWhile (· = 0)).length =
      keyType := by
    simp
  simp only [unaryWire, hdrop, htake]

def firstBatch : BatchData := ⟨⟨[[5]]⟩, 0, []⟩

def firstHeader (pubKey : Option PubKey) : SignedHeader :=
  ⟨⟨1, 0, "sample", ⟨0, 0⟩, [], [0], [], [], [7], none⟩, [], ⟨pubKey, [7]⟩⟩

def basedExecutor : Executor :=
  .new { firstBlockExecutor.config with signer := false, basedSequencer := true }
    Store.empty

theorem firstHeader_inRange (pubKey : Option PubKey) : (firstHeader pubKey).header.InRange := by
  simp [firstHeader, Header.InRange, Version.InRange]

theorem first_block_round_trips :
    firstBlockExecutor.createBlock 1 firstBatch (produceFirst [5]) =
        .ok (firstHeader (some ⟨1, [7]⟩), firstData [5]) ∧
      SignedHeader.RoundTrips unaryWire unaryKey []
        { firstHeader (some ⟨1, [7]⟩) with signature := [9] } := by
  refine ⟨rfl, ((signed_codecs_round_trip_iff unaryKeys_roundTrip).1
    firstBlockExecutor 1 firstBatch (produceFirst [5]) _
    (firstData [5]) rfl (firstHeader_inRange _) [9] [] (.inl rfl) ?_).mpr
    (.inl rfl)⟩
  intro bz hbz
  rw [← ok.inj hbz]
  decide

/-- Without one it comes back without the proposer's address in its signer, which its own checks
ask for. -/
theorem based_block_loses_address :
    basedExecutor.createBlock 1 firstBatch (produceFirst [5]) =
        .ok (firstHeader none, firstData [5]) ∧
      (firstHeader none).signer.address = [7] ∧
      ∃ bz header, marshalBinary unaryKey (firstHeader none) [] = .ok bz ∧
        unmarshalBinary unaryWire.proto bz = some header ∧
        header.signer.address = [] ∧ header.header.proposerAddress = [7] := by
  refine ⟨rfl, rfl, ?_⟩
  obtain ⟨bz, hbz, hdecoded⟩ := carries_binary unaryKeys_roundTrip
    (show (firstHeader none).signer.Caches unaryKey [] from .inl rfl) (firstHeader_inRange none)
    (fun l hl => absurd hl (by simp [firstHeader]))
  refine ⟨bz, _, hbz, hdecoded ?_, rfl, rfl⟩
  rw [← ok.inj hbz]
  decide

end ChainSdk

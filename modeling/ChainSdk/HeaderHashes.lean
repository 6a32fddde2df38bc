/-
What a header hash, a signature over a header and a data commitment stand for.

The legacy layout of a header, written by hand, is read by the generated code and the parser for
unknown fields together: the three hashes it has in between are unknown to the message type, which
collects them at the end.
-/
import ChainSdk.BlockEncoding

namespace ChainSdk

open LegacyHeaderFields List Option

open ProtoWire

/-! ## The legacy layout -/

/-- `ApplyLegacyDefaults`, where an empty hash counts as nil. -/
def Header.applyLegacyDefaults (h : Header) : Header :=
  { h with legacy := some (h.legacy.getD zero).ensureDefaults }

def Header.legacyFields (h : Header) (legacy : LegacyHeaderFields) : List Field :=
  messageField 1 (some (encode h.version.fields)) ++ optionalField 2 (some h.height) ++
    optionalField 3 (some h.time) ++ bytesField 4 h.lastHeaderHash ++
    bytesField 5 legacy.lastCommitHash ++ bytesField 6 h.dataHash ++
    bytesField 7 legacy.consensusHash ++ bytesField 8 h.appHash ++
    bytesField 9 legacy.lastResultsHash ++ bytesField 10 h.proposerAddress ++
    bytesField 11 h.validatorHash ++ stringField 12 h.chainID

theorem Header.marshalBinaryLegacy_eq (h : Header) : h.marshalBinaryLegacy =
    encode (h.legacyFields (h.legacy.getD zero).ensureDefaults) := by
  have hnumber (number v : ℕ) :
      encode (optionalField number (some v)) = tag number 0 ++ varint v := by
    simp [optionalField, varintField, encode, Field.encode]
  simp [legacyFields, marshalBinaryLegacy, encode_append, encode_bytesField, encode_messageField,
    stringField, hnumber]

theorem Header.legacyFields_readBack {h : Header} (hrange : h.InRange)
    (legacy : LegacyHeaderFields) :
    ReadBack (h.legacyFields legacy) HeaderPb.ofFields
      { h with legacy := some legacy }.toProto := by
  intro hfits
  have hversion : submessageAt 1 Version.ofFields (h.legacyFields legacy) = some (some h.version) :=
    submessageAt_of_select hfits (by simp [legacyFields])
      (fun v hv => Version.readBack (some.inj hv ▸ hrange.1))
  have hnumber {number v : ℕ} (hv : v < 2 ^ 64)
      (hselect : select number 0 (h.legacyFields legacy) = optionalField number (some v)) :
      uint64At number (h.legacyFields legacy) = v := by
    rw [uint64At, optionalAt_of_select hselect (by simpa using hv)]
    rfl
  constructor
  · have hwhole : WholeIfFits (h.legacyFields legacy) := by
      repeat' apply WholeIfFits.append
      · exact wholeIfFits_messageField (by decide) _
      · exact wholeIfFits_optionalField (by decide) (by simpa using hrange.2.1)
      · exact wholeIfFits_optionalField (by decide) (by simpa using hrange.2.2)
      all_goals exact wholeIfFits_bytesField (by decide) _
    exact hwhole hfits
  · apply HeaderPb.ofFields_eq hfits
    · exact hversion
    · exact hnumber hrange.2.1 (by simp [legacyFields, toProto])
    · exact hnumber hrange.2.2 (by simp [legacyFields, toProto])
    · simp [HeaderPb.bytesFields, legacyFields, toProto, stringField]
    · rw [toProto, encodeLegacyUnknownFields_eq]
      simp [legacyFields, HeaderPb.known, fields]

theorem LegacyHeaderFields.within_ensureDefaults {legacy : Option LegacyHeaderFields}
    (hwithin : Within legacy) : Within (some (legacy.getD zero).ensureDefaults) := by
  have hgot : Within (some (legacy.getD zero)) := by
    cases legacy with
    | none => simp [Within, zero]
    | some l => exact hwithin
  unfold ensureDefaults
  split_ifs
  · obtain ⟨hcommit, -, hresults⟩ := hgot _ rfl
    intro l hl
    rw [← mem_some.mp hl]
    exact ⟨hcommit, by simp [maxLegacyHashSize], hresults⟩
  · exact hgot

theorem LegacyHeaderFields.consensusHash_ensureDefaults (l : LegacyHeaderFields) :
    l.ensureDefaults.consensusHash ≠ [] := by
  unfold ensureDefaults
  split_ifs with hnil
  · simp
  · exact hnil

theorem Header.isZero_applyLegacyDefaults (h : Header) :
    isZero h.applyLegacyDefaults.legacy = false := by
  have hconsensus := (h.legacy.getD zero).consensusHash_ensureDefaults
  rw [Bool.eq_false_iff]
  intro hzero
  rw [applyLegacyDefaults, isZero_iff] at hzero
  exact hconsensus (by rw [hzero]; rfl)

theorem Header.marshalBinaryLegacy_applyLegacyDefaults (h : Header) :
    h.applyLegacyDefaults.marshalBinaryLegacy = h.marshalBinaryLegacy := by
  have hconsensus := (h.legacy.getD zero).consensusHash_ensureDefaults
  have hidem : ∀ l : LegacyHeaderFields, l.consensusHash ≠ [] → l.ensureDefaults = l :=
    fun l hl => if_neg hl
  rw [marshalBinaryLegacy_eq, marshalBinaryLegacy_eq, applyLegacyDefaults, getD_some,
    hidem _ hconsensus]
  rfl

theorem Header.unmarshalBinary_marshalBinaryLegacy (w : Wire) {h : Header} (hrange : h.InRange)
    (hwithin : LegacyHeaderFields.Within h.legacy) (hfits : h.marshalBinaryLegacy.length < 2 ^ 63) :
    unmarshalBinary w.withLegacyFields h.marshalBinaryLegacy = some h.applyLegacyDefaults := by
  have hcanonical : h.applyLegacyDefaults.canonical = h.applyLegacyDefaults := by
    rw [canonical, LegacyHeaderFields.canonical, isZero_applyLegacyDefaults]
    rfl
  rw [marshalBinaryLegacy_eq] at hfits ⊢
  rw [unmarshalBinary, (legacyFields_readBack hrange _).unmarshal hfits, bind_some]
  exact (fromProto_toProto w (within_ensureDefaults hwithin)).trans
    (congrArg some hcanonical)

/-- The legacy layout is read as the header with the defaults applied, which is written as it was
read and hashed as it was written. -/
theorem legacy_layout_faithful (w : Wire) (sha256 : Bytes → Hash) {h : Header} (hrange : h.InRange)
    (hwithin : LegacyHeaderFields.Within h.legacy) (hfits : h.marshalBinaryLegacy.length < 2 ^ 63) :
    ∃ h', Header.unmarshalBinary w.withLegacyFields h.marshalBinaryLegacy = some h' ∧
      h' = h.applyLegacyDefaults ∧ h'.marshalBinaryLegacy = h.marshalBinaryLegacy ∧
      (wireCodec sha256).headerHash h' = sha256 h.marshalBinaryLegacy := by
  refine ⟨h.applyLegacyDefaults, Header.unmarshalBinary_marshalBinaryLegacy w hrange hwithin hfits,
    rfl, h.marshalBinaryLegacy_applyLegacyDefaults, ?_⟩
  rw [← h.marshalBinaryLegacy_applyLegacyDefaults, Codec.headerHash, h.isZero_applyLegacyDefaults]
  rfl

theorem legacy_layout_faithful_of_zero :
    let h : Header := ⟨0, 0, "c", ⟨11, 1⟩, [1], [2], [], [4], [5], some ⟨[6], [], []⟩⟩
    ∃ h', Header.unmarshalBinary bareWire.withLegacyFields h.marshalBinaryLegacy = some h' ∧
      h' = h.applyLegacyDefaults ∧ h'.marshalBinaryLegacy = h.marshalBinaryLegacy ∧
      (wireCodec id).headerHash h' = h.marshalBinaryLegacy := by
  intro h
  apply legacy_layout_faithful bareWire id
  · simp [Header.InRange, Version.InRange, h]
  · simp [LegacyHeaderFields.Within, maxLegacyHashSize, h]
  · decide

/-! ## What a signature fits -/

/-- The fields are in range, the legacy hashes are of the size that is read, and both layouts have
the length of a Go slice. -/
structure Header.Encodable (h : Header) : Prop where
  inRange : h.InRange
  within : LegacyHeaderFields.Within h.legacy
  slim_fits : h.marshalBinary.length < 2 ^ 63
  legacy_fits : h.marshalBinaryLegacy.length < 2 ^ 63

/-- The fields of a header apart from 7 and 10. -/
def otherKinds : List (ℕ × ℕ) :=
  [(1, 2), (2, 0), (3, 0), (4, 2), (5, 2), (6, 2), (8, 2), (9, 2), (11, 2), (12, 2)]

theorem Header.Encodable.marshalBinary_ne {h h' : Header} (he : h.Encodable) (he' : h'.Encodable)
    (hproposer : h.proposerAddress ≠ []) : h.marshalBinary ≠ h'.marshalBinaryLegacy := by
  intro heq
  have hconsensus := (h'.legacy.getD zero).consensusHash_ensureDefaults
  have hslim := he.slim_fits
  have hlegacy := he'.legacy_fits
  rw [Header.marshalBinary_eq] at heq hslim
  rw [Header.marshalBinaryLegacy_eq] at heq hlegacy
  have hparse := parse_encode (Header.readBack he.inRange hslim).1
  rw [heq, parse_encode (Header.legacyFields_readBack he'.inRange _ hlegacy).1] at hparse
  have hfields := congrArg (unknownFields otherKinds) (some.inj hparse)
  simp only [unknownFields_append, Header.legacyFields, HeaderPb.fields, Header.toProto] at hfields
  simp [otherKinds] at hfields
  simp [bytesField, hconsensus, hproposer, recordField] at hfields

theorem SignedHeader.validateBasicWithData_payload {w : Wire} {c : Codec} {now : Time}
    {sh : SignedHeader} {data : Data} {key : PubKey} (hkey : sh.signer.pubKey = some key)
    (h : sh.validateBasicWithData w c (defaultSignatureProvider c) now data = .ok ()) :
    sh.header.proposerAddress ≠ [] ∧
      (w.verify key (c.headerBytes sh.header) sh.signature = .ok true ∨
        w.verify key (c.headerBytesLegacy sh.header) sh.signature = .ok true) := by
  unfold validateBasicWithData at h
  rcases hbasic : sh.header.validateBasic now with e | _
  · simp [hbasic] at h
  have hproposer : sh.header.proposerAddress ≠ [] := by
    rintro hnil
    simp [Header.validateBasic, hnil] at hbasic
  refine ⟨hproposer, ?_⟩
  rw [hbasic] at h
  dsimp only at h
  split_ifs at h
  rw [hkey] at h
  obtain ⟨payload, hpayload, hverify⟩ := tryPayloads_ok h
  simp only [mem_cons, not_mem_nil, or_false] at hpayload
  rcases hpayload with rfl | rfl | rfl
  · exact .inl hverify
  · exact .inl hverify
  · exact .inr hverify

theorem Header.Encodable.headerHash_congr (sha256 : Bytes → Hash) {h h' : Header}
    (he : h.Encodable) (he' : h'.Encodable)
    (hbytes : h.marshalBinaryLegacy = h'.marshalBinaryLegacy)
    (hzero : isZero h.legacy = isZero h'.legacy) :
    (wireCodec sha256).headerHash h = (wireCodec sha256).headerHash h' := by
  rcases hpresent : isZero h'.legacy with _ | _
  · rw [Codec.headerHash, Codec.headerHash, hzero, hpresent]
    exact congrArg sha256 hbytes
  have hread := Header.unmarshalBinary_marshalBinaryLegacy bareWire he.inRange he.within
    he.legacy_fits
  rw [hbytes, Header.unmarshalBinary_marshalBinaryLegacy bareWire he'.inRange he'.within
    he'.legacy_fits] at hread
  have hsame := congrArg (fun h : Header => { h with legacy := none }) (some.inj hread)
  rw [← headerHash_canonical, ← headerHash_canonical sha256 h', Header.canonical,
    Header.canonical, LegacyHeaderFields.canonical, LegacyHeaderFields.canonical, hzero, hpresent]
  exact congrArg (wireCodec sha256).headerHash hsame.symm

/-- Two headers one signature is accepted for have one hash exactly if both or none of them have a
legacy hash. -/
theorem one_signature_one_hash_iff {w : Wire} {sha256 : Bytes → Hash}
    (hsha256 : Function.Injective sha256) {key : PubKey} {signature : Signature}
    (hunique : ∀ payload payload', w.verify key payload signature = .ok true →
      w.verify key payload' signature = .ok true → payload = payload')
    {sh₁ sh₂ : SignedHeader} (hkey₁ : sh₁.signer.pubKey = some key)
    (hkey₂ : sh₂.signer.pubKey = some key) (hsignature₁ : sh₁.signature = signature)
    (hsignature₂ : sh₂.signature = signature) (he₁ : sh₁.header.Encodable)
    (he₂ : sh₂.header.Encodable) {now₁ now₂ : Time} {data₁ data₂ : Data}
    (h₁ : sh₁.validateBasicWithData w (wireCodec sha256)
      (defaultSignatureProvider (wireCodec sha256)) now₁ data₁ = .ok ())
    (h₂ : sh₂.validateBasicWithData w (wireCodec sha256)
      (defaultSignatureProvider (wireCodec sha256)) now₂ data₂ = .ok ()) :
    (wireCodec sha256).headerHash sh₁.header = (wireCodec sha256).headerHash sh₂.header ↔
      LegacyHeaderFields.isZero sh₁.header.legacy =
        LegacyHeaderFields.isZero sh₂.header.legacy := by
  obtain ⟨hproposer₁, hverify₁⟩ := SignedHeader.validateBasicWithData_payload hkey₁ h₁
  obtain ⟨hproposer₂, hverify₂⟩ := SignedHeader.validateBasicWithData_payload hkey₂ h₂
  rw [hsignature₁] at hverify₁
  rw [hsignature₂] at hverify₂
  have hslim_ne := he₁.marshalBinary_ne he₂ hproposer₁
  have hslim_ne' := he₂.marshalBinary_ne he₁ hproposer₂
  rcases hverify₁ with hslim₁ | hlegacy₁
  · rcases hverify₂ with hslim₂ | hlegacy₂
    · -- the slim layout has the legacy hashes in it
      have hbytes : sh₁.header.marshalBinary = sh₂.header.marshalBinary :=
        hunique _ _ hslim₁ hslim₂
      have hread := Header.unmarshalBinary_marshalBinary bareWire he₁.inRange he₁.slim_fits
        he₁.within
      rw [hbytes, Header.unmarshalBinary_marshalBinary bareWire he₂.inRange he₂.slim_fits
        he₂.within] at hread
      have hcanonical := Option.some.inj hread
      have hzero (h : Header) : LegacyHeaderFields.isZero h.canonical.legacy =
          LegacyHeaderFields.isZero h.legacy := by
        unfold Header.canonical canonical
        split_ifs with hz
        · exact hz.symm
        · rfl
      rw [← headerHash_canonical, ← headerHash_canonical sha256 sh₂.header, ← hzero,
        ← hzero sh₂.header, hcanonical]
      exact iff_of_true rfl rfl
    · exact absurd (hunique _ _ hslim₁ hlegacy₂) hslim_ne
  · rcases hverify₂ with hslim₂ | hlegacy₂
    · exact absurd (hunique _ _ hslim₂ hlegacy₁) hslim_ne'
    refine ⟨fun hhash => ?_, he₁.headerHash_congr sha256 he₂ (hunique _ _ hlegacy₁ hlegacy₂)⟩
    by_contra hne
    unfold Codec.headerHash at hhash
    rcases hz₁ : LegacyHeaderFields.isZero sh₁.header.legacy with _ | _
    · rw [hz₁, Bool.eq_true_of_not_eq_false fun hz₂ => hne (hz₁.trans hz₂.symm)] at hhash
      exact hslim_ne' (hsha256 hhash).symm
    · rw [hz₁, Bool.eq_false_of_not_eq_true fun hz₂ => hne (hz₁.trans hz₂.symm)] at hhash
      exact hslim_ne (hsha256 hhash)

def plainWire : Wire :=
  { bareWire with verify := fun _ payload signature => .ok (decide (payload = signature)) }

def signedHeader (legacy : Option LegacyHeaderFields) : SignedHeader :=
  let h : Header := ⟨3, 70, "c", ⟨11, 1⟩, [1], [2], [3], [4], [5], legacy⟩
  { header := h, signature := h.marshalBinaryLegacy, signer := ⟨some ⟨1, [9]⟩, [5]⟩ }

def PlainAccepted (sh : SignedHeader) : Prop :=
  sh.validateBasicWithData plainWire (wireCodec id) (defaultSignatureProvider (wireCodec id)) 0
    ⟨none, []⟩ = .ok ()

theorem signedHeader_none_encodable : (signedHeader none).header.Encodable :=
  ⟨by simp [Header.InRange, Version.InRange, signedHeader],
    by simp [LegacyHeaderFields.Within, signedHeader], by decide, by decide⟩

theorem one_signature_one_hash_of_zero :
    (wireCodec id).headerHash (signedHeader none).header =
      (wireCodec id).headerHash (signedHeader (some .zero)).header := by
  have hunique : ∀ payload payload', plainWire.verify ⟨1, [9]⟩ payload
      (signedHeader none).signature = .ok true → plainWire.verify ⟨1, [9]⟩ payload'
        (signedHeader none).signature = .ok true → payload = payload' := by
    intro payload payload' h h'
    simp only [plainWire, Except.ok.injEq, decide_eq_true_eq] at h h'
    rw [h, h']
  have he : (signedHeader (some .zero)).header.Encodable :=
    ⟨by simp [Header.InRange, Version.InRange, signedHeader],
      by simp [LegacyHeaderFields.Within, zero, signedHeader], by decide,
      by decide⟩
  have hsignature : (signedHeader (some .zero)).signature = (signedHeader none).signature := by
    decide
  have haccepted : PlainAccepted (signedHeader none) := by unfold PlainAccepted; decide
  have haccepted' : PlainAccepted (signedHeader (some .zero)) := by unfold PlainAccepted; decide
  exact (one_signature_one_hash_iff Function.injective_id hunique rfl rfl rfl hsignature
    signedHeader_none_encodable he haccepted haccepted').mpr rfl

/-- The header without legacy hashes and the one with the default filled in: one signature is
accepted for both, and they have different hashes. -/
theorem two_hashes_for_one_signature :
    let sh₁ := signedHeader none
    let sh₂ := signedHeader (some ⟨[], List.replicate 32 0, []⟩)
    sh₁.signer = sh₂.signer ∧ sh₁.signature = sh₂.signature ∧ PlainAccepted sh₁ ∧
      PlainAccepted sh₂ ∧
      sh₁.header.Encodable ∧ sh₂.header.Encodable ∧
      (wireCodec id).headerHash sh₁.header ≠ (wireCodec id).headerHash sh₂.header := by
  refine ⟨rfl, by decide, ?_, ?_, signedHeader_none_encodable, ⟨?_, ?_, ?_, ?_⟩, by decide⟩
  · unfold PlainAccepted
    decide
  · unfold PlainAccepted
    decide
  · simp [Header.InRange, Version.InRange, signedHeader]
  · simp [LegacyHeaderFields.Within, maxLegacyHashSize, signedHeader]
  · decide
  · decide

/-! ## What a commitment fits -/

theorem daCommitment_eq_iff {sha256 : Bytes → Hash} (hsha256 : Function.Injective sha256)
    {txs txs' : List Tx} (hfits : (Data.marshalBinary ⟨none, txs⟩).length < 2 ^ 63)
    (hfits' : (Data.marshalBinary ⟨none, txs'⟩).length < 2 ^ 63) :
    (wireCodec sha256).daCommitment txs = (wireCodec sha256).daCommitment txs' ↔ txs = txs' := by
  refine ⟨fun heq => ?_, fun heq => by rw [heq]⟩
  have hbytes : Data.marshalBinary ⟨none, txs⟩ = Data.marshalBinary ⟨none, txs'⟩ :=
    (cons.inj (hsha256 heq)).2
  have hread := Data.unmarshalBinary_marshalBinary (d := ⟨none, txs⟩) (by simp [Data.InRange]) hfits
  rw [hbytes, Data.unmarshalBinary_marshalBinary (d := ⟨none, txs'⟩) (by simp [Data.InRange])
    hfits'] at hread
  exact (congrArg Data.txs (some.inj hread)).symm

/-- The commitment of data, whatever its metadata, is that of its transactions, in their order and
with the empty ones; it is `DataHashForEmptyTxs`, which is the hash of the leaf prefix alone,
exactly if there are none. So a header determines the transactions of the data that fit it. -/
theorem daCommitment_binds_txs {sha256 : Bytes → Hash} (hsha256 : Function.Injective sha256)
    (hempty : sha256 [0] = dataHashForEmptyTxs) {d₁ d₂ : Data}
    (hfits₁ : d₁.marshalBinary.length < 2 ^ 63) (hfits₂ : d₂.marshalBinary.length < 2 ^ 63) :
    ((wireCodec sha256).daCommitment d₁.txs = (wireCodec sha256).daCommitment d₂.txs ↔
      d₁.txs = d₂.txs) ∧
    ((wireCodec sha256).daCommitment d₁.txs = dataHashForEmptyTxs ↔ d₁.txs = []) ∧
    ∀ header, validate (wireCodec sha256) header d₁ = .ok () →
      validate (wireCodec sha256) header d₂ = .ok () → d₁.txs = d₂.txs := by
  have hpruned (d : Data) (hfits : d.marshalBinary.length < 2 ^ 63) :
      (Data.marshalBinary ⟨none, d.txs⟩).length < 2 ^ 63 := by
    refine Nat.lt_of_le_of_lt ?_ hfits
    rw [Data.marshalBinary_eq, Data.marshalBinary_eq, Data.fields, Data.fields, encode_append,
      encode_append, length_append, length_append]
    exact Nat.add_le_add_right (Nat.zero_le _) _
  have hiff := daCommitment_eq_iff hsha256 (hpruned d₁ hfits₁) (hpruned d₂ hfits₂)
  have hnil : (wireCodec sha256).daCommitment [] = dataHashForEmptyTxs := hempty
  refine ⟨hiff, ?_, fun header h₁ h₂ => hiff.mp ?_⟩
  · rw [← hnil]
    exact daCommitment_eq_iff hsha256 (hpruned d₁ hfits₁) (by decide)
  · rw [(validate_ok h₁).1, (validate_ok h₂).1]

theorem daCommitment_binds_empty_txs :
    let c := wireCodec (Equiv.swap [0] dataHashForEmptyTxs)
    c.daCommitment [[1], []] ≠ c.daCommitment [[], [1]] ∧
      c.daCommitment [[]] ≠ dataHashForEmptyTxs := by
  have hbinds (txs txs' : List Tx) (hfits : (Data.marshalBinary ⟨none, txs⟩).length < 2 ^ 63)
      (hfits' : (Data.marshalBinary ⟨none, txs'⟩).length < 2 ^ 63) :=
    daCommitment_binds_txs (Equiv.swap [0] dataHashForEmptyTxs).injective
      (Equiv.swap_apply_left _ _) hfits hfits'
  refine ⟨fun heq => ?_, fun heq => ?_⟩
  · have htxs := (hbinds [[1], []] [[], [1]] (by decide) (by decide)).1.mp heq
    simp at htxs
  · have htxs := (hbinds [[]] [] (by decide) (by decide)).2.1.mp heq
    simp at htxs

end ChainSdk

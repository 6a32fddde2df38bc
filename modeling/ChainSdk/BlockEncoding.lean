/-
The binary encodings of headers, metadata, data and the chain state, `types/serialization.go`, and
the hashes taken over them, `types/hashing.go`.

Each type is converted to its protobuf message and that message is marshalled; a message is the list
of its fields here. What a header has beyond its message are the three hashes of the time before
headers were cut down.
-/
import ChainSdk.BlobSizes
import ChainSdk.ProtoReader

namespace ChainSdk

open Header LegacyHeaderFields List Option ProtoWire

/-! ## The messages -/

/-- `google.protobuf.Timestamp`. -/
structure TimestampPb where
  seconds : ℤ
  nanos : ℤ
  deriving DecidableEq

structure StatePb where
  version : Option Version
  chainId : String
  initialHeight : ℕ
  lastBlockHeight : ℕ
  lastBlockTime : Option TimestampPb
  daHeight : ℕ
  appHash : Bytes
  lastHeaderHash : Bytes
  deriving DecidableEq

def Version.fields (v : Version) : List Field := uint64Field 1 v.block ++ uint64Field 2 v.app

section

variable (fs : List Field)

def Version.ofFields : Option Version := some ⟨uint64At 1 fs, uint64At 2 fs⟩

def Metadata.fields (m : Metadata) : List Field :=
  stringField 1 m.chainID ++ uint64Field 2 m.height ++ uint64Field 3 m.time ++
    bytesField 4 m.lastDataHash

def Metadata.ofFields : Option Metadata :=
  (stringAt 1 fs).map (fun chainID => ⟨chainID, uint64At 2 fs, uint64At 3 fs, bytesAt 4 fs⟩)

def Data.fields (d : Data) : List Field :=
  messageField 1 ((d.metadata.map Metadata.fields).map encode) ++
    d.txs.map (recordField 2)

def Data.ofFields : Option Data :=
  (submessageAt 1 Metadata.ofFields fs).map (fun metadata => ⟨metadata, repeatedAt 2 fs⟩)

def HeaderPb.fields (h : HeaderPb) : List Field :=
  messageField 1 ((h.version.map Version.fields).map encode) ++
    uint64Field 2 h.height ++ uint64Field 3 h.time ++ bytesField 4 h.lastHeaderHash ++
    bytesField 6 h.dataHash ++ bytesField 8 h.appHash ++ bytesField 10 h.proposerAddress ++
    bytesField 11 h.validatorHash ++ stringField 12 h.chainId

/-- The numbers and wire types of these fields. -/
def HeaderPb.known : List (ℕ × ℕ) :=
  [(1, 2), (2, 0), (3, 0), (4, 2), (6, 2), (8, 2), (10, 2), (11, 2), (12, 2)]

def HeaderPb.marshal (h : HeaderPb) : Bytes := encode h.fields ++ h.unknown

def HeaderPb.ofFields : Option HeaderPb :=
  (submessageAt 1 Version.ofFields fs).bind (fun version =>
    (stringAt 12 fs).map (fun chainId =>
      { version := version
        height := uint64At 2 fs
        time := uint64At 3 fs
        lastHeaderHash := bytesAt 4 fs
        dataHash := bytesAt 6 fs
        appHash := bytesAt 8 fs
        proposerAddress := bytesAt 10 fs
        validatorHash := bytesAt 11 fs
        chainId := chainId
        unknown := encode (unknownFields HeaderPb.known fs) }))

def TimestampPb.fields (t : TimestampPb) : List Field := intField 1 t.seconds ++ intField 2 t.nanos

def TimestampPb.ofFields : Option TimestampPb :=
  some ⟨int64At 1 fs, int32At 2 fs⟩

def StatePb.fields (s : StatePb) : List Field :=
  messageField 1 ((s.version.map Version.fields).map encode) ++
    stringField 2 s.chainId ++ uint64Field 3 s.initialHeight ++
    uint64Field 4 s.lastBlockHeight ++
    messageField 5 ((s.lastBlockTime.map TimestampPb.fields).map encode) ++
    uint64Field 6 s.daHeight ++ bytesField 8 s.appHash ++ bytesField 9 s.lastHeaderHash

def StatePb.ofFields : Option StatePb :=
  (submessageAt 1 Version.ofFields fs).bind (fun version =>
    (stringAt 2 fs).bind (fun chainId =>
      (submessageAt 5 TimestampPb.ofFields fs).map (fun lastBlockTime =>
        { version := version
          chainId := chainId
          initialHeight := uint64At 3 fs
          lastBlockHeight := uint64At 4 fs
          lastBlockTime := lastBlockTime
          daHeight := uint64At 6 fs
          appHash := bytesAt 8 fs
          lastHeaderHash := bytesAt 9 fs })))

end

/-! ## The fields of the time before -/

def maxUnknownFieldSize : ℕ := 1024 * 1024

def maxLegacyHashSize : ℕ := 1024

inductive LegacyError
  /-- `protowire.ParseError`. -/
  | parse
  /-- "unknown fields too large: %d bytes (max %d)". -/
  | unknownTooLarge (size : ℕ)
  /-- "legacy hash field %d too large: %d bytes (max %d)". -/
  | hashTooLarge (field size : ℕ)
  deriving DecidableEq

namespace LegacyHeaderFields

def zero : LegacyHeaderFields := ⟨[], [], []⟩

def set (l : LegacyHeaderFields) (field : ℕ) (value : Hash) : LegacyHeaderFields :=
  if field = 5 then { l with lastCommitHash := value }
  else if field = 7 then { l with consensusHash := value }
  else { l with lastResultsHash := value }

def decodeLoop : ℕ → Bytes → LegacyHeaderFields → Except LegacyError LegacyHeaderFields
  | _, [], legacy => .ok legacy
  | 0, _ :: _, _ => .error .parse
  | fuel + 1, b :: bz, legacy =>
    match consumeTag (b :: bz) with
    | none => .error .parse
    | some (field, wireType, unknown) =>
      if field ∈ [5, 7, 9] ∧ wireType = 2 then
        match consumeBytes unknown with
        | none => .error .parse
        | some (value, unknown) =>
          if maxLegacyHashSize < value.length then
            .error (.hashTooLarge field value.length)
          else decodeLoop fuel unknown (legacy.set field value)
      -- other fields, and these with another wire type, are passed over
      else
        match skipValue field wireType unknown with
        | none => .error .parse
        | some unknown => decodeLoop fuel unknown legacy

def decodeLegacyHeaderFields (unknown : Bytes) : Except LegacyError (Option LegacyHeaderFields) :=
  if unknown.length = 0 then .ok none
  else if maxUnknownFieldSize < unknown.length then .error (.unknownTooLarge unknown.length)
  else
    match decodeLoop unknown.length unknown zero with
    | .error e => .error e
    | .ok legacy => .ok (if isZero (some legacy) then none else some legacy)

def encodeLegacyUnknownFields (legacy : Option LegacyHeaderFields) : Bytes :=
  match legacy with
  | none => []
  | some l =>
    if isZero (some l) then []
    else bytes 5 l.lastCommitHash ++ bytes 7 l.consensusHash ++
      bytes 9 l.lastResultsHash

def ensureDefaults (l : LegacyHeaderFields) : LegacyHeaderFields :=
  if l.consensusHash = [] then { l with consensusHash := List.replicate 32 0 } else l

end LegacyHeaderFields

/-! ## The codecs -/

def Wire.withLegacyFields (w : Wire) : Wire :=
  { w with legacyHeaderFields := fun unknown =>
      (decodeLegacyHeaderFields unknown).toOption }

def Header.toProto (h : Header) : HeaderPb where
  version := some h.version
  height := h.height
  time := h.time
  lastHeaderHash := h.lastHeaderHash
  dataHash := h.dataHash
  appHash := h.appHash
  proposerAddress := h.proposerAddress
  validatorHash := h.validatorHash
  chainId := h.chainID
  unknown := encodeLegacyUnknownFields h.legacy

def Header.marshalBinary (h : Header) : Bytes := h.toProto.marshal

def Header.unmarshalBinary (w : Wire) (bz : Bytes) : Option Header :=
  ((parse bz).bind HeaderPb.ofFields).bind (fromProto w)

def Header.marshalBinaryLegacy (h : Header) : Bytes :=
  let legacy := (h.legacy.getD zero).ensureDefaults
  record 1 (encode h.version.fields) ++
    tag 2 0 ++ varint h.height ++ tag 3 0 ++
    varint h.time ++ bytes 4 h.lastHeaderHash ++
    bytes 5 legacy.lastCommitHash ++ bytes 6 h.dataHash ++
    bytes 7 legacy.consensusHash ++ bytes 8 h.appHash ++
    bytes 9 legacy.lastResultsHash ++ bytes 10 h.proposerAddress ++
    bytes 11 h.validatorHash ++ bytes 12 (utf8 h.chainID)

def Metadata.unmarshalBinary (bz : Bytes) : Option Metadata :=
  (parse bz).bind Metadata.ofFields

def Data.unmarshalBinary (bz : Bytes) : Option Data := (parse bz).bind Data.ofFields

def second : Time := 1000000000

/-- `Unix` and `Nanosecond` of a time. -/
def timestampOf (t : Time) : TimestampPb := ⟨t / second, t % second⟩

def TimestampPb.asTime (t : TimestampPb) : Time := t.seconds * second + t.nanos

/-- `CheckValid`: from the year 1 to the year 9999. -/
def TimestampPb.IsValid (t : TimestampPb) : Prop :=
  -62135596800 ≤ t.seconds ∧ t.seconds ≤ 253402300799 ∧ 0 ≤ t.nanos ∧ t.nanos < second

def State.toProto (s : State) : StatePb where
  version := some s.version
  chainId := s.chainID
  initialHeight := s.initialHeight
  lastBlockHeight := s.lastBlockHeight
  lastBlockTime := some (timestampOf s.lastBlockTime)
  daHeight := s.daHeight
  appHash := s.appHash
  lastHeaderHash := s.lastHeaderHash

def State.fromProto (other : StatePb) : State where
  version := other.version.getD ⟨0, 0⟩
  chainID := other.chainId
  initialHeight := other.initialHeight
  lastBlockHeight := other.lastBlockHeight
  lastBlockTime := (other.lastBlockTime.map TimestampPb.asTime).getD zeroTime
  appHash := other.appHash
  lastHeaderHash := other.lastHeaderHash
  daHeight := other.daHeight

def State.marshal (s : State) : Bytes := encode s.toProto.fields

def State.unmarshal (bz : Bytes) : Option State :=
  ((parse bz).bind StatePb.ofFields).map State.fromProto

def wireCodec (sha256 : Bytes → Hash) : Codec where
  headerBytes := marshalBinary
  headerBytesLegacy := marshalBinaryLegacy
  dataBytes := Data.marshalBinary
  sha256 := sha256

/-! ## Messages are read as they were written -/

variable (w : Wire) {d : Data} {m : Metadata} {l : LegacyHeaderFields}
  (legacy : Option LegacyHeaderFields)

section Messages

/-- The `uint64` fields of a version hold such numbers; so below. -/
def Version.InRange (v : Version) : Prop := v.block < 2 ^ 64 ∧ v.app < 2 ^ 64

def Metadata.InRange (m : Metadata) : Prop := m.height < 2 ^ 64 ∧ m.time < 2 ^ 64

def Data.InRange (d : Data) : Prop := ∀ m ∈ d.metadata, m.InRange

def HeaderPb.InRange (h : HeaderPb) : Prop :=
  (∀ v ∈ h.version, v.InRange) ∧ h.height < 2 ^ 64 ∧ h.time < 2 ^ 64

def TimestampPb.InRange (t : TimestampPb) : Prop :=
  -2 ^ 63 ≤ t.seconds ∧ t.seconds < 2 ^ 63 ∧ -2 ^ 31 ≤ t.nanos ∧ t.nanos < 2 ^ 31

def StatePb.InRange (s : StatePb) : Prop :=
  (∀ v ∈ s.version, v.InRange) ∧ (∀ t ∈ s.lastBlockTime, t.InRange) ∧
    s.initialHeight < 2 ^ 64 ∧ s.lastBlockHeight < 2 ^ 64 ∧ s.daHeight < 2 ^ 64

theorem Version.readBack {v : Version} (hv : v.InRange) : ReadBack v.fields ofFields v := by
  intro hfits
  have hblock : uint64At 1 v.fields = v.block := uint64At_of_select (by simp [fields]) hv.1
  have happ : uint64At 2 v.fields = v.app := uint64At_of_select (by simp [fields]) hv.2
  refine ⟨?_, by rw [ofFields, hblock, happ]⟩
  have hwhole : WholeIfFits v.fields :=
    (wholeIfFits_uint64Field (by decide) hv.1).append (wholeIfFits_uint64Field (by decide) hv.2)
  exact hwhole hfits

theorem Metadata.readBack (hm : m.InRange) : ReadBack m.fields ofFields m := by
  intro hfits
  have hchain : stringAt 1 m.fields = some m.chainID :=
    stringAt_of_select hfits (by simp [fields])
  have hheight : uint64At 2 m.fields = m.height := uint64At_of_select (by simp [fields]) hm.1
  have htime : uint64At 3 m.fields = m.time := uint64At_of_select (by simp [fields]) hm.2
  have hlast : bytesAt 4 m.fields = m.lastDataHash := bytesAt_of_select hfits (by simp [fields])
  refine ⟨?_, by rw [ofFields, hchain, hheight, htime, hlast, map_some]⟩
  have hwhole : WholeIfFits m.fields := by
    repeat' apply WholeIfFits.append
    · exact wholeIfFits_bytesField (by decide) _
    · exact wholeIfFits_uint64Field (by decide) hm.1
    · exact wholeIfFits_uint64Field (by decide) hm.2
    · exact wholeIfFits_bytesField (by decide) _
  exact hwhole hfits

theorem Data.readBack (hd : d.InRange) : ReadBack d.fields ofFields d := by
  intro hfits
  have hmetadata : submessageAt 1 Metadata.ofFields d.fields = some d.metadata :=
    submessageAt_of_select hfits (by simp [fields]) (fun m hm => Metadata.readBack (hd m hm))
  have htxs : repeatedAt 2 d.fields = d.txs := repeatedAt_of_select hfits (by simp [fields])
  refine ⟨?_, by rw [ofFields, hmetadata, htxs, map_some]⟩
  have hwhole : WholeIfFits d.fields :=
    (wholeIfFits_messageField (by decide) _).append (wholeIfFits_records (by decide) _)
  exact hwhole hfits

def HeaderPb.bytesFields (h : HeaderPb) : List (ℕ × Bytes) :=
  [(4, h.lastHeaderHash), (6, h.dataHash), (8, h.appHash), (10, h.proposerAddress),
    (11, h.validatorHash), (12, utf8 h.chainId)]

theorem HeaderPb.ofFields_eq {h : HeaderPb} {fs : List Field} (hfits : Fits fs)
    (hversion : submessageAt 1 Version.ofFields fs = some h.version)
    (hheight : uint64At 2 fs = h.height) (htime : uint64At 3 fs = h.time)
    (hbytes : ∀ p ∈ h.bytesFields, select p.1 2 fs = bytesField p.1 p.2)
    (hunknown : encode (unknownFields known fs) = h.unknown) : ofFields fs = some h := by
  simp only [bytesFields, forall_mem_cons] at hbytes
  obtain ⟨hlast, hdata, happ, hproposer, hvalidator, hchain, -⟩ := hbytes
  rw [ofFields, hversion, bind_some, stringAt_of_select hfits hchain, map_some,
    hheight, htime, bytesAt_of_select hfits hlast, bytesAt_of_select hfits hdata,
    bytesAt_of_select hfits happ, bytesAt_of_select hfits hproposer,
    bytesAt_of_select hfits hvalidator, hunknown]

theorem HeaderPb.readBack {h : HeaderPb} (hrange : h.InRange) {gs : List Field}
    (hwholeGs : WholeIfFits gs) (hgs : unknownFields known gs = gs)
    (hunknown : h.unknown = encode gs) : ReadBack (h.fields ++ gs) ofFields h := by
  intro hfits
  have hnone : ∀ p ∈ known, select p.1 p.2 gs = [] := fun p hp => select_of_unknown hgs hp
  simp only [known, forall_mem_cons] at hnone
  constructor
  · have hwhole : WholeIfFits h.fields := by
      repeat' apply WholeIfFits.append
      · exact wholeIfFits_messageField (by decide) _
      · exact wholeIfFits_uint64Field (by decide) hrange.2.1
      · exact wholeIfFits_uint64Field (by decide) hrange.2.2
      all_goals exact wholeIfFits_bytesField (by decide) _
    exact (hwhole.append hwholeGs) hfits
  · apply ofFields_eq hfits
    · exact submessageAt_of_select hfits (by simp [fields, hnone])
        (fun v hv => Version.readBack (hrange.1 v hv))
    · exact uint64At_of_select (by simp [fields, hnone]) hrange.2.1
    · exact uint64At_of_select (by simp [fields, hnone]) hrange.2.2
    · simp [bytesFields, fields, stringField, hnone]
    · rw [unknownFields_append, hgs, hunknown]
      simp [fields, known]

theorem TimestampPb.readBack {t : TimestampPb} (ht : t.InRange) :
    ReadBack t.fields ofFields t := by
  intro hfits
  obtain ⟨hlow, hhigh, hnanosLow, hnanosHigh⟩ := ht
  have hseconds : int64At 1 t.fields = t.seconds :=
    int64At_of_select (by simp [fields]) hlow hhigh
  have hnanos : int32At 2 t.fields = t.nanos :=
    int32At_of_select (by simp [fields]) hnanosLow hnanosHigh
  refine ⟨?_, by rw [ofFields, hseconds, hnanos]⟩
  have hwhole : WholeIfFits t.fields :=
    (wholeIfFits_uint64Field (by decide) (by omega)).append
      (wholeIfFits_uint64Field (by decide) (by omega))
  exact hwhole hfits

theorem StatePb.readBack {s : StatePb} (hrange : s.InRange) : ReadBack s.fields ofFields s := by
  intro hfits
  obtain ⟨hversion, htime, hinitial, hlast, hda⟩ := hrange
  have hversionAt : submessageAt 1 Version.ofFields s.fields = some s.version :=
    submessageAt_of_select hfits (by simp [fields]) (fun v hv => Version.readBack (hversion v hv))
  have htimeAt : submessageAt 5 TimestampPb.ofFields s.fields = some s.lastBlockTime :=
    submessageAt_of_select hfits (by simp [fields]) (fun t ht => TimestampPb.readBack (htime t ht))
  have hchain : stringAt 2 s.fields = some s.chainId :=
    stringAt_of_select hfits (by simp [fields])
  have hinitialAt : uint64At 3 s.fields = s.initialHeight :=
    uint64At_of_select (by simp [fields]) hinitial
  have hlastAt : uint64At 4 s.fields = s.lastBlockHeight :=
    uint64At_of_select (by simp [fields]) hlast
  have hdaAt : uint64At 6 s.fields = s.daHeight := uint64At_of_select (by simp [fields]) hda
  have happ : bytesAt 8 s.fields = s.appHash := bytesAt_of_select hfits (by simp [fields])
  have hheader : bytesAt 9 s.fields = s.lastHeaderHash :=
    bytesAt_of_select hfits (by simp [fields])
  constructor
  · have hwhole : WholeIfFits s.fields := by
      repeat' apply WholeIfFits.append
      · exact wholeIfFits_messageField (by decide) _
      · exact wholeIfFits_bytesField (by decide) _
      · exact wholeIfFits_uint64Field (by decide) hinitial
      · exact wholeIfFits_uint64Field (by decide) hlast
      · exact wholeIfFits_messageField (by decide) _
      · exact wholeIfFits_uint64Field (by decide) hda
      all_goals exact wholeIfFits_bytesField (by decide) _
    exact hwhole hfits
  · rw [ofFields, hversionAt, bind_some, hchain, bind_some, htimeAt,
      map_some, hinitialAt, hlastAt, hdaAt, happ, hheader]

end Messages

/-! ## Legacy fields are read as they were written -/

namespace LegacyHeaderFields

section

variable (legacy : Option LegacyHeaderFields)

def fields : List Field :=
  match legacy with
  | none => []
  | some l => bytesField 5 l.lastCommitHash ++ bytesField 7 l.consensusHash ++
      bytesField 9 l.lastResultsHash

def Within : Prop :=
  ∀ l ∈ legacy, l.lastCommitHash.length ≤ maxLegacyHashSize ∧
    l.consensusHash.length ≤ maxLegacyHashSize ∧ l.lastResultsHash.length ≤ maxLegacyHashSize

/-- A record without a hash in it is the same as none. -/
def canonical : Option LegacyHeaderFields :=
  if isZero legacy then none else legacy

end

theorem isZero_iff (l : LegacyHeaderFields) : isZero (some l) = true ↔ l = zero := by
  obtain ⟨lastCommitHash, consensusHash, lastResultsHash⟩ := l
  simp [isZero, zero]

theorem encodeLegacyUnknownFields_eq :
    encodeLegacyUnknownFields legacy = encode (fields legacy) := by
  cases legacy with
  | none => rfl
  | some l =>
    unfold encodeLegacyUnknownFields fields
    dsimp only
    split_ifs with hzero
    · rw [(isZero_iff l).mp hzero]
      rfl
    · rw [encode_append, encode_append, encode_bytesField, encode_bytesField, encode_bytesField]

theorem wholeIfFits : WholeIfFits (fields legacy) := by
  cases legacy with
  | none => exact wholeIfFits_nil
  | some l =>
    exact ((wholeIfFits_bytesField (by decide) _).append
      (wholeIfFits_bytesField (by decide) _)).append (wholeIfFits_bytesField (by decide) _)

theorem unknownFields_fields :
    unknownFields HeaderPb.known (fields legacy) = fields legacy := by
  cases legacy with
  | none => rfl
  | some l => simp [fields, HeaderPb.known]

/-- The loop comes to the end of `unknown` with `legacy'`, given as much fuel as there are
bytes. -/
def Decodes (unknown : Bytes) (legacy legacy' : LegacyHeaderFields) : Prop :=
  ∀ fuel, unknown.length ≤ fuel → decodeLoop fuel unknown legacy = .ok legacy'

theorem decodes_nil (legacy : LegacyHeaderFields) : Decodes [] legacy legacy := by
  intro fuel _
  cases fuel <;> rfl

theorem Decodes.bytes {field : ℕ} (hfield : field ∈ [5, 7, 9]) {value : Hash}
    (hsize : value.length ≤ maxLegacyHashSize) {legacy legacy' : LegacyHeaderFields}
    (hunset : legacy.set field [] = legacy) {rest : Bytes}
    (hrest : Decodes rest (legacy.set field value) legacy') :
    Decodes (ProtoWire.bytes field value ++ rest) legacy legacy' := by
  intro fuel hfuel
  unfold ProtoWire.bytes at hfuel ⊢
  split_ifs at hfuel ⊢ with hnil
  · rw [hnil, hunset] at hrest
    exact hrest fuel hfuel
  have hnumber : 1 ≤ field ∧ field < 2 ^ 31 := by
    simp only [mem_cons, not_mem_nil, or_false] at hfield
    omega
  have hlength : value.length < 2 ^ 64 := by
    unfold maxLegacyHashSize at hsize
    omega
  have htag := consumeTag_tag hnumber.1 hnumber.2 (by omega : 2 < 8)
    (varint value.length ++ value ++ rest)
  rw [record, append_assoc, append_assoc, ← append_assoc (varint _)] at hfuel ⊢
  rcases hbytes : tag field 2 with _ | ⟨b, bz⟩
  · exact absurd hbytes (varint_ne_nil _)
  rw [hbytes] at hfuel htag
  rw [cons_append] at hfuel htag ⊢
  rcases fuel with _ | fuel
  · simp at hfuel
  rw [decodeLoop, htag]
  dsimp only
  rw [if_pos ⟨hfield, rfl⟩, consumeBytes_record hlength]
  dsimp only
  rw [if_neg (Nat.not_lt.mpr hsize)]
  apply hrest
  simp only [length_cons, length_append] at hfuel
  omega

theorem decodes_fields (hwithin : Within (some l)) :
    Decodes (encode (fields (some l))) zero l := by
  obtain ⟨hcommit, hconsensus, hresults⟩ := hwithin l rfl
  rw [fields, encode_append, encode_append, encode_bytesField, encode_bytesField,
    encode_bytesField, append_assoc, ← append_nil (ProtoWire.bytes 9 _)]
  apply Decodes.bytes (by decide) hcommit rfl
  apply Decodes.bytes (by decide) hconsensus rfl
  apply Decodes.bytes (by decide) hresults rfl
  exact decodes_nil l

theorem length_fields (hwithin : Within (some l)) :
    (encode (fields (some l))).length ≤ maxUnknownFieldSize := by
  have hbound {number : ℕ} (hnumber : number < 16) {value : Hash}
      (hsize : value.length ≤ maxLegacyHashSize) :
      (ProtoWire.bytes number value).length ≤ maxLegacyHashSize + 11 := by
    rw [length_bytes hnumber]
    unfold sizeBytes sizeRecord sizeVarint
    split_ifs <;> omega
  obtain ⟨hcommit, hconsensus, hresults⟩ := hwithin l rfl
  have h5 := hbound (by omega : 5 < 16) hcommit
  have h7 := hbound (by omega : 7 < 16) hconsensus
  have h9 := hbound (by omega : 9 < 16) hresults
  rw [fields, encode_append, encode_append, encode_bytesField, encode_bytesField,
    encode_bytesField, length_append, length_append]
  unfold maxLegacyHashSize at h5 h7 h9
  unfold maxUnknownFieldSize
  omega

theorem decode_encode {legacy : Option LegacyHeaderFields} (hwithin : Within legacy) :
    decodeLegacyHeaderFields (encodeLegacyUnknownFields legacy) = .ok (canonical legacy) := by
  rw [encodeLegacyUnknownFields_eq]
  cases legacy with
  | none => rfl
  | some l =>
    by_cases hzero : l = zero
    · rw [hzero]
      rfl
    have hloop := decodes_fields hwithin _ (Nat.le_refl _)
    unfold decodeLegacyHeaderFields canonical
    rw [if_neg, if_neg (Nat.not_lt.mpr (length_fields hwithin)), hloop]
    · -- from nothing the loop would return the zero value
      intro hempty
      rw [length_eq_zero_iff.mp hempty] at hloop
      exact hzero (Except.ok.inj hloop).symm

end LegacyHeaderFields

/-! ## Round trips -/

def Header.InRange (h : Header) : Prop := h.version.InRange ∧ h.height < 2 ^ 64 ∧ h.time < 2 ^ 64

def State.InRange (s : State) : Prop :=
  s.version.InRange ∧ s.initialHeight < 2 ^ 64 ∧ s.lastBlockHeight < 2 ^ 64 ∧ s.daHeight < 2 ^ 64

def Header.canonical (h : Header) : Header :=
  { h with legacy := LegacyHeaderFields.canonical h.legacy }

theorem Header.marshalBinary_eq (h : Header) :
    h.marshalBinary = encode (h.toProto.fields ++ fields h.legacy) := by
  rw [encode_append, ← encodeLegacyUnknownFields_eq]
  rfl

theorem Header.readBack {h : Header} (hrange : h.InRange) :
    ReadBack (h.toProto.fields ++ fields h.legacy) HeaderPb.ofFields
      h.toProto := by
  apply HeaderPb.readBack
  · refine ⟨?_, hrange.2⟩
    intro v hv
    rw [← some.inj hv]
    exact hrange.1
  · exact wholeIfFits h.legacy
  · exact unknownFields_fields h.legacy
  · exact encodeLegacyUnknownFields_eq h.legacy

theorem Header.fromProto_toProto {h : Header} (hlegacy : LegacyHeaderFields.Within h.legacy) :
    fromProto w.withLegacyFields h.toProto = some h.canonical := by
  have hread : w.withLegacyFields.legacyHeaderFields h.toProto.unknown =
      some (LegacyHeaderFields.canonical h.legacy) := by
    change (decodeLegacyHeaderFields
      (encodeLegacyUnknownFields h.legacy)).toOption = _
    rw [decode_encode hlegacy]
    rfl
  unfold fromProto
  rw [hread]
  rfl

theorem Header.unmarshalBinary_marshalBinary {h : Header} (hrange : h.InRange)
    (hfits : h.marshalBinary.length < 2 ^ 63) (hlegacy : LegacyHeaderFields.Within h.legacy) :
    unmarshalBinary w.withLegacyFields h.marshalBinary = some h.canonical := by
  rw [marshalBinary_eq] at hfits ⊢
  unfold unmarshalBinary
  rw [(readBack hrange).unmarshal hfits, bind_some, fromProto_toProto w hlegacy]

theorem Metadata.marshal_eq (m : Metadata) : m.marshal = encode m.fields := by
  rw [fields, encode_append, encode_append, encode_append, stringField, encode_bytesField,
    encode_uint64Field, encode_uint64Field, encode_bytesField]
  rfl

theorem Metadata.unmarshalBinary_marshal (hrange : m.InRange)
    (hfits : m.marshal.length < 2 ^ 63) : unmarshalBinary m.marshal = some m := by
  rw [marshal_eq] at hfits ⊢
  exact (readBack hrange).unmarshal hfits

theorem Data.marshalBinary_eq (d : Data) : d.marshalBinary = encode d.fields := by
  obtain ⟨metadata, txs⟩ := d
  rw [fields, encode_append, encode_messageField, encode_records]
  cases metadata with
  | none => rfl
  | some m => simp [marshalBinary, Metadata.marshal_eq]

theorem Data.unmarshalBinary_marshalBinary (hrange : d.InRange)
    (hfits : d.marshalBinary.length < 2 ^ 63) : unmarshalBinary d.marshalBinary = some d := by
  rw [marshalBinary_eq] at hfits ⊢
  exact (readBack hrange).unmarshal hfits

theorem asTime_timestampOf (t : Time) : (timestampOf t).asTime = t := Int.ediv_mul_add_emod t second

theorem State.unmarshal_marshal {s : State} (hrange : s.InRange)
    (htime : (timestampOf s.lastBlockTime).IsValid) (hfits : s.marshal.length < 2 ^ 63) :
    unmarshal s.marshal = some s := by
  have hproto : s.toProto.InRange := by
    obtain ⟨hversion, hheights⟩ := hrange
    refine ⟨?_, ?_, hheights⟩
    · intro v hv
      rw [← some.inj hv]
      exact hversion
    · intro t ht
      rw [← some.inj ht]
      obtain ⟨hlow, hhigh, hnanosLow, hnanosHigh⟩ := htime
      unfold second at hnanosHigh
      unfold TimestampPb.InRange
      omega
  unfold unmarshal marshal at *
  rw [(StatePb.readBack hproto).unmarshal hfits, map_some, fromProto, toProto]
  simp [asTime_timestampOf]

/-! ## Hashes -/

theorem LegacyHeaderFields.encodeLegacyUnknownFields_of_isZero
    {legacy : Option LegacyHeaderFields} (hzero : isZero legacy = true) :
    encodeLegacyUnknownFields legacy = [] := by
  cases legacy with
  | none => rfl
  | some l => exact if_pos hzero

theorem headerHash_canonical (sha256 : Bytes → Hash) (h : Header) :
    (wireCodec sha256).headerHash h.canonical = (wireCodec sha256).headerHash h := by
  unfold Header.canonical LegacyHeaderFields.canonical
  split_ifs with hzero
  · have hbytes : marshalBinary { h with legacy := none } = h.marshalBinary := by
      have hnone := encodeLegacyUnknownFields_of_isZero hzero
      simp only [marshalBinary, toProto, hnone]
      rfl
    have hslim : (wireCodec sha256).headerHash h = sha256 h.marshalBinary := if_pos hzero
    rw [hslim, ← hbytes]
    rfl
  · rfl

/-! ## Stability -/

/-- For every header whose legacy hashes have at most 1024 bytes each, all metadata, all data,
with metadata or without, and every state whose time is a protobuf timestamp: the encoding is
decoded into the value, up to a legacy record without a hash in it, and the hash of a decoded
header or of decoded data is the one before. -/
theorem codecs_round_trip (w : Wire) (sha256 : Bytes → Hash) :
    (∀ h : Header, h.InRange → h.marshalBinary.length < 2 ^ 63 →
      LegacyHeaderFields.Within h.legacy →
      ∃ h', unmarshalBinary w.withLegacyFields h.marshalBinary = some h' ∧
        h' = h.canonical ∧
        (wireCodec sha256).headerHash h' = (wireCodec sha256).headerHash h) ∧
    (∀ m : Metadata, m.InRange → m.marshal.length < 2 ^ 63 →
      Metadata.unmarshalBinary m.marshal = some m) ∧
    (∀ d : Data, d.InRange → d.marshalBinary.length < 2 ^ 63 →
      ∃ d', Data.unmarshalBinary d.marshalBinary = some d' ∧ d' = d ∧
        (wireCodec sha256).dataHash d' = (wireCodec sha256).dataHash d) ∧
    ∀ s : State, s.InRange → (timestampOf s.lastBlockTime).IsValid →
      s.marshal.length < 2 ^ 63 → State.unmarshal s.marshal = some s := by
  refine ⟨?_, ?_, ?_, ?_⟩
  · intro h hrange hfits hlegacy
    exact ⟨h.canonical, unmarshalBinary_marshalBinary w hrange hfits hlegacy, rfl,
      headerHash_canonical sha256 h⟩
  · intro m hrange hfits
    exact Metadata.unmarshalBinary_marshal hrange hfits
  · intro d hrange hfits
    exact ⟨d, Data.unmarshalBinary_marshalBinary hrange hfits, rfl, rfl⟩
  · intro s hrange htime hfits
    exact State.unmarshal_marshal hrange htime hfits

/-! ### A header of which one legacy hash is left, and the first state -/

def bareWire : Wire :=
  ⟨fun _ => none, fun _ => none, fun _ => none, fun _ => none, fun _ => none, fun _ => [],
    fun _ _ _ => .ok false⟩

def oldHeader : Header := ⟨3, 70, "c", ⟨11, 1⟩, [1], [2], [3], [4], [5], some ⟨[], [6], []⟩⟩

def earlyState : State := ⟨⟨11, 1⟩, "c", 1, 0, -1, [], 4, [3]⟩

theorem oldHeader_round_trip :
    (∃ h', unmarshalBinary bareWire.withLegacyFields oldHeader.marshalBinary = some h' ∧
      h' = oldHeader.canonical ∧
      (wireCodec id).headerHash h' = (wireCodec id).headerHash oldHeader) ∧
    State.unmarshal earlyState.marshal = some earlyState := by
  refine ⟨(codecs_round_trip bareWire id).1 oldHeader ?_ (by decide) ?_,
    (codecs_round_trip bareWire id).2.2.2 earlyState ?_ ?_ (by decide)⟩
  · simp [Header.InRange, Version.InRange, oldHeader]
  · simp [LegacyHeaderFields.Within, oldHeader, maxLegacyHashSize]
  · simp [State.InRange, Version.InRange, earlyState]
  · simp [TimestampPb.IsValid, timestampOf, earlyState, second]

end ChainSdk

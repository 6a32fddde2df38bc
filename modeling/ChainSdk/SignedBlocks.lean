/-
Signed headers and signed data: how `types/serialization.go` fills them from their protobuf
messages, and the checks of `types/` a syncing node makes on them.

Decoding protobuf messages, libp2p's keys and the signature scheme are code outside this repository,
the fields of `Wire`; what a result needs to know of them is a hypothesis of that result.
-/
import ChainSdk.Blocks

namespace ChainSdk

/-! ## Protobuf messages -/

structure HeaderPb where
  version : Option Version
  height : ℕ
  time : ℕ
  lastHeaderHash : Bytes
  dataHash : Bytes
  appHash : Bytes
  proposerAddress : Bytes
  validatorHash : Bytes
  chainId : String
  /-- Fields the message type does not have, as bytes. -/
  unknown : Bytes
  deriving DecidableEq

structure SignerPb where
  address : Bytes
  pubKey : Bytes
  deriving DecidableEq

structure SignedHeaderPb where
  header : Option HeaderPb
  signature : Bytes
  signer : Option SignerPb
  deriving DecidableEq

structure DAHeaderEnvelopePb extends SignedHeaderPb where
  envelopeSignature : Bytes
  deriving DecidableEq

structure SignedDataPb where
  data : Option Data
  signature : Bytes
  signer : Option SignerPb
  deriving DecidableEq

/-- `proto.Unmarshal` at each message type, `decodeLegacyHeaderFields`, the libp2p key codec,
`SignedHeader.MarshalBinary`, and `PubKey.Verify`. -/
structure Wire where
  daHeaderEnvelope : Bytes → Option DAHeaderEnvelopePb
  signedHeader : Bytes → Option SignedHeaderPb
  signedData : Bytes → Option SignedDataPb
  /-- `none` is a parse error. -/
  legacyHeaderFields : Bytes → Option (Option LegacyHeaderFields)
  unmarshalPublicKey : Bytes → Option PubKey
  signedHeaderBytes : SignedHeader → Bytes
  verify : PubKey → Bytes → Signature → Except String Bool

/-- `types.SignedData`. Its data is `none` for the zero value, whose `Txs` are nil. -/
structure SignedData where
  data : Option Data
  signature : Signature
  signer : Signer
  deriving DecidableEq

/-! ## From messages to values -/

def Signer.zero : Signer := ⟨none, []⟩

section

variable (w : Wire)

def Header.fromProto (other : HeaderPb) : Option Header :=
  match w.legacyHeaderFields other.unknown with
  | none => none
  | some legacy => some
      { height := other.height
        time := other.time
        chainID := other.chainId
        version := other.version.getD ⟨0, 0⟩
        lastHeaderHash := other.lastHeaderHash
        dataHash := other.dataHash
        appHash := other.appHash
        validatorHash := other.validatorHash
        proposerAddress := other.proposerAddress
        legacy := legacy }

/-- The signer part of the three `FromProto` functions below: without a key the address is
dropped too. -/
def Signer.fromProto (other : Option SignerPb) : Option Signer :=
  match other with
  | none => some Signer.zero
  | some signer =>
    -- the address is taken from the message as it is, not computed from the key
    if 0 < signer.pubKey.length then
      (w.unmarshalPublicKey signer.pubKey).map (fun key => ⟨some key, signer.address⟩)
    else some Signer.zero

def SignedHeader.fromProto (other : SignedHeaderPb) : Option SignedHeader := do
  let headerPb ← other.header
  let header ← Header.fromProto w headerPb
  let signer ← Signer.fromProto w other.signer
  return ⟨header, other.signature, signer⟩

/-- `SignedHeader.UnmarshalDAEnvelope` with `FromDAEnvelopeProto`: the header and the
signature of the envelope. -/
def SignedHeader.unmarshalDAEnvelope (bz : Bytes) : Option (SignedHeader × Signature) := do
  let envelope ← w.daHeaderEnvelope bz
  let header ← SignedHeader.fromProto w envelope.toSignedHeaderPb
  return (header, envelope.envelopeSignature)

/-- A signed header decoded the way it was before envelopes. -/
def SignedHeader.unmarshalBinary (bz : Bytes) : Option SignedHeader :=
  (w.signedHeader bz).bind (SignedHeader.fromProto w)

def SignedData.unmarshalBinary (bz : Bytes) : Option SignedData := do
  let other ← w.signedData bz
  let signer ← Signer.fromProto w other.signer
  return ⟨other.data, other.signature, signer⟩

def keyAddress (c : Codec) (key : PubKey) : Hash := c.sha256 key.raw

/-! ## Checks on a header -/

def maxClockDrift : Time := 60000000000

inductive HeaderError
  | noProposerAddress
  | zeroTimestamp
  | timestampTooFarInFuture (header maxAllowed : Time)
  deriving DecidableEq

def Header.validateBasic (now : Time) (h : Header) : Except HeaderError Unit :=
  if h.proposerAddress.length = 0 then .error .noProposerAddress
  else if h.time = 0 then .error .zeroTimestamp
  else if now + maxClockDrift < timeOfUint64 h.time then
    .error (.timestampTooFarInFuture (timeOfUint64 h.time) (now + maxClockDrift))
  else .ok ()

inductive SignedHeaderError
  | header (e : HeaderError)
  | signatureEmpty
  | proposerAddressMismatch
  | provider (e : String)
  | verify (e : String)
  | signatureVerificationFailed
  /-- A call on a nil key, which panics. -/
  | nilPubKey
  deriving DecidableEq

/-- The calls of `tryPayload` in `ValidateBasicWithData`: empty payloads and those tried
before are passed over. -/
def SignedHeader.tryPayloads (w : Wire) (key : PubKey) (signature : Signature) :
    List Bytes → List Bytes → Except SignedHeaderError Unit
  | _, [] => .error .signatureVerificationFailed
  | tried, payload :: payloads =>
    if payload.length = 0 ∨ payload ∈ tried then
      tryPayloads w key signature tried payloads
    else
      match w.verify key payload signature with
      | .error e => .error (.verify e)
      | .ok true => .ok ()
      | .ok false => tryPayloads w key signature (tried ++ [payload]) payloads

/-- The `SyncNodeSignatureBytesProvider` of a node, if one is set. -/
abbrev SignatureProvider := Option (Header → Data → Except String Bytes)

def defaultSignatureProvider (c : Codec) : SignatureProvider :=
  some (fun header _ => .ok (c.headerBytes header))

def SignedHeader.validateBasicWithData (c : Codec) (provider : SignatureProvider) (now : Time)
    (sh : SignedHeader) (data : Data) : Except SignedHeaderError Unit :=
  match sh.header.validateBasic now with
  | .error e => .error (.header e)
  | .ok () =>
    if sh.signature.length = 0 then .error .signatureEmpty
    else if sh.header.proposerAddress ≠ sh.signer.address then
      .error .proposerAddressMismatch
    else
      match sh.signer.pubKey with
      | none => .error .nilPubKey
      | some key =>
        let payloads := [c.headerBytes sh.header, c.headerBytesLegacy sh.header]
        match provider with
        | none => tryPayloads w key sh.signature [] payloads
        | some f =>
          match f sh.header data with
          | .error e => .error (.provider e)
          | .ok custom => tryPayloads w key sh.signature [] (custom :: payloads)

/-! ## Checks on a block -/

inductive DataError
  | headerAndDataDoNotMatch
  | dataHashMismatch
  deriving DecidableEq

/-- `types.Validate`; metadata is only compared when there is some. -/
def validate (c : Codec) (header : SignedHeader) (data : Data) : Except DataError Unit :=
  let mismatch :=
    match data.metadata with
    | none => false
    | some m => decide (header.header.chainID ≠ m.chainID ∨ header.header.height ≠ m.height ∨
        timeOfUint64 header.header.time ≠ timeOfUint64 m.time)
  if mismatch then .error .headerAndDataDoNotMatch
  else if c.daCommitment data.txs ≠ header.header.dataHash then .error .dataHashMismatch
  else .ok ()

inductive BlockError
  | invalidHeader (e : SignedHeaderError)
  | sequence (e : SequenceError)
  | data (e : DataError)
  deriving DecidableEq

def validateBlock (c : Codec) (provider : SignatureProvider) (now : Time) (state : State)
    (mismatchSeen : Bool) (data : Data) (header : SignedHeader) : Except BlockError Unit :=
  match header.validateBasicWithData w c provider now data with
  | .error e => .error (.invalidHeader e)
  | .ok () =>
    match (state.assertValidSequence mismatchSeen header.header).1 with
    | .error e => .error (.sequence e)
    | .ok () =>
      match validate c header data with
      | .error e => .error (.data e)
      | .ok () => .ok ()

end

/-! ## What passes -/

section

variable {w : Wire} {c : Codec} {provider : SignatureProvider} {now : Time} {data : Data}
  {header : SignedHeader}

theorem SignedHeader.tryPayloads_ok {key : PubKey} {signature : Signature}
    {tried payloads : List Bytes} (h : tryPayloads w key signature tried payloads = .ok ()) :
    ∃ payload ∈ payloads, w.verify key payload signature = .ok true := by
  induction payloads generalizing tried with
  | nil => exact absurd h (by simp [tryPayloads])
  | cons payload payloads ih =>
    rw [tryPayloads] at h
    by_cases hskip : payload.length = 0 ∨ payload ∈ tried
    · rw [if_pos hskip] at h
      obtain ⟨p, hp, hverify⟩ := ih h
      exact ⟨p, List.mem_cons_of_mem _ hp, hverify⟩
    rw [if_neg hskip] at h
    rcases hverify : w.verify key payload signature with e | valid
    · simp [hverify] at h
    rw [hverify] at h
    cases valid with
    | true => exact ⟨payload, List.mem_cons_self, hverify⟩
    | false =>
      obtain ⟨p, hp, hverify'⟩ := ih h
      exact ⟨p, List.mem_cons_of_mem _ hp, hverify'⟩

/-- A header that passes names its signer as proposer, and its signature verifies under the
signer's own key. -/
theorem SignedHeader.validateBasicWithData_ok {sh : SignedHeader}
    (h : sh.validateBasicWithData w c provider now data = .ok ()) :
    sh.header.proposerAddress = sh.signer.address ∧
      ∃ key payload, sh.signer.pubKey = some key ∧
        w.verify key payload sh.signature = .ok true := by
  unfold validateBasicWithData at h
  rcases hbasic : sh.header.validateBasic now with e | _
  · simp [hbasic] at h
  rw [hbasic] at h
  by_cases hempty : sh.signature.length = 0
  · rw [if_pos hempty] at h
    simp at h
  rw [if_neg hempty] at h
  by_cases haddress : sh.header.proposerAddress = sh.signer.address
  · rw [if_neg (not_not.mpr haddress)] at h
    refine ⟨haddress, ?_⟩
    rcases hkey : sh.signer.pubKey with _ | key
    · simp [hkey] at h
    rw [hkey] at h
    -- with or without a custom payload, one of those tried verifies
    rcases provider with _ | f
    · obtain ⟨payload, -, hverify⟩ := tryPayloads_ok h
      exact ⟨key, payload, rfl, hverify⟩
    dsimp only at h
    rcases hcustom : f sh.header data with e | custom
    · simp [hcustom] at h
    · rw [hcustom] at h
      obtain ⟨payload, -, hverify⟩ := tryPayloads_ok h
      exact ⟨key, payload, rfl, hverify⟩
  · simp [if_pos haddress] at h

theorem validate_ok (h : validate c header data = .ok ()) :
    c.daCommitment data.txs = header.header.dataHash ∧
      ∀ m, data.metadata = some m → m.height = header.header.height := by
  unfold validate at h
  dsimp only at h
  split_ifs at h with hmismatch hhash
  refine ⟨not_not.mp hhash, fun m hm => ?_⟩
  rw [hm] at hmismatch
  simp only [decide_eq_true_eq, not_or, not_not] at hmismatch
  exact hmismatch.2.1.symm

theorem validateBlock_ok_iff {state : State} {mismatchSeen : Bool} :
    validateBlock w c provider now state mismatchSeen data header = .ok () ↔
      header.validateBasicWithData w c provider now data = .ok () ∧
        (state.assertValidSequence mismatchSeen header.header).1 = .ok () ∧
        validate c header data = .ok () := by
  unfold validateBlock
  rcases header.validateBasicWithData w c provider now data with e | _
  · simp
  rcases (state.assertValidSequence mismatchSeen header.header).1 with e | _
  · simp
  rcases validate c header data with e | _
  · simp
  · simp

end

end ChainSdk

/-
Blocks out of DA blobs and out of the P2P stores, `block/internal/syncing/da_retriever.go`,
`assert.go` and `p2p_handler.go`.

Anyone can post to the namespaces a node reads.
-/
import ChainSdk.SignedBlocks
import Mathlib.Data.List.Sort

namespace ChainSdk

/-! ## Assertions -/

inductive ProposerError
  | unexpectedProposer (got expected : Bytes)
  deriving DecidableEq

def assertExpectedProposer (genesis : Genesis) (proposerAddr : Bytes) :
    Except ProposerError Unit :=
  if proposerAddr ≠ genesis.proposerAddress then
    .error (.unexpectedProposer proposerAddr genesis.proposerAddress)
  else .ok ()

inductive SignedDataError
  | emptySignedData
  | proposer (e : ProposerError)
  | verify (e : String)
  | invalidSignature
  /-- A call on a nil key, which panics. -/
  | nilPubKey
  deriving DecidableEq

def assertValidSignedData (w : Wire) (c : Codec) (genesis : Genesis) (signedData : SignedData) :
    Except SignedDataError Data :=
  match signedData.data with
  | none => .error .emptySignedData
  | some data =>
    match assertExpectedProposer genesis signedData.signer.address with
    | .error e => .error (.proposer e)
    | .ok () =>
      match signedData.signer.pubKey with
      | none => .error .nilPubKey
      | some key =>
        match w.verify key (c.dataBytes data) signedData.signature with
        | .error e => .error (.verify e)
        | .ok false => .error .invalidSignature
        | .ok true => .ok data

/-! ## The DA retriever -/

structure DAHeightEvent where
  header : SignedHeader
  data : Data
  daHeight : ℕ
  deriving DecidableEq

inductive Panic
  | nilMetadata
  | nilPubKey
  deriving DecidableEq

/-- `daRetriever`, with the calls it has made on the cache: hash, DA height and height. -/
structure DaRetriever where
  genesis : Genesis
  codec : Codec
  wire : Wire
  pendingHeaders : AList (fun _ : ℕ => SignedHeader)
  pendingData : AList (fun _ : ℕ => Data)
  /-- A valid envelope has been seen, so that nothing else is accepted. -/
  strictMode : Bool
  headerDAIncluded : List (Hash × ℕ × ℕ)
  dataDAIncluded : List (Hash × ℕ × ℕ)

namespace DaRetriever

def new (genesis : Genesis) (codec : Codec) (wire : Wire) : DaRetriever :=
  ⟨genesis, codec, wire, ∅, ∅, false, [], []⟩

section

variable (r : DaRetriever)

/-- The decoding part of `tryDecodeHeader`: the header, and whether it came in an envelope
whose signature verifies under the header's own key. -/
def decodeHeader (bz : Bytes) : Option (SignedHeader × Bool) :=
  match SignedHeader.unmarshalDAEnvelope r.wire bz with
  | none =>
    -- the plain format is a fallback until the first valid envelope
    if r.strictMode then none
    else (SignedHeader.unmarshalBinary r.wire bz).map (fun header => (header, false))
  | some (header, envelopeSignature) =>
    if 0 < envelopeSignature.length then
      match header.signer.pubKey with
      | none => none
      | some key =>
        -- the key is the one the blob carries: whoever made the blob can sign it
        if r.wire.verify key (r.wire.signedHeaderBytes header) envelopeSignature = .ok true
        then some (header, true)
        else none
    else some (header, false)

/-- `tryDecodeHeader`. A valid envelope switches strict mode on before the header is
checked. -/
def tryDecodeHeader (now : Time) (bz : Bytes) (daHeight : ℕ) : Option SignedHeader × DaRetriever :=
  match r.decodeHeader bz with
  | none => (none, r)
  | some (header, isValidEnvelope) =>
    if r.strictMode && !isValidEnvelope then (none, r)
    else
      let r := { r with strictMode := r.strictMode || isValidEnvelope }
      match header.header.validateBasic now with
      | .error _ => (none, r)
      | .ok () =>
        match assertExpectedProposer r.genesis header.header.proposerAddress with
        | .error _ => (none, r)
        | .ok () =>
          (some header,
            { r with headerDAIncluded := r.headerDAIncluded ++
                [(r.codec.headerHash header.header, daHeight, header.header.height)] })

def tryDecodeData (bz : Bytes) (daHeight : ℕ) : Except Panic (Option Data × DaRetriever) :=
  match SignedData.unmarshalBinary r.wire bz with
  | none => .ok (none, r)
  | some signedData =>
    -- skipped only where both are empty; signed data without transactions is checked below
    if ((signedData.data.map Data.txs).getD []).length = 0 ∧
        signedData.signature.length = 0 then .ok (none, r)
    else
      match assertValidSignedData r.wire r.codec r.genesis signedData with
      | .error .nilPubKey => .error .nilPubKey
      | .error _ => .ok (none, r)
      | .ok data =>
        match data.metadata with
        | none => .error .nilMetadata
        | some metadata =>
          .ok (some data,
            { r with dataDAIncluded := r.dataDAIncluded ++
                [(r.codec.daCommitment data.txs, daHeight, metadata.height)] })

/-- The variables of the decoding loop of `processBlobs`. -/
structure Decoded where
  retriever : DaRetriever
  headers : List SignedHeader
  data : List Data

def decodeBlob (now : Time) (daHeight : ℕ) (acc : Decoded) (bz : Blob) :
    Except Panic Decoded :=
  if bz.length = 0 then .ok acc
  else
    match acc.retriever.tryDecodeHeader now bz daHeight with
    | (some header, r) => .ok { acc with retriever := r, headers := acc.headers ++ [header] }
    -- a blob that is no header may have switched strict mode on all the same
    | (none, r) =>
      match r.tryDecodeData bz daHeight with
      | .error panic => .error panic
      | .ok (some data, r) => .ok { acc with retriever := r, data := acc.data ++ [data] }
      | .ok (none, r) => .ok { acc with retriever := r }

def decodeBlobs (now : Time) (daHeight : ℕ) : Decoded → List Blob → Except Panic Decoded
  | acc, [] => .ok acc
  | acc, bz :: blobs =>
    match decodeBlob now daHeight acc bz with
    | .error panic => .error panic
    | .ok acc => decodeBlobs now daHeight acc blobs

def dataHeight (data : Data) : ℕ := (data.metadata.map Metadata.height).getD 0

def addHeader (header : SignedHeader) : DaRetriever :=
  if (r.pendingHeaders.lookup header.header.height).isSome then r
  else { r with pendingHeaders := r.pendingHeaders.insert header.header.height header }

def addData (data : Data) : DaRetriever :=
  if (r.pendingData.lookup (dataHeight data)).isSome then r
  else { r with pendingData := r.pendingData.insert (dataHeight data) data }

def isEmptyDataExpected (header : SignedHeader) : Bool :=
  header.header.dataHash.length = 0 ∨ header.header.dataHash = dataHashForEmptyTxs

def createEmptyDataForHeader (header : SignedHeader) : Data where
  metadata := some ⟨header.header.chainID, header.header.height, header.header.time, []⟩
  txs := []

def matchHeader (daHeight : ℕ) (acc : DaRetriever × List DAHeightEvent)
    (pending : Sigma fun _ : ℕ => SignedHeader) : DaRetriever × List DAHeightEvent :=
  -- data of the height is taken as it is: its hash is not compared with the header's here
  match acc.1.pendingData.lookup pending.1 with
  | none =>
    if isEmptyDataExpected pending.2 then
      ({ acc.1 with pendingHeaders := acc.1.pendingHeaders.erase pending.1 },
        acc.2 ++ [⟨pending.2, createEmptyDataForHeader pending.2, daHeight⟩])
    else acc
  | some data =>
    ({ acc.1 with
        pendingHeaders := acc.1.pendingHeaders.erase pending.1
        pendingData := acc.1.pendingData.erase pending.1 },
      acc.2 ++ [⟨pending.2, data, daHeight⟩])

def matchHeaders (daHeight : ℕ) : DaRetriever × List DAHeightEvent :=
  r.pendingHeaders.entries.foldl (matchHeader daHeight) (r, [])

structure Call where
  blobs : List Blob
  daHeight : ℕ
  now : Time

def processBlobs (call : Call) : Except Panic (DaRetriever × List DAHeightEvent) :=
  match decodeBlobs call.now call.daHeight ⟨r, [], []⟩ call.blobs with
  | .error panic => .error panic
  | .ok decoded =>
    -- what this call decodes joins what earlier calls have left unmatched
    let r := decoded.headers.foldl addHeader decoded.retriever
    let r := decoded.data.foldl addData r
    .ok (r.matchHeaders call.daHeight)

end

/-- A sequence of calls: what they emit, and the retriever at the end or the panic that has
ended them. -/
def run : DaRetriever → List Call → List DAHeightEvent × Except Panic DaRetriever
  | r, [] => ([], .ok r)
  | r, call :: calls =>
    match r.processBlobs call with
    | .error panic => ([], .error panic)
    | .ok (r, events) => (events ++ (run r calls).1, (run r calls).2)

def queuePriorityHeight (priorityHeights : List ℕ) (daHeight : ℕ) : List ℕ :=
  if daHeight ∈ priorityHeights then priorityHeights
  else priorityHeights.orderedInsert (· ≤ ·) daHeight

end DaRetriever

/-! ## Blocks from P2P -/

inductive P2PError
  | proposerAddressMismatch (got expected : Bytes)
  | dataHashMismatch (header data : Hash)
  deriving DecidableEq

def processHeight (genesis : Genesis) (c : Codec) (header : SignedHeader) (data : Data) :
    Except P2PError (SignedHeader × Data) :=
  if genesis.proposerAddress ≠ header.header.proposerAddress then
    .error (.proposerAddressMismatch header.header.proposerAddress genesis.proposerAddress)
  else if header.header.dataHash ≠ c.daCommitment data.txs then
    .error (.dataHashMismatch header.header.dataHash (c.daCommitment data.txs))
  else .ok (header, data)

/-- The data of an event as `processHeightEvent` hands it on, with the hash of the last block's data
filled in where empty data is announced. -/
def DAHeightEvent.filledData (e : DAHeightEvent) (lastDataHash : Option Hash) : Data :=
  match lastDataHash with
  | none => e.data
  | some hash =>
    if e.header.header.dataHash = dataHashForEmptyTxs then
      { e.data with metadata := e.data.metadata.map (fun m => { m with lastDataHash := hash }) }
    else e.data

end ChainSdk

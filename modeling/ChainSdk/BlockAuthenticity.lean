/-
Who has signed the blocks a syncing node accepts.

A node accepts a block whose header names the proposer of the genesis document and whose signature
verifies.
-/
import ChainSdk.RetrieverCalls

namespace ChainSdk

open DaRetriever List Option

/-! ## Signatures and who has made them -/

/-- An unforgeable signature scheme on the wire: every signature that verifies under a key
was produced with the private key of that key. -/
structure Unforgeable (w : Wire) where
  /-- The public key of the private key a signature was produced with, if with any. -/
  producer : Signature → Option PubKey
  sound : ∀ key message signature, w.verify key message signature = .ok true →
    producer signature = some key

/-- The signature was produced with a private key whose public key has the address of the
genesis proposer. -/
def ProducedByProposer {w : Wire} (scheme : Unforgeable w) (c : Codec) (genesis : Genesis)
    (signature : Signature) : Prop :=
  ∃ key, scheme.producer signature = some key ∧ keyAddress c key = genesis.proposerAddress

def Signer.Bound (c : Codec) (signer : Signer) : Prop :=
  ∃ key, signer.pubKey = some key ∧ signer.address = keyAddress c key

variable {data : Data} {w : Wire} (scheme : Unforgeable w) {c : Codec} {genesis : Genesis}

theorem producedByProposer_iff_bound {signer : Signer} {key : PubKey} {message : Bytes}
    {signature : Signature} (hkey : signer.pubKey = some key)
    (hverify : w.verify key message signature = .ok true)
    (haddress : signer.address = genesis.proposerAddress) :
    ProducedByProposer scheme c genesis signature ↔ signer.Bound c := by
  -- the signature was made with the key that verifies it, so all turns on the address
  have hproducer := scheme.sound key message signature hverify
  constructor
  · rintro ⟨key', hproducer', hproposer⟩
    obtain rfl : key = key' := some.inj (hproducer.symm.trans hproducer')
    exact ⟨key, hkey, haddress.trans hproposer.symm⟩
  · rintro ⟨key', hkey', hbound⟩
    obtain rfl : key = key' := some.inj (hkey.symm.trans hkey')
    exact ⟨key, hproducer, hbound.symm.trans haddress⟩

theorem header_producedByProposer_iff_bound {provider : SignatureProvider} {now : Time}
    {state : State} {mismatchSeen : Bool} {header : SignedHeader}
    (hproposer : header.header.proposerAddress = genesis.proposerAddress)
    (hvalid : validateBlock w c provider now state mismatchSeen data header = .ok ()) :
    ProducedByProposer scheme c genesis header.signature ↔ header.signer.Bound c := by
  obtain ⟨haddress, key, payload, hkey, hverify⟩ :=
    SignedHeader.validateBasicWithData_ok (validateBlock_ok_iff.mp hvalid).1
  exact producedByProposer_iff_bound scheme hkey hverify (haddress.symm.trans hproposer)

namespace DaRetriever

/-! ## What is pending, and what is emitted -/

theorem Vouched.mono {blobs blobs' : List Blob} (hvouched : Vouched w c genesis blobs data)
    (hsub : ∀ bz ∈ blobs, bz ∈ blobs') : Vouched w c genesis blobs' data := by
  obtain ⟨bz, hbz, rest⟩ := hvouched
  exact ⟨bz, hsub bz hbz, rest⟩

/-- A retriever that has been given the blobs: every pending header names the proposer, and
all pending data is vouched for. -/
structure Checked (genesis : Genesis) (c : Codec) (w : Wire) (blobs : List Blob)
    (r : DaRetriever) : Prop where
  genesis_eq : r.genesis = genesis
  codec_eq : r.codec = c
  wire_eq : r.wire = w
  headers : ∀ h header, r.pendingHeaders.lookup h = some header →
    header.header.proposerAddress = genesis.proposerAddress
  data : ∀ h data, r.pendingData.lookup h = some data → Vouched w c genesis blobs data

/-- What is true of an emitted event. -/
structure EventChecked (genesis : Genesis) (c : Codec) (w : Wire) (blobs : List Blob)
    (e : DAHeightEvent) : Prop where
  proposer : e.header.header.proposerAddress = genesis.proposerAddress
  data : e.data = createEmptyDataForHeader e.header ∨ Vouched w c genesis blobs e.data

section

variable {genesis : Genesis} {c : Codec} {w : Wire} {blobs : List Blob} {r : DaRetriever}

theorem processBlobs_checked {call : Call} {r' : DaRetriever} {events : List DAHeightEvent}
    (hr : Checked genesis c w blobs r) (h : r.processBlobs call = .ok (r', events)) :
    Checked genesis c w (blobs ++ call.blobs) r' ∧
      ∀ e ∈ events, EventChecked genesis c w (blobs ++ call.blobs) e := by
  obtain ⟨decoded, -, hdecodes, hprocessed⟩ := processBlobsIn_ok (processBlobs_eq r call ▸ h)
  have hheaders : ∀ h header, r.headerAt decoded h = some header →
      header.header.proposerAddress = genesis.proposerAddress := by
    intro h header hat
    rcases headerAt_cases hat with hold | ⟨hnew, -⟩
    · exact hr.headers h header hold
    · obtain ⟨bz, -, -, hproposer⟩ := hdecodes.headers header hnew
      rw [hproposer, hr.genesis_eq]
  have hdata : ∀ h data, r.dataAt decoded h = some data →
      Vouched w c genesis (blobs ++ call.blobs) data := by
    intro h data hat
    rcases dataAt_cases hat with hold | ⟨hnew, -⟩
    · exact (hr.data h data hold).mono (fun bz hbz => mem_append_left _ hbz)
    · have hvouched := hdecodes.data data hnew
      rw [hr.wire_eq, hr.codec_eq, hr.genesis_eq] at hvouched
      exact hvouched.mono (fun bz hbz => mem_append_right _ hbz)
  refine ⟨⟨hprocessed.genesis_eq.trans hr.genesis_eq, hprocessed.codec_eq.trans hr.codec_eq,
    hprocessed.wire_eq.trans hr.wire_eq, fun h header hlookup => ?_, fun h data hlookup => ?_⟩,
    fun e he => ?_⟩
  · rw [hprocessed.headers, filter_eq_some_iff] at hlookup
    exact hheaders h header hlookup.1
  · rw [hprocessed.data] at hlookup
    split_ifs at hlookup
    exact hdata h data hlookup
  · obtain ⟨h, header, hat, hemit⟩ := hprocessed.mem_events.mp he
    obtain ⟨rfl, -, hcarried | ⟨-, hempty⟩⟩ := emit_eq_some hemit
    · exact ⟨hheaders h _ hat, .inr (hdata h _ hcarried)⟩
    · exact ⟨hheaders h _ hat, .inl hempty⟩

theorem run_checked {calls : List Call} : ∀ {blobs : List Blob} {r : DaRetriever},
    Checked genesis c w blobs r → ∀ e ∈ (r.run calls).1,
      EventChecked genesis c w (blobs ++ calls.flatMap Call.blobs) e := by
  induction calls with
  | nil =>
    intro blobs r _ e he
    exact absurd he not_mem_nil
  | cons call calls ih =>
    intro blobs r hr e he
    rw [run] at he
    rw [flatMap_cons, ← append_assoc]
    rcases hcall : r.processBlobs call with panic | ⟨r', events⟩
    · rw [hcall] at he
      exact absurd he not_mem_nil
    rw [hcall] at he
    obtain ⟨hr', hevents⟩ := processBlobs_checked hr hcall
    rcases mem_append.mp he with hnow | hlater
    · obtain ⟨hproposer, hdata⟩ := hevents e hnow
      refine ⟨hproposer, hdata.imp_right (fun hv => hv.mono (fun bz hbz => ?_))⟩
      exact mem_append_left _ hbz
    · exact ih hr' e hlater

theorem new_checked (genesis : Genesis) (c : Codec) (w : Wire) :
    Checked genesis c w [] (new genesis c w) :=
  ⟨rfl, rfl, rfl, fun h header hlookup => absurd hlookup (by simp [new]),
    fun h data hlookup => absurd hlookup (by simp [new])⟩

end

end DaRetriever

/-! ## Whole runs -/

/-- Take a block that a node accepts, with a header out of arbitrary DA blobs or out of an
arbitrary P2P store. Its header was signed with the proposer's key exactly if the header's
signer is bound to its key, and so was the accepted DA blob its data comes from, if any. -/
theorem accepted_authentic_iff_bound (genesis : Genesis) (c : Codec) (w : Wire)
    (scheme : Unforgeable w) (provider : SignatureProvider) (now : Time) (state : State)
    (mismatchSeen : Bool) :
    (∀ calls, ∀ e ∈ ((new genesis c w).run calls).1, ∀ lastDataHash,
      validateBlock w c provider now state mismatchSeen (e.filledData lastDataHash) e.header =
        .ok () →
      (ProducedByProposer scheme c genesis e.header.signature ↔ e.header.signer.Bound c) ∧
        (e.data = createEmptyDataForHeader e.header ∨
          ∃ bz ∈ calls.flatMap DaRetriever.Call.blobs, ∃ signedData,
            SignedData.unmarshalBinary w bz = some signedData ∧
            assertValidSignedData w c genesis signedData = .ok e.data ∧
            signedData.data = some e.data ∧
            (ProducedByProposer scheme c genesis signedData.signature ↔
              signedData.signer.Bound c))) ∧
      ∀ header data, processHeight genesis c header data = .ok (header, data) →
        validateBlock w c provider now state mismatchSeen data header = .ok () →
        (ProducedByProposer scheme c genesis header.signature ↔ header.signer.Bound c) := by
  refine ⟨fun calls e he lastDataHash hvalid => ?_, fun header data haccept hvalid => ?_⟩
  · have hchecked := run_checked (new_checked genesis c w) e he
    refine ⟨header_producedByProposer_iff_bound scheme hchecked.proposer hvalid, ?_⟩
    rcases hchecked.data with hempty | ⟨bz, hbz, signedData, key, hdecode, hvouches⟩
    · exact .inl hempty
    · exact .inr ⟨bz, hbz, signedData, hdecode, hvouches.accepted, hvouches.data_eq,
        producedByProposer_iff_bound scheme hvouches.key_eq hvouches.verifies
          hvouches.address_eq⟩
  · have hproposer : header.header.proposerAddress = genesis.proposerAddress := by
      unfold processHeight at haccept
      split_ifs at haccept with hne
      exact (not_not.mp hne).symm
    exact header_producedByProposer_iff_bound scheme hproposer hvalid

/-! ## A small signature scheme

Keys are one byte long, hashing leaves bytes as they are, and a signature is the key followed
by the message. Blobs are decoded by tables.
-/

def byteCodec : Codec := ⟨fun _ => [1], fun _ => [2], fun _ => [3], id⟩

def tableWire (headers : List (Bytes × DAHeaderEnvelopePb))
    (data : List (Bytes × SignedDataPb)) : Wire where
  daHeaderEnvelope := fun bz => headers.lookup bz
  signedHeader := fun bz => (headers.lookup bz).map DAHeaderEnvelopePb.toSignedHeaderPb
  signedData := fun bz => data.lookup bz
  legacyHeaderFields := fun _ => some none
  unmarshalPublicKey := fun bz => some ⟨0, bz⟩
  signedHeaderBytes := fun _ => [4]
  verify := fun key message signature =>
    .ok (decide (key.keyType = 0 ∧ key.raw.length = 1 ∧ signature = key.raw ++ message))

def tableScheme (headers : List (Bytes × DAHeaderEnvelopePb))
    (data : List (Bytes × SignedDataPb)) : Unforgeable (tableWire headers data) where
  producer := fun signature =>
    match signature with
    | [] => none
    | b :: _ => some ⟨0, [b]⟩
  sound := by
    rintro ⟨keyType, raw⟩ message signature hverify
    obtain ⟨htype, hlength, rfl⟩ := of_decide_eq_true (Except.ok.inj hverify)
    obtain ⟨b, rfl⟩ := length_eq_one_iff.mp hlength
    dsimp only at htype
    rw [htype]
    rfl

def proposerGenesis : Genesis := ⟨"chain", 0, 1, [7], 1, 1⟩

def firstState : State := { State.zero with chainID := "chain" }

def blockSigner (b : UInt8) : SignerPb := ⟨[7], [b]⟩

def blockHeader (b : UInt8) (envelopeSignature : Signature) : DAHeaderEnvelopePb :=
  ⟨⟨some ⟨none, 1, 1, [], [0, 3], [], [7], [], "chain", []⟩, [b, 1], some (blockSigner b)⟩,
    envelopeSignature⟩

def blockData : Data := ⟨some ⟨"chain", 1, 1, []⟩, [[5]]⟩

def blockWire (b : UInt8) : Wire :=
  tableWire [([1], blockHeader b [])] [([2], ⟨some blockData, [b, 3], some (blockSigner b)⟩)]

def blockScheme (b : UInt8) : Unforgeable (blockWire b) := tableScheme _ _

def decodedHeader (b : UInt8) : SignedHeader :=
  ⟨⟨1, 1, "chain", ⟨0, 0⟩, [], [0, 3], [], [], [7], none⟩, [b, 1], ⟨some ⟨0, [b]⟩, [7]⟩⟩

/-- A block signed throughout with the key 9, whose address is 9, is accepted as one of the
proposer's, whose address is 7: from DA and from P2P. -/
theorem forged_block_accepted :
    ((new proposerGenesis byteCodec (blockWire 9)).run
        [⟨[[1], [2]], 5, 0⟩]).1 = [⟨decodedHeader 9, blockData, 5⟩] ∧
      SignedData.unmarshalBinary (blockWire 9) [2] =
        some ⟨some blockData, [9, 3], ⟨some ⟨0, [9]⟩, [7]⟩⟩ ∧
      processHeight proposerGenesis byteCodec (decodedHeader 9) blockData =
        .ok (decodedHeader 9, blockData) ∧
      validateBlock (blockWire 9) byteCodec none 0 firstState false blockData
        (decodedHeader 9) = .ok () ∧
      ¬ ProducedByProposer (blockScheme 9) byteCodec proposerGenesis
        (decodedHeader 9).signature ∧
      ¬ ProducedByProposer (blockScheme 9) byteCodec proposerGenesis [9, 3] := by
  have hnot : ∀ message, ¬ ProducedByProposer (blockScheme 9) byteCodec proposerGenesis
      (9 :: message) := by
    rintro message ⟨key, hproducer, haddress⟩
    obtain rfl := some.inj hproducer
    exact absurd haddress (by decide)
  exact ⟨by decide +kernel, by decide +kernel, by decide +kernel, by decide +kernel,
    hnot [1], hnot [3]⟩

theorem authentic_block_accepted :
    ProducedByProposer (blockScheme 7) byteCodec proposerGenesis (decodedHeader 7).signature := by
  have haccepted := accepted_authentic_iff_bound proposerGenesis byteCodec (blockWire 7)
    (blockScheme 7) none 0 firstState false
  have hevent := haccepted.1 [⟨[[1], [2]], 5, 0⟩] ⟨decodedHeader 7, blockData, 5⟩
    (by decide +kernel) none (by decide +kernel)
  exact hevent.1.mpr ⟨⟨0, [7]⟩, rfl, rfl⟩

end ChainSdk

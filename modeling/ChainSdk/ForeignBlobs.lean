/-
What blobs of others can do to the DA retriever.

Anyone can post blobs between those of the proposer. Most of them the retriever passes over without
a trace.
-/
import ChainSdk.BlockAuthenticity

namespace ChainSdk

open DaRetriever List Option

/-! ## Blobs without a trace -/

/-- A blob of none of the three kinds. -/
structure Inert (genesis : Genesis) (c : Codec) (w : Wire) (now : Time) (bz : Blob) : Prop where
  envelope : ∀ header signature key,
    SignedHeader.unmarshalDAEnvelope w bz = some (header, signature) →
    0 < signature.length → header.signer.pubKey = some key →
      w.verify key (w.signedHeaderBytes header) signature ≠ .ok true
  header : ∀ header, DecodesTo w bz header → header.header.validateBasic now = .ok () →
    header.header.proposerAddress ≠ genesis.proposerAddress
  data : ∀ signedData data, SignedData.unmarshalBinary w bz = some signedData →
    signedData.data = some data → signedData.signer.address = genesis.proposerAddress →
      ∃ key, signedData.signer.pubKey = some key ∧
        w.verify key (c.dataBytes data) signedData.signature ≠ .ok true

namespace DaRetriever

variable {r : DaRetriever} {now : Time} {bz : Blob} {daHeight : ℕ}

theorem tryDecodeData_inert (hinert : Inert r.genesis r.codec r.wire now bz) :
    r.tryDecodeData bz daHeight = .ok (none, r) := by
  unfold tryDecodeData
  rcases hdecode : SignedData.unmarshalBinary r.wire bz with _ | signedData
  · rfl
  dsimp only
  split_ifs
  · rfl
  unfold assertValidSignedData assertExpectedProposer
  rcases hdata : signedData.data with _ | data
  · rfl
  by_cases haddress : signedData.signer.address = r.genesis.proposerAddress
  · obtain ⟨key, hkey, hverify⟩ := hinert.data signedData data hdecode hdata haddress
    rw [if_neg (not_not.mpr haddress)]
    rw [hkey]
    dsimp only
    rcases hvalid : r.wire.verify key (r.codec.dataBytes data) signedData.signature with
      e | _ | _
    · rfl
    · rfl
    · exact absurd hvalid hverify
  · rw [if_pos haddress]

theorem decodeBlob_inert {acc : Decoded}
    (hinert : Inert acc.retriever.genesis acc.retriever.codec acc.retriever.wire now bz) :
    decodeBlob now daHeight acc bz = .ok acc := by
  unfold decodeBlob
  split_ifs
  · rfl
  rw [tryDecodeHeader_passed hinert.envelope hinert.header]
  dsimp only
  rw [tryDecodeData_inert hinert]

end DaRetriever

/-! ## Insertions into a run -/

/-- The second list is the first with elements inserted that satisfy `P`. -/
inductive Inserted {α : Type} (P : α → Prop) : List α → List α → Prop
  | nil : Inserted P [] []
  | keep {as bs : List α} (a : α) : Inserted P as bs → Inserted P (a :: as) (a :: bs)
  | insert {as bs : List α} (b : α) : P b → Inserted P as bs → Inserted P as (b :: bs)

theorem Inserted.of_forall {α : Type} {P : α → Prop} {bs : List α} (hall : ∀ b ∈ bs, P b) :
    Inserted P [] bs := by
  induction bs with
  | nil => exact .nil
  | cons b bs ih =>
    exact .insert b (hall b mem_cons_self)
      (ih (fun b' hb' => hall b' (mem_cons_of_mem b hb')))

/-- The second sequence of calls is the first with inert blobs inserted: into the calls, and
as calls of their own. -/
inductive Infiltrated (genesis : Genesis) (c : Codec) (w : Wire) :
    List DaRetriever.Call → List DaRetriever.Call → Prop
  | nil : Infiltrated genesis c w [] []
  | into {calls calls' : List DaRetriever.Call} {blobs blobs' : List Blob} (daHeight : ℕ)
      (now : Time) : Inserted (Inert genesis c w now) blobs blobs' →
      Infiltrated genesis c w calls calls' →
      Infiltrated genesis c w (⟨blobs, daHeight, now⟩ :: calls) (⟨blobs', daHeight, now⟩ :: calls')
  | between {calls calls' : List DaRetriever.Call} (extra : DaRetriever.Call) :
      (∀ bz ∈ extra.blobs, Inert genesis c w extra.now bz) →
      Infiltrated genesis c w calls calls' → Infiltrated genesis c w calls (extra :: calls')

namespace DaRetriever

variable {r : DaRetriever}

theorem decodeBlobs_inserted {now : Time} {daHeight : ℕ} {more more' : List Blob}
    (hinserted : Inserted (Inert r.genesis r.codec r.wire now) more more') :
    ∀ {blobs : List Blob} {acc : Decoded}, r.Decodes blobs acc →
      decodeBlobs now daHeight acc more' = decodeBlobs now daHeight acc more := by
  induction hinserted with
  | nil => exact fun _ => rfl
  | keep bz _ ih =>
    intro blobs acc hacc
    rw [decodeBlobs, decodeBlobs]
    rcases hround : decodeBlob now daHeight acc bz with panic | acc₁
    · rfl
    · exact ih (hacc.decodeBlob hround)
  | insert bz hinert _ ih =>
    intro blobs acc hacc
    obtain ⟨strict, headerMarks, dataMarks, hr⟩ := hacc.retriever
    have hsame : decodeBlob now daHeight acc bz = .ok acc := by
      apply decodeBlob_inert
      rw [hr]
      exact hinert
    rw [decodeBlobs, hsame]
    exact ih hacc

theorem processBlobs_inserted {blobs blobs' : List Blob} {daHeight : ℕ} {now : Time}
    (hinserted : Inserted (Inert r.genesis r.codec r.wire now) blobs blobs') :
    r.processBlobs ⟨blobs', daHeight, now⟩ = r.processBlobs ⟨blobs, daHeight, now⟩ := by
  unfold processBlobs
  rw [decodeBlobs_inserted hinserted (Decodes.start r)]

/-! ## Calls that only look at what is pending -/

theorem Settled.matchHeaders_eq (hr : r.Settled) (daHeight : ℕ) :
    r.matchHeaders daHeight = (r, []) := by
  have hwaits : ∀ p ∈ r.pendingHeaders.entries, r.Waits p.1 p.2 := by
    rintro ⟨h, header⟩ hp
    exact hr h header (AList.mem_lookup_iff.mpr hp)
  refine Runs.foldl_invariant (matchHeader daHeight) (fun acc => acc = (r, []))
    (fun _ p => r.Waits p.1 p.2) ?_ rfl (Runs.steps_of_forall hwaits)
  rintro acc p rfl ⟨hnone, hexpected⟩
  unfold matchHeader
  rw [hnone, hexpected]
  rfl

theorem processBlobs_settled {call : Call} {r' : DaRetriever} {events : List DAHeightEvent}
    (h : r.processBlobs call = .ok (r', events)) : r'.Settled := by
  obtain ⟨decoded, -, -, hprocessed⟩ := processBlobsIn_ok (processBlobs_eq r call ▸ h)
  intro h header hlookup
  rw [hprocessed.headers, filter_eq_some_iff, isNone_iff_eq_none] at hlookup
  obtain ⟨hat, hemit⟩ := hlookup
  refine ⟨by rw [hprocessed.data, hat]; rfl, ?_⟩
  rcases hdata : r.dataAt decoded h with _ | data
  · simpa [hdata, emit] using hemit
  · simp [hdata, emit] at hemit

theorem processBlobs_inert {extra : Call} (hsettled : r.Settled)
    (hinert : ∀ bz ∈ extra.blobs, Inert r.genesis r.codec r.wire extra.now bz) :
    r.processBlobs extra = .ok (r, []) := by
  have hnone : r.processBlobs ⟨extra.blobs, extra.daHeight, extra.now⟩ =
      r.processBlobs ⟨[], extra.daHeight, extra.now⟩ :=
    processBlobs_inserted (Inserted.of_forall hinert)
  refine hnone.trans ?_
  unfold processBlobs
  dsimp only [decodeBlobs, foldl_nil]
  rw [hsettled.matchHeaders_eq]

theorem run_infiltrated {genesis : Genesis} {c : Codec} {w : Wire} {calls calls' : List Call}
    (hinfiltrated : Infiltrated genesis c w calls calls') :
    ∀ {r : DaRetriever}, r.genesis = genesis → r.codec = c → r.wire = w → r.Settled →
      r.run calls' = r.run calls := by
  induction hinfiltrated with
  | nil => exact fun _ _ _ _ => rfl
  | into daHeight now hinserted _ ih =>
    rintro r rfl rfl rfl hsettled
    rw [run, run, processBlobs_inserted hinserted]
    rcases hcall : r.processBlobs ⟨_, daHeight, now⟩ with panic | ⟨r', events⟩
    · rfl
    obtain ⟨decoded, -, -, hprocessed⟩ := processBlobsIn_ok (processBlobs_eq r _ ▸ hcall)
    have hrest := ih hprocessed.genesis_eq hprocessed.codec_eq hprocessed.wire_eq
      (processBlobs_settled hcall)
    dsimp only
    rw [hrest]
  | between extra hinert _ ih =>
    rintro r rfl rfl rfl hsettled
    rw [run, processBlobs_inert hsettled hinert]
    dsimp only
    rw [nil_append, ih rfl rfl rfl hsettled]

end DaRetriever

/-- However blobs are inserted into a sequence of `processBlobs` calls, if none of them is an
envelope that verifies under its own key, a well-formed header that names the proposer, or
data with the proposer's address that verifies under its own key: the calls emit the same
events, end in the same retriever, and panic only if they do so without the insertions. -/
theorem foreign_blobs_without_trace (genesis : Genesis) (c : Codec) (w : Wire)
    (calls calls' : List DaRetriever.Call) (hinserted : Infiltrated genesis c w calls calls') :
    (new genesis c w).run calls' = (new genesis c w).run calls := by
  refine run_infiltrated hinserted rfl rfl rfl ?_
  intro h header hlookup
  exact absurd hlookup (by simp [new])

/-! ## Three blobs with a trace

The proposer's first block, with its header as `[1]` and its data as `[2]`, among blobs that
are all signed with the key 9.
-/

def foreignHeader (address : Bytes) (envelopeSignature : Signature) : DAHeaderEnvelopePb :=
  ⟨⟨some ⟨none, 1, 1, [], [0, 3], [8], address, [], "chain", []⟩, [9, 1], some ⟨address, [9]⟩⟩,
    envelopeSignature⟩

/-- `[3]` names the proposer, `[4]` is an envelope with a valid signature, `[5]` is data
without metadata, and `[6]` is the header of another chain's proposer. -/
def mixedWire : Wire :=
  tableWire
    [([1], blockHeader 7 []), ([3], foreignHeader [7] []), ([4], foreignHeader [9] [9, 4]),
      ([6], foreignHeader [9] [])]
    [([2], ⟨some blockData, [7, 3], some (blockSigner 7)⟩),
      ([5], ⟨some ⟨none, [[5]]⟩, [9, 3], some (blockSigner 9)⟩)]

def mixedScheme : Unforgeable mixedWire := tableScheme _ _

def mixedRetriever : DaRetriever := .new proposerGenesis byteCodec mixedWire

def intruder : SignedHeader :=
  ⟨⟨1, 1, "chain", ⟨0, 0⟩, [], [0, 3], [8], [], [7], none⟩, [9, 1], ⟨some ⟨0, [9]⟩, [7]⟩⟩

/-- Without insertions the block is emitted. Before it, `[3]` has another header emitted in
its place, `[4]` has it rejected, and `[5]` ends the process. No signature of the three is the
proposer's. -/
theorem foreign_blobs_interfere :
    (mixedRetriever.run [⟨[[1], [2]], 5, 0⟩]).1 = [⟨decodedHeader 7, blockData, 5⟩] ∧
      (mixedRetriever.run [⟨[[3], [1], [2]], 5, 0⟩]).1 = [⟨intruder, blockData, 5⟩] ∧
      (mixedRetriever.run [⟨[[4], [1], [2]], 5, 0⟩]).1 = [] ∧
      mixedRetriever.run [⟨[[5], [1], [2]], 5, 0⟩] = ([], .error .nilMetadata) ∧
      ∀ signature ∈ [[9, 1], [9, 4], [9, 3]],
        ¬ ProducedByProposer mixedScheme byteCodec proposerGenesis signature := by
  refine ⟨by decide +kernel, by decide +kernel, by decide +kernel, rfl, ?_⟩
  intro signature hsignature
  have hhead : ∃ message, signature = 9 :: message := by
    simp only [mem_cons, not_mem_nil, or_false] at hsignature
    rcases hsignature with rfl | rfl | rfl
    · exact ⟨_, rfl⟩
    · exact ⟨_, rfl⟩
    · exact ⟨_, rfl⟩
  obtain ⟨message, rfl⟩ := hhead
  rintro ⟨key, hproducer, haddress⟩
  obtain rfl := some.inj hproducer
  exact absurd haddress (by decide)

theorem otherHeader_inert : Inert proposerGenesis byteCodec mixedWire 0 [6] where
  envelope := by
    intro header signature key hdecode hsigned
    obtain ⟨-, rfl⟩ := Prod.mk.inj (some.inj hdecode)
    exact absurd hsigned (by decide)
  header := by
    rintro header (⟨signature, hdecode⟩ | ⟨hdecode, -⟩) hbasic
    · obtain ⟨rfl, -⟩ := Prod.mk.inj (some.inj hdecode)
      decide
    · exact absurd hdecode (by decide +kernel)
  data := by
    intro signedData data hdecode
    exact absurd hdecode (by
      rw [show SignedData.unmarshalBinary mixedWire [6] = none by decide +kernel]
      simp)

theorem other_header_without_trace :
    mixedRetriever.run [⟨[[6]], 4, 0⟩, ⟨[[6], [1], [2]], 5, 0⟩] =
      mixedRetriever.run [⟨[[1], [2]], 5, 0⟩] := by
  refine foreign_blobs_without_trace proposerGenesis byteCodec mixedWire
    [⟨[[1], [2]], 5, 0⟩] [⟨[[6]], 4, 0⟩, ⟨[[6], [1], [2]], 5, 0⟩] ?_
  refine .between ⟨[[6]], 4, 0⟩ ?_ (.into 5 0 (.insert [6] otherHeader_inert
    (.keep [1] (.keep [2] .nil))) .nil)
  intro bz hbz
  rw [mem_singleton.mp hbz]
  exact otherHeader_inert

end ChainSdk

/-
What one call of `processBlobs` does to what is pending, in closed form.

Decoding touches strict mode and the marks on the cache only. The headers and the data it gives join
those that wait, the first of a height first.
-/
import ChainSdk.DaRetriever
import ChainSdk.Runs

namespace ChainSdk

open DaRetriever Except List Option SignedHeader

/-! ## What the checks let through -/

variable {key : PubKey} {daHeight : ℕ} {r : DaRetriever} {genesis : Genesis} {ev : DAHeightEvent}
  {signature : Signature} {data : Data} {header : SignedHeader}

theorem assertExpectedProposer_ok {address : Bytes}
    (h : assertExpectedProposer genesis address = .ok ()) :
    address = genesis.proposerAddress := by
  unfold assertExpectedProposer at h
  split_ifs at h with hne
  exact not_not.mp hne

/-- Signed data as the retriever takes it: it has the proposer's address, and its signature
verifies under its own key. -/
structure SignedData.Vouches (w : Wire) (c : Codec) (genesis : Genesis) (signedData : SignedData)
    (data : Data) (key : PubKey) : Prop where
  accepted : assertValidSignedData w c genesis signedData = .ok data
  data_eq : signedData.data = some data
  address_eq : signedData.signer.address = genesis.proposerAddress
  key_eq : signedData.signer.pubKey = some key
  verifies : w.verify key (c.dataBytes data) signedData.signature = .ok true

theorem assertValidSignedData_ok {w : Wire} {c : Codec} {signedData : SignedData}
    (h : assertValidSignedData w c genesis signedData = .ok data) :
    ∃ key, signedData.Vouches w c genesis data key := by
  have haccepted := h
  unfold assertValidSignedData at h
  rcases hdata : signedData.data with _ | d
  · simp [hdata] at h
  rw [hdata] at h
  -- the checks in the order of the source; each failure is an error
  rcases hproposer : assertExpectedProposer genesis signedData.signer.address with e | _
  · simp [hproposer] at h
  rw [hproposer] at h
  rcases hkey : signedData.signer.pubKey with _ | key
  · simp [hkey] at h
  rw [hkey] at h
  dsimp only at h
  rcases hverify : w.verify key (c.dataBytes d) signedData.signature with e | valid
  · simp [hverify] at h
  rw [hverify] at h
  cases valid with
  | false => exact absurd h (by simp)
  | true =>
    obtain rfl := ok.inj h
    exact ⟨key, haccepted, hdata, assertExpectedProposer_ok hproposer, hkey, hverify⟩

/-- A blob decoded as a header: from an envelope, or the way it was before envelopes if it is
none. -/
def DecodesTo (w : Wire) (bz : Blob) (header : SignedHeader) : Prop :=
  (∃ signature, unmarshalDAEnvelope w bz = some (header, signature)) ∨
    unmarshalDAEnvelope w bz = none ∧ unmarshalBinary w bz = some header

namespace DaRetriever

/-- `tryDecodeData` changes the marks on the cache, nothing else, and data it returns comes
from signed data that vouches for it. -/
theorem tryDecodeData_spec {r' : DaRetriever} {bz : Bytes}
    {result : Option Data} (h : r.tryDecodeData bz daHeight = .ok (result, r')) :
    (∃ marks, r' = { r with dataDAIncluded := marks }) ∧
      ∀ data, result = some data → ∃ signedData key,
        SignedData.unmarshalBinary r.wire bz = some signedData ∧
          signedData.Vouches r.wire r.codec r.genesis data key := by
  unfold tryDecodeData at h
  rcases hdecode : SignedData.unmarshalBinary r.wire bz with _ | signedData
  · rw [hdecode] at h
    obtain ⟨rfl, rfl⟩ := Prod.mk.inj (ok.inj h)
    exact ⟨⟨_, rfl⟩, fun _ h => absurd h (by simp)⟩
  rw [hdecode] at h
  dsimp only at h
  split_ifs at h with hempty
  · obtain ⟨rfl, rfl⟩ := Prod.mk.inj (ok.inj h)
    exact ⟨⟨_, rfl⟩, fun _ h => absurd h (by simp)⟩
  rcases hvalid : assertValidSignedData r.wire r.codec r.genesis signedData with e | data
  · -- every error but the nil key is a blob passed over
    rw [hvalid] at h
    have hsame : result = none ∧ r' = r := by
      cases e with
      | nilPubKey => exact absurd h (by simp)
      | _ =>
        obtain ⟨hresult, hr⟩ := Prod.mk.inj (ok.inj h)
        exact ⟨hresult.symm, hr.symm⟩
    obtain ⟨rfl, rfl⟩ := hsame
    exact ⟨⟨_, rfl⟩, fun _ h => absurd h (by simp)⟩
  · rw [hvalid] at h
    dsimp only at h
    rcases hmeta : data.metadata with _ | metadata
    · simp [hmeta] at h
    rw [hmeta] at h
    obtain ⟨rfl, rfl⟩ := Prod.mk.inj (ok.inj h)
    refine ⟨⟨_, rfl⟩, fun data' h => ?_⟩
    obtain rfl := some.inj h
    obtain ⟨key, hvouches⟩ := assertValidSignedData_ok hvalid
    exact ⟨signedData, key, rfl, hvouches⟩

section

variable {r : DaRetriever} {now : Time} {bz : Blob} {daHeight : ℕ}

theorem decodeHeader_spec {isValidEnvelope : Bool}
    (h : r.decodeHeader bz = some (header, isValidEnvelope)) :
    DecodesTo r.wire bz header ∧ (isValidEnvelope = true → ∃ signature key,
      unmarshalDAEnvelope r.wire bz = some (header, signature) ∧
        0 < signature.length ∧ header.signer.pubKey = some key ∧
          r.wire.verify key (r.wire.signedHeaderBytes header) signature = .ok true) := by
  unfold decodeHeader at h
  rcases hdecode : unmarshalDAEnvelope r.wire bz with _ | ⟨header', signature⟩
  · rw [hdecode] at h
    by_cases hstrict : r.strictMode = true
    · simp [if_pos hstrict] at h
    · rw [if_neg hstrict] at h
      obtain ⟨header', hlegacy, heq⟩ := map_eq_some_iff.mp h
      obtain ⟨rfl, rfl⟩ := Prod.mk.inj heq
      exact ⟨.inr ⟨hdecode, hlegacy⟩, by simp⟩
  · rw [hdecode] at h
    dsimp only at h
    by_cases hsigned : 0 < signature.length
    · rw [if_pos hsigned] at h
      rcases hkey : header'.signer.pubKey with _ | key
      · simp [hkey] at h
      rw [hkey] at h
      dsimp only at h
      split_ifs at h with hverify
      obtain ⟨rfl, rfl⟩ := Prod.mk.inj (some.inj h)
      exact ⟨.inl ⟨signature, hdecode⟩, fun _ => ⟨signature, key, rfl, hsigned, hkey, hverify⟩⟩
    · rw [if_neg hsigned] at h
      obtain ⟨rfl, rfl⟩ := Prod.mk.inj (some.inj h)
      exact ⟨.inl ⟨signature, hdecode⟩, by simp⟩

theorem tryDecodeHeader_spec (r : DaRetriever) (now : Time) (bz : Bytes) (daHeight : ℕ) :
    (∃ strict marks, (r.tryDecodeHeader now bz daHeight).2 =
        { r with strictMode := strict, headerDAIncluded := marks }) ∧
      ∀ header, (r.tryDecodeHeader now bz daHeight).1 = some header →
        DecodesTo r.wire bz header ∧ header.header.validateBasic now = .ok () ∧
          header.header.proposerAddress = r.genesis.proposerAddress := by
  unfold tryDecodeHeader
  rcases hdecode : r.decodeHeader bz with _ | ⟨header, isValidEnvelope⟩
  · exact ⟨⟨_, _, rfl⟩, fun _ h => absurd h (by simp)⟩
  dsimp only
  split_ifs
  · exact ⟨⟨_, _, rfl⟩, fun _ h => absurd h (by simp)⟩
  rcases hbasic : header.header.validateBasic now with e | _
  · exact ⟨⟨_, _, rfl⟩, fun _ h => absurd h (by simp)⟩
  rcases hproposer : assertExpectedProposer r.genesis header.header.proposerAddress with e | _
  · exact ⟨⟨_, _, rfl⟩, fun _ h => absurd h (by simp)⟩
  · refine ⟨⟨_, _, rfl⟩, fun header' h => ?_⟩
    obtain rfl := some.inj h
    exact ⟨(decodeHeader_spec hdecode).1, hbasic, assertExpectedProposer_ok hproposer⟩

theorem decodeBlob_spec {decoded : Decoded}
    (h : decodeBlob now daHeight ⟨r, [], []⟩ bz = .ok decoded) :
    (∃ strict headerMarks dataMarks, decoded.retriever = { r with
        strictMode := strict
        headerDAIncluded := headerMarks
        dataDAIncluded := dataMarks }) ∧
      (∀ header ∈ decoded.headers, DecodesTo r.wire bz header ∧
        header.header.proposerAddress = r.genesis.proposerAddress) ∧
      ∀ data ∈ decoded.data, ∃ signedData key,
        SignedData.unmarshalBinary r.wire bz = some signedData ∧
          signedData.Vouches r.wire r.codec r.genesis data key := by
  unfold decodeBlob at h
  split_ifs at h with hempty
  · obtain rfl := ok.inj h
    exact ⟨⟨_, _, _, rfl⟩, by simp, by simp⟩
  obtain ⟨⟨strict, marks, hsnd⟩, hreturned⟩ := tryDecodeHeader_spec r now bz daHeight
  rcases hdecode : r.tryDecodeHeader now bz daHeight with ⟨_ | header, r'⟩
  · rw [hdecode] at h hsnd
    obtain rfl : r' = _ := hsnd
    dsimp only at h
    rcases htry : ({ r with strictMode := strict, headerDAIncluded := marks } :
        DaRetriever).tryDecodeData bz daHeight with panic | ⟨_ | data, r''⟩
    · simp [htry] at h
    · rw [htry] at h
      obtain ⟨⟨marks', rfl⟩, -⟩ := tryDecodeData_spec htry
      obtain rfl := ok.inj h
      exact ⟨⟨_, _, _, rfl⟩, by simp, by simp⟩
    · rw [htry] at h
      obtain ⟨⟨marks', rfl⟩, hvouches⟩ := tryDecodeData_spec htry
      obtain rfl := ok.inj h
      refine ⟨⟨_, _, _, rfl⟩, by simp, fun data' hdata => ?_⟩
      obtain rfl : data' = data := by simpa using hdata
      exact hvouches data' rfl
  · obtain ⟨hdecodes, -, hproposer⟩ := hreturned header (congrArg Prod.fst hdecode)
    rw [hdecode] at h hsnd
    obtain rfl : r' = _ := hsnd
    obtain rfl := ok.inj h
    refine ⟨⟨_, _, _, rfl⟩, fun header' hheader => ?_, by simp⟩
    obtain rfl : header' = header := by simpa using hheader
    exact ⟨hdecodes, hproposer⟩

/-! ## Three kinds of blobs -/

theorem tryDecodeHeader_envelope
    (hdecode : unmarshalDAEnvelope r.wire bz = some (header, signature))
    (hsigned : 0 < signature.length) (hkey : header.signer.pubKey = some key)
    (hverify : r.wire.verify key (r.wire.signedHeaderBytes header) signature = .ok true)
    (hbasic : header.header.validateBasic now = .ok ())
    (hproposer : header.header.proposerAddress = r.genesis.proposerAddress) :
    r.tryDecodeHeader now bz daHeight = (some header, { r with
      strictMode := true
      headerDAIncluded := r.headerDAIncluded ++
        [(r.codec.headerHash header.header, daHeight, header.header.height)] }) := by
  have hheader : r.decodeHeader bz = some (header, true) := by
    unfold decodeHeader
    simp only [hdecode, hsigned, if_true, hkey, hverify]
  unfold tryDecodeHeader
  simp [hheader, hbasic, assertExpectedProposer, hproposer]

theorem tryDecodeHeader_passed (henvelope : ∀ header signature key,
      unmarshalDAEnvelope r.wire bz = some (header, signature) →
      0 < signature.length → header.signer.pubKey = some key →
        r.wire.verify key (r.wire.signedHeaderBytes header) signature ≠ .ok true)
    (hheader : ∀ header, DecodesTo r.wire bz header → header.header.validateBasic now = .ok () →
      header.header.proposerAddress ≠ r.genesis.proposerAddress) :
    r.tryDecodeHeader now bz daHeight = (none, r) := by
  unfold tryDecodeHeader
  rcases hdecode : r.decodeHeader bz with _ | ⟨header, isValidEnvelope⟩
  · rfl
  obtain ⟨hdecodes, hvalid⟩ := decodeHeader_spec hdecode
  obtain rfl : isValidEnvelope = false := by
    rw [Bool.eq_false_iff]
    intro htrue
    obtain ⟨signature, key, hbz, hsigned, hkey, hverify⟩ := hvalid htrue
    exact henvelope header signature key hbz hsigned hkey hverify
  dsimp only
  by_cases hstrict : (r.strictMode && !false) = true
  · rw [if_pos hstrict]
  -- outside strict mode the header fails a check, and the mode stays as it is
  rw [if_neg hstrict, Bool.or_false]
  rcases hbasic : header.header.validateBasic now with e | _
  · rfl
  unfold assertExpectedProposer
  rw [if_pos (hheader header hdecodes hbasic)]

theorem tryDecodeHeader_nameless (hunsigned : ∀ header signature,
      unmarshalDAEnvelope r.wire bz = some (header, signature) → signature = [])
    (hnameless : ∀ header, DecodesTo r.wire bz header → header.header.proposerAddress = []) :
    r.tryDecodeHeader now bz daHeight = (none, r) := by
  apply tryDecodeHeader_passed
  · intro header signature key hdecode hsigned
    simp [hunsigned header signature hdecode] at hsigned
  · intro header hdecodes hbasic
    simp [Header.validateBasic, hnameless header hdecodes] at hbasic

theorem tryDecodeData_valid {metadata : Metadata} (hdecode : SignedData.unmarshalBinary r.wire bz =
      some ⟨some data, signature, ⟨some key, r.genesis.proposerAddress⟩⟩)
    (hfull : data.txs ≠ [] ∨ signature ≠ [])
    (hverify : r.wire.verify key (r.codec.dataBytes data) signature = .ok true)
    (hmetadata : data.metadata = some metadata) :
    r.tryDecodeData bz daHeight = .ok (some data, { r with
      dataDAIncluded := r.dataDAIncluded ++
        [(r.codec.daCommitment data.txs, daHeight, metadata.height)] }) := by
  have hvalid : assertValidSignedData r.wire r.codec r.genesis
      ⟨some data, signature, ⟨some key, r.genesis.proposerAddress⟩⟩ = .ok data := by
    simp [assertValidSignedData, assertExpectedProposer, hverify]
  have hskipped : ¬ (data.txs.length = 0 ∧ signature.length = 0) := by
    simpa [imp_iff_not_or] using hfull
  unfold tryDecodeData
  simp only [hdecode, map_some, getD_some, if_neg hskipped, hvalid, hmetadata]

end

/-! ## Decoding -/

section

variable {now : Time} {daHeight : ℕ} {bz : Blob}

theorem decodeBlob_append (acc : Decoded) :
    decodeBlob now daHeight acc bz = (decodeBlob now daHeight ⟨acc.retriever, [], []⟩ bz).map
      fun new => ⟨new.retriever, acc.headers ++ new.headers, acc.data ++ new.data⟩ := by
  unfold decodeBlob
  split_ifs
  · simp [Except.map]
  rcases acc.retriever.tryDecodeHeader now bz daHeight with ⟨_ | header, r'⟩
  · dsimp only
    rcases r'.tryDecodeData bz daHeight with panic | ⟨_ | data, r''⟩
    · rfl
    · simp [Except.map]
    · simp [Except.map]
  · simp [Except.map]

def Named (r : DaRetriever) (blobs : List Blob) (header : SignedHeader) : Prop :=
  ∃ bz ∈ blobs, DecodesTo r.wire bz header ∧
    header.header.proposerAddress = r.genesis.proposerAddress

def Vouched (w : Wire) (c : Codec) (genesis : Genesis) (blobs : List Blob) (data : Data) : Prop :=
  ∃ bz ∈ blobs, ∃ signedData key, SignedData.unmarshalBinary w bz = some signedData ∧
    signedData.Vouches w c genesis data key

/-- A decoding loop that was begun on `r` and has got through the blobs. -/
structure Decodes (r : DaRetriever) (blobs : List Blob) (acc : Decoded) : Prop where
  retriever : ∃ strict headerMarks dataMarks, acc.retriever = { r with
    strictMode := strict
    headerDAIncluded := headerMarks
    dataDAIncluded := dataMarks }
  headers : ∀ header ∈ acc.headers, r.Named blobs header
  data : ∀ data ∈ acc.data, Vouched r.wire r.codec r.genesis blobs data

theorem Decodes.start (r : DaRetriever) : r.Decodes [] ⟨r, [], []⟩ :=
  ⟨⟨_, _, _, rfl⟩, by simp, by simp⟩

theorem Decodes.decodeBlob {blobs : List Blob} {acc acc' : Decoded}
    (hacc : r.Decodes blobs acc) (h : decodeBlob now daHeight acc bz = .ok acc') :
    r.Decodes (blobs ++ [bz]) acc' := by
  rw [decodeBlob_append] at h
  rcases hnew : DaRetriever.decodeBlob now daHeight ⟨acc.retriever, [], []⟩ bz with panic | new
  · simp [hnew, Except.map] at h
  rw [hnew] at h
  obtain rfl := ok.inj h
  obtain ⟨⟨s, hm, dm, hr⟩, hheaders, hdata⟩ := decodeBlob_spec hnew
  obtain ⟨⟨s₀, hm₀, dm₀, hr₀⟩, hheaders₀, hdata₀⟩ := hacc
  rw [hr₀] at hr hheaders hdata
  refine ⟨⟨s, hm, dm, hr⟩, fun header hmem => ?_, fun data hmem => ?_⟩
  · rcases mem_append.mp hmem with hold | hmem
    · obtain ⟨b, hb, hdecodes⟩ := hheaders₀ header hold
      exact ⟨b, mem_append_left _ hb, hdecodes⟩
    · exact ⟨bz, by simp, hheaders header hmem⟩
  · rcases mem_append.mp hmem with hold | hmem
    · obtain ⟨b, hb, hvouches⟩ := hdata₀ data hold
      exact ⟨b, mem_append_left _ hb, hvouches⟩
    · exact ⟨bz, by simp, hdata data hmem⟩

theorem Decodes.decodeBlobs {more : List Blob} :
    ∀ {blobs : List Blob} {acc acc' : Decoded}, r.Decodes blobs acc →
      decodeBlobs now daHeight acc more = .ok acc' →
      r.Decodes (blobs ++ more) acc' := by
  induction more with
  | nil =>
    intro blobs acc acc' hacc h
    obtain rfl := ok.inj h
    rwa [append_nil]
  | cons bz more ih =>
    intro blobs acc acc' hacc h
    rw [DaRetriever.decodeBlobs] at h
    rcases hround : DaRetriever.decodeBlob now daHeight acc bz with panic | acc₁
    · simp [hround] at h
    · rw [hround] at h
      have hrest := ih (hacc.decodeBlob hround) h
      rwa [append_assoc] at hrest

end

/-! ## Joining what is pending -/

theorem foldl_addHeader (headers : List SignedHeader) (r : DaRetriever) :
    headers.foldl addHeader r = { r with
      pendingHeaders := headers.foldl (insertNew (·.header.height)) r.pendingHeaders } := by
  induction headers generalizing r with
  | nil => rfl
  | cons header headers ih =>
    rw [foldl_cons, foldl_cons, ih]
    unfold addHeader insertNew
    split_ifs <;> rfl

theorem foldl_addData (ds : List Data) (r : DaRetriever) :
    ds.foldl addData r = { r with
      pendingData := ds.foldl (insertNew dataHeight) r.pendingData } := by
  induction ds generalizing r with
  | nil => rfl
  | cons data ds ih =>
    rw [foldl_cons, foldl_cons, ih]
    unfold addData insertNew
    split_ifs <;> rfl

/-! ## Matching -/

def emit (daHeight : ℕ) (header : SignedHeader) : Option Data → Option DAHeightEvent
  | none =>
    if isEmptyDataExpected header then
      some ⟨header, createEmptyDataForHeader header, daHeight⟩
    else none
  | some data => some ⟨header, data, daHeight⟩

theorem matchHeader_spec (daHeight : ℕ) (acc : DaRetriever × List DAHeightEvent)
    (p : Sigma fun _ : ℕ => SignedHeader) :
    ∃ hs ds, matchHeader daHeight acc p =
        ({ acc.1 with pendingHeaders := hs, pendingData := ds },
          acc.2 ++ (emit daHeight p.2 (acc.1.pendingData.lookup p.1)).toList) ∧
      (∀ h ≠ p.1, hs.lookup h = acc.1.pendingHeaders.lookup h ∧
        ds.lookup h = acc.1.pendingData.lookup h) ∧
      hs.lookup p.1 = (if (emit daHeight p.2 (acc.1.pendingData.lookup p.1)).isSome then none
        else acc.1.pendingHeaders.lookup p.1) ∧
      ds.lookup p.1 = none := by
  unfold matchHeader
  rcases hdata : acc.1.pendingData.lookup p.1 with _ | data
  · by_cases hempty : isEmptyDataExpected p.2 = true
    · rw [emit, if_pos hempty, if_pos hempty]
      exact ⟨_, _, rfl, fun h hh => ⟨AList.lookup_erase_ne hh, rfl⟩, by simp, hdata⟩
    · rw [emit, if_neg hempty, if_neg hempty]
      exact ⟨_, _, by simp, fun h _ => ⟨rfl, rfl⟩, by simp, hdata⟩
  · exact ⟨_, _, rfl, fun h hh => ⟨AList.lookup_erase_ne hh, AList.lookup_erase_ne hh⟩,
      by simp [emit], by simp⟩

theorem foldl_matchHeader (daHeight : ℕ) {l : List (Sigma fun _ : ℕ => SignedHeader)}
    (hl : l.NodupKeys) (acc : DaRetriever × List DAHeightEvent) :
    ∃ hs ds, l.foldl (matchHeader daHeight) acc =
        ({ acc.1 with pendingHeaders := hs, pendingData := ds },
          acc.2 ++ l.filterMap (fun p => emit daHeight p.2 (acc.1.pendingData.lookup p.1))) ∧
      (∀ h ∉ l.keys, hs.lookup h = acc.1.pendingHeaders.lookup h ∧
        ds.lookup h = acc.1.pendingData.lookup h) ∧
      ∀ p ∈ l, hs.lookup p.1 = (if (emit daHeight p.2 (acc.1.pendingData.lookup p.1)).isSome
          then none else acc.1.pendingHeaders.lookup p.1) ∧ ds.lookup p.1 = none := by
  induction l generalizing acc with
  | nil => exact ⟨_, _, by simp, fun h _ => ⟨rfl, rfl⟩, by simp⟩
  | cons p l ih =>
    obtain ⟨hp, hl⟩ := nodupKeys_cons.mp hl
    obtain ⟨hs₁, ds₁, hround, hother, hsame, hnone⟩ := matchHeader_spec daHeight acc p
    obtain ⟨hs, ds, hrest, hout, hin⟩ := ih hl (matchHeader daHeight acc p)
    rw [hround] at hrest hout hin
    -- the keys of the other rounds are others
    have hne : ∀ q ∈ l, q.1 ≠ p.1 := by
      intro q hq heq
      exact hp (heq ▸ mem_keys_of_mem hq)
    refine ⟨hs, ds, ?_, fun h hh => ?_, fun q hq => ?_⟩
    · rw [foldl_cons, hround, hrest, filterMap_cons]
      have hemits : l.filterMap (fun q => emit daHeight q.2 (ds₁.lookup q.1)) =
          l.filterMap (fun q => emit daHeight q.2 (acc.1.pendingData.lookup q.1)) :=
        filterMap_congr (fun q hq => by rw [(hother q.1 (hne q hq)).2])
      dsimp only
      rw [hemits]
      rcases emit daHeight p.2 (acc.1.pendingData.lookup p.1) with _ | ev <;> simp
    · rw [keys_cons, mem_cons, not_or] at hh
      rw [(hout h hh.2).1, (hout h hh.2).2]
      exact hother h hh.1
    · rcases mem_cons.mp hq with rfl | hq
      · rw [(hout q.1 hp).1, (hout q.1 hp).2]
        exact ⟨hsame, hnone⟩
      · have hq' := hin q hq
        dsimp only at hq'
        rwa [(hother q.1 (hne q hq)).1, (hother q.1 (hne q hq)).2] at hq'

structure MapOrder where
  arrange : List (Sigma fun _ : ℕ => SignedHeader) → List (Sigma fun _ : ℕ => SignedHeader)
  perm : ∀ l, (arrange l).Perm l

def MapOrder.asListed : MapOrder := ⟨id, fun _ => .refl _⟩

def processBlobsIn (order : MapOrder) (r : DaRetriever) (call : Call) :
    Except Panic (DaRetriever × List DAHeightEvent) :=
  match decodeBlobs call.now call.daHeight ⟨r, [], []⟩ call.blobs with
  | .error panic => .error panic
  | .ok decoded =>
    let r := decoded.headers.foldl addHeader decoded.retriever
    let r := decoded.data.foldl addData r
    .ok ((order.arrange r.pendingHeaders.entries).foldl (matchHeader call.daHeight) (r, []))

theorem processBlobs_eq (r : DaRetriever) (call : Call) :
    r.processBlobs call = r.processBlobsIn .asListed call := rfl

/-! ## A call -/

/-- The header of a height while a call matches: one that waits, or the first that was decoded. -/
def headerAt (r : DaRetriever) (decoded : Decoded) (h : ℕ) : Option SignedHeader :=
  (r.pendingHeaders.lookup h).or (decoded.headers.find? (·.header.height = h))

def dataAt (r : DaRetriever) (decoded : Decoded) (h : ℕ) : Option Data :=
  (r.pendingData.lookup h).or (decoded.data.find? (dataHeight · = h))

structure Processed (r : DaRetriever) (call : Call) (decoded : Decoded) (r' : DaRetriever)
    (events : List DAHeightEvent) : Prop where
  genesis_eq : r'.genesis = r.genesis
  codec_eq : r'.codec = r.codec
  wire_eq : r'.wire = r.wire
  headers : ∀ h, r'.pendingHeaders.lookup h = (r.headerAt decoded h).filter
    (fun header => (emit call.daHeight header (r.dataAt decoded h)).isNone)
  data : ∀ h, r'.pendingData.lookup h =
    if (r.headerAt decoded h).isSome then none else r.dataAt decoded h
  events : ∃ l : List (Sigma fun _ : ℕ => SignedHeader), l.NodupKeys ∧
    (∀ h header, ⟨h, header⟩ ∈ l ↔ r.headerAt decoded h = some header) ∧
    events = l.filterMap (fun p => emit call.daHeight p.2 (r.dataAt decoded p.1))

section

variable {r r' : DaRetriever} {order : MapOrder} {call : Call} {decoded : Decoded}
  {events : List DAHeightEvent}

theorem processBlobsIn_of_decoded
    (hdecoded : decodeBlobs call.now call.daHeight ⟨r, [], []⟩ call.blobs = .ok decoded) :
    r.Decodes call.blobs decoded ∧ ∃ r' events,
      r.processBlobsIn order call = .ok (r', events) ∧ r.Processed call decoded r' events := by
  have hdecodes : r.Decodes ([] ++ call.blobs) decoded := (Decodes.start r).decodeBlobs hdecoded
  refine ⟨hdecodes, ?_⟩
  obtain ⟨strict, headerMarks, dataMarks, hr⟩ := hdecodes.retriever
  unfold processBlobsIn
  rw [hdecoded]
  dsimp only
  rw [foldl_addHeader, foldl_addData, hr]
  dsimp only
  have hheader : ∀ h, (decoded.headers.foldl (insertNew (·.header.height))
      r.pendingHeaders).lookup h = r.headerAt decoded h := lookup_foldl_insertNew _ _ _
  have hdata : ∀ h, (decoded.data.foldl (insertNew dataHeight) r.pendingData).lookup h =
      r.dataAt decoded h := lookup_foldl_insertNew _ _ _
  generalize decoded.headers.foldl (insertNew (·.header.height)) r.pendingHeaders = pending
    at hheader
  generalize decoded.data.foldl (insertNew dataHeight) r.pendingData = pendingData at hdata
  have hperm := order.perm pending.entries
  have hnodup : (order.arrange pending.entries).NodupKeys :=
    (perm_nodupKeys hperm).mpr pending.nodupKeys
  have hmem : ∀ h header, ⟨h, header⟩ ∈ order.arrange pending.entries ↔
      r.headerAt decoded h = some header := by
    intro h header
    rw [hperm.mem_iff, ← hheader]
    exact AList.mem_lookup_iff.symm
  obtain ⟨hs, ds, hloop, hout, hin⟩ := foldl_matchHeader call.daHeight hnodup
    ({ r with
        pendingHeaders := pending
        pendingData := pendingData
        strictMode := strict
        headerDAIncluded := headerMarks
        dataDAIncluded := dataMarks }, [])
  simp only [hheader, hdata] at hout hin hloop
  refine ⟨_, _, congrArg Except.ok hloop, rfl, rfl, rfl, fun h => ?_, fun h => ?_, _, hnodup, hmem,
    by simp⟩
  · rcases hat : r.headerAt decoded h with _ | header
    · rw [(hout h fun hkey => ?_).1, hat, filter_none]
      obtain ⟨header, hh⟩ := exists_of_mem_keys hkey
      simp [(hmem h header).mp hh] at hat
    · have hlookup := (hin ⟨h, header⟩ ((hmem h header).mpr hat)).1
      dsimp only at hlookup ⊢
      rw [hlookup, hat, filter_some]
      rcases emit call.daHeight header (r.dataAt decoded h) with _ | ev <;> simp
  · rcases hat : r.headerAt decoded h with _ | header
    · rw [(hout h fun hkey => ?_).2]
      · simp
      obtain ⟨header, hh⟩ := exists_of_mem_keys hkey
      simp [(hmem h header).mp hh] at hat
    · exact (hin ⟨h, header⟩ ((hmem h header).mpr hat)).2

theorem processBlobsIn_ok (h : r.processBlobsIn order call = .ok (r', events)) :
    ∃ decoded, decodeBlobs call.now call.daHeight ⟨r, [], []⟩ call.blobs = .ok decoded ∧
      r.Decodes call.blobs decoded ∧ r.Processed call decoded r' events := by
  rcases hdecoded : decodeBlobs call.now call.daHeight ⟨r, [], []⟩ call.blobs with panic | decoded
  · simp [processBlobsIn, hdecoded] at h
  · obtain ⟨hdecodes, r'', events', heq, hprocessed⟩ := processBlobsIn_of_decoded hdecoded
    obtain ⟨rfl, rfl⟩ := Prod.mk.inj (ok.inj (heq.symm.trans h))
    exact ⟨decoded, rfl, hdecodes, hprocessed⟩

theorem Processed.mem_events (hp : r.Processed call decoded r' events) :
    ev ∈ events ↔ ∃ h header, r.headerAt decoded h = some header ∧
      emit call.daHeight header (r.dataAt decoded h) = some ev := by
  obtain ⟨l, -, hmem, rfl⟩ := hp.events
  rw [mem_filterMap]
  constructor
  · rintro ⟨⟨h, header⟩, hl, hev⟩
    exact ⟨h, header, (hmem h header).mp hl, hev⟩
  · rintro ⟨h, header, hat, hev⟩
    exact ⟨⟨h, header⟩, (hmem h header).mpr hat, hev⟩

theorem emit_eq_some {data : Option Data} (h : emit daHeight header data = some ev) :
    ev.header = header ∧ ev.daHeight = daHeight ∧ (data = some ev.data ∨
      data = none ∧ ev.data = createEmptyDataForHeader header) := by
  rcases data with _ | data
  · rw [emit] at h
    split_ifs at h
    rw [← some.inj h]
    exact ⟨rfl, rfl, .inr ⟨rfl, rfl⟩⟩
  · rw [← some.inj h]
    exact ⟨rfl, rfl, .inl rfl⟩

theorem headerAt_cases {h : ℕ} (hat : r.headerAt decoded h = some header) :
    r.pendingHeaders.lookup h = some header ∨
      header ∈ decoded.headers ∧ header.header.height = h := by
  unfold headerAt at hat
  rcases or_eq_some_iff.mp hat with hold | ⟨-, hnew⟩
  · exact .inl hold
  · exact .inr ⟨mem_of_find?_eq_some hnew, by simpa using List.find?_some hnew⟩

theorem dataAt_cases {h : ℕ} (hat : r.dataAt decoded h = some data) :
    r.pendingData.lookup h = some data ∨ data ∈ decoded.data ∧ dataHeight data = h := by
  unfold dataAt at hat
  rcases or_eq_some_iff.mp hat with hold | ⟨-, hnew⟩
  · exact .inl hold
  · exact .inr ⟨mem_of_find?_eq_some hnew, by simpa using List.find?_some hnew⟩

theorem Processed.events_at (hp : r.Processed call decoded r' events)
    (hkeyed : ∀ h header, r.pendingHeaders.lookup h = some header → header.header.height = h)
    (h : ℕ) : events.filter (·.header.header.height = h) =
      ((r.headerAt decoded h).bind (emit call.daHeight · (r.dataAt decoded h))).toList := by
  obtain ⟨l, hnodup, hmem, rfl⟩ := hp.events
  have hheight : ∀ p ∈ l, ∀ ev, emit call.daHeight p.2 (r.dataAt decoded p.1) = some ev →
      ev.header.header.height = p.1 := by
    rintro ⟨k, header⟩ hl ev hev
    rw [(emit_eq_some hev).1]
    exact (headerAt_cases ((hmem k header).mp hl)).elim (hkeyed k header) And.right
  have hlookup : r.headerAt decoded h = l.dlookup h := by
    apply Option.ext
    intro header
    rw [← hmem]
    exact (mem_dlookup_iff hnodup).symm
  rw [hlookup]
  clear hp hmem hlookup
  induction l with
  | nil => rfl
  | cons p l ih =>
    obtain ⟨k, header⟩ := p
    obtain ⟨hk, hnodup⟩ := nodupKeys_cons.mp hnodup
    have ih := ih hnodup fun p hp => hheight p (mem_cons_of_mem _ hp)
    have hfirst := hheight ⟨k, header⟩ mem_cons_self
    rw [filterMap_cons]
    by_cases hh : h = k
    · subst hh
      rw [dlookup_eq_none.mpr hk] at ih
      rw [dlookup_cons_eq, bind_some]
      rcases hev : emit call.daHeight header (r.dataAt decoded h) with _ | ev
      · exact ih
      · simp [hfirst ev hev, ih]
    · rw [dlookup_cons_ne _ _ hh]
      rcases hev : emit call.daHeight header (r.dataAt decoded k) with _ | ev
      · exact ih
      · rw [filter_cons_of_neg (by simp [hfirst ev hev, Ne.symm hh]), ih]

end

/-! ## Headers that wait -/

def Waits (r : DaRetriever) (h : ℕ) (header : SignedHeader) : Prop :=
  r.pendingData.lookup h = none ∧ isEmptyDataExpected header = false

def Settled (r : DaRetriever) : Prop :=
  ∀ h header, r.pendingHeaders.lookup h = some header → r.Waits h header

end DaRetriever

end ChainSdk

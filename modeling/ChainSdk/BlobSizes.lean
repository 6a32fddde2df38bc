/-
From a batch to a blob: what becomes of the size limit of a block when its data is signed and
encoded for DA (`signData` of `block/internal/submitting/da_submitter.go` and the `ToProto` and
`MarshalBinary` functions of `types/serialization.go`).
-/
import ChainSdk.DaSubmitter
import ChainSdk.ExecutorSafety
import ChainSdk.Loops
import ChainSdk.ProtoWire
import ChainSdk.SequencerMempool
import ChainSdk.SignedBlocks
import Mathlib.Algebra.Order.BigOperators.Group.List

namespace ChainSdk

open Except List Option ProtoWire Sequencer

/-! ## What a filter accepts -/

def acceptedTxs (txs : List Tx) (statuses : List FilterStatus) : List Tx :=
  ((txs.zip statuses).filter (fun p => p.2 = .filterOK)).map Prod.fst

/-- The bytes of the transactions themselves. -/
def totalBytes (txs : List Tx) : ℕ := (txs.map List.length).sum

def TxFilter.KeepsWithin (filter : TxFilter) (maxBytes : ℕ) : Prop :=
  ∀ txs maxGas forced, ∃ statuses, filter.filterTxs txs maxBytes maxGas forced = .ok statuses ∧
    totalBytes (acceptedTxs txs statuses) ≤ maxBytes

theorem totalBytes_mono {txs txs' : List Tx} (hsub : txs.Sublist txs') :
    totalBytes txs ≤ totalBytes txs' :=
  (hsub.map List.length).sum_le_sum (fun _ _ => Nat.zero_le _)

variable {address : Bytes} (tx : Tx) {data : Data} {key : PubKey} (m : Metadata) (txs : List Tx)
  {maxBytes : ℕ}

theorem acceptedTxs_append (txs' : List Tx) (statuses : List FilterStatus) :
    acceptedTxs (txs ++ txs') statuses =
      acceptedTxs txs (statuses.take txs.length) ++
        acceptedTxs txs' (statuses.drop txs.length) := by
  unfold acceptedTxs
  rw [← map_append, ← filter_append]
  congr 2
  induction txs generalizing statuses with
  | nil => simp
  | cons tx txs ih =>
    cases statuses with
    | nil => simp
    | cons status statuses => simpa using ih statuses

theorem consumeForced_accepted (statuses : List FilterStatus) :
    (consumeForced txs statuses).1.Sublist (acceptedTxs txs statuses) := by
  induction txs generalizing statuses with
  | nil => simp [consumeForced]
  | cons tx txs ih =>
    cases statuses with
    | nil => simp [consumeForced]
    | cons status statuses =>
      cases status with
      | filterOK | filterRemove => simpa [consumeForced, acceptedTxs] using ih statuses
      | filterPostpone => simp [consumeForced]

theorem cosmosFilterLoop_accepted (hlimit : 0 < maxBytes) {cumulativeBytes : ℕ}
    (hwithin : cumulativeBytes ≤ maxBytes) (txs : List Tx) :
    cumulativeBytes + totalBytes (acceptedTxs txs (cosmosFilterLoop maxBytes cumulativeBytes txs))
      ≤ maxBytes := by
  induction txs generalizing cumulativeBytes with
  | nil => simpa [acceptedTxs, totalBytes] using hwithin
  | cons tx txs ih =>
    unfold cosmosFilterLoop
    split_ifs with hempty hover
    · exact ih hwithin
    · exact ih hwithin
    · -- the transaction is counted before the rest is looked at
      have hrest := @ih (cumulativeBytes + tx.length) (by omega)
      simp only [acceptedTxs, totalBytes, zip_cons_cons, filter_cons, decide_true,
        if_true, map_cons, sum_cons] at hrest ⊢
      omega

theorem cosmosFilterTxs_keepsWithin (hlimit : 0 < maxBytes) :
    (cosmosFilterTxs false).KeepsWithin maxBytes := by
  intro txs maxGas forced
  refine ⟨_, rfl, ?_⟩
  simpa using cosmosFilterLoop_accepted hlimit (Nat.zero_le maxBytes) txs

theorem statusesOrAccept_within {filter : TxFilter}
    (hfilter : filter.KeepsWithin maxBytes) (txs : List Tx) (maxGas : ℕ) (forced : Bool) :
    totalBytes (acceptedTxs txs (statusesOrAccept filter txs maxBytes maxGas forced)) ≤
      maxBytes := by
  obtain ⟨statuses, hstatuses, hwithin⟩ := hfilter txs maxGas forced
  simpa [statusesOrAccept, hstatuses] using hwithin

/-! ## What a sequencer returns -/

/-- A response of one of the two sequencers to a request for `maxBytes`, with a filter that
keeps to the limit. -/
def GetNextBatchResponse.ReturnedWithin (maxBytes : ℕ) (res : GetNextBatchResponse) : Prop :=
  ∃ (req : GetNextBatchRequest) (env : CallEnv), req.maxBytes = maxBytes ∧
    env.filter.KeepsWithin maxBytes ∧
    ((∃ s : Sequencer, (s.getNextBatch req env).1 = .ok res) ∨
      ∃ s : BasedSequencer, (s.getNextBatch req env).1 = .ok res)

section

variable {s : Sequencer} {req : GetNextBatchRequest} {env : CallEnv} {res : GetNextBatchResponse}

theorem Sequencer.collect_statuses {c : Collected} (hc : (s.collect req env).1 = .ok c) :
    c.filterStatuses = statusesOrAccept env.filter (c.forcedTxs ++ c.mempoolTxs) req.maxBytes
      env.maxGas (0 < c.forcedTxs.length) := by
  unfold collect at hc
  dsimp only at hc
  split at hc
  · exact absurd hc (by simp)
  · rw [← ok.inj hc]

theorem Sequencer.getNextBatch_within (hfilter : env.filter.KeepsWithin req.maxBytes)
    (hres : (s.getNextBatch req env).1 = .ok res) :
    totalBytes res.batch.transactions ≤ req.maxBytes := by
  obtain ⟨-, c, hc, hfinish⟩ := getNextBatch_collected (.inl ⟨res, hres⟩)
  rw [hfinish, finish_result] at hres
  split_ifs at hres
  rw [← ok.inj hres]
  have haccepted : c.batchTxs.Sublist
      (acceptedTxs (c.forcedTxs ++ c.mempoolTxs) c.filterStatuses) := by
    rw [acceptedTxs_append]
    exact (consumeForced_accepted _ _).append (List.Sublist.refl _)
  refine (totalBytes_mono haccepted).trans ?_
  rw [collect_statuses hc]
  exact statusesOrAccept_within hfilter _ _ _

theorem BasedSequencer.getNextBatch_within {s : BasedSequencer}
    (hfilter : env.filter.KeepsWithin req.maxBytes) (hres : (s.getNextBatch req env).1 = .ok res) :
    totalBytes res.batch.transactions ≤ req.maxBytes := by
  unfold getNextBatch at hres
  split at hres
  · exact absurd hres (by simp)
  rename_i daHeight fetched _
  have hbatch : res.batch.transactions = (fetched.processed req.maxBytes env).1 := by
    rw [finish_result] at hres
    split_ifs at hres <;> rw [← ok.inj hres]
  rw [hbatch]
  exact (totalBytes_mono (consumeForced_accepted _ _)).trans
    (statusesOrAccept_within hfilter _ _ _)

theorem GetNextBatchResponse.ReturnedWithin.totalBytes_le (hres : res.ReturnedWithin maxBytes) :
    totalBytes res.batch.transactions ≤ maxBytes := by
  obtain ⟨req, env, rfl, hfilter, ⟨s, hs⟩ | ⟨s, hs⟩⟩ := hres
  · exact getNextBatch_within hfilter hs
  · exact BasedSequencer.getNextBatch_within hfilter hs

end

/-! ## Encoding -/

def Metadata.marshal (m : Metadata) : Bytes :=
  bytes 1 m.chainID.toUTF8.data.toList ++ uint64 2 m.height ++
    uint64 3 m.time ++ bytes 4 m.lastDataHash

def Data.marshalBinary (d : Data) : Bytes :=
  (match d.metadata with
    | none => []
    | some m => record 1 m.marshal) ++
  d.txs.flatMap (record 2)

section

variable (marshalPublicKey : PubKey → Except String Bytes)

/-- The signer of `SignedData.ToProto`, marshalled: without a key the message is empty. -/
def Signer.marshal (signer : Signer) : Except String Bytes :=
  match signer.pubKey with
  | none => .ok []
  | some key =>
    (marshalPublicKey key).map (fun pubKey =>
      bytes 1 signer.address ++ bytes 2 pubKey)

def SignedData.marshalBinary (sd : SignedData) : Except String Blob :=
  (sd.signer.marshal marshalPublicKey).map (fun signer =>
    record 1 ((sd.data.map Data.marshalBinary).getD []) ++
      bytes 2 sd.signature ++ record 3 signer)

end

/-! ## `signData` -/

structure DataSigner where
  getPublic : Except String PubKey
  getAddress : Except String Bytes
  sign : Bytes → Except String Signature

inductive SignDataError
  | signerNil
  | getPublic (e : String)
  | getAddress (e : String)
  | addressMismatch
  | sign (e : String)
  | marshal (e : String)
  deriving DecidableEq

namespace DaSubmitter

section

variable (marshalPublicKey : PubKey → Except String Bytes)

def signOne (signer : DataSigner) (info : Signer) (unsigned : Data × Bytes) :
    Except SignDataError (SignedData × Blob) :=
  match signer.sign unsigned.2 with
  | .error e => .error (.sign e)
  | .ok signature =>
    let signedData : SignedData := ⟨some unsigned.1, signature, info⟩
    match signedData.marshalBinary marshalPublicKey with
    | .error e => .error (.marshal e)
    | .ok bz => .ok (signedData, bz)

def signData (signer : Option DataSigner) (genesis : Genesis) (unsigned : List (Data × Bytes)) :
    Except SignDataError (List (SignedData × Blob)) :=
  match signer with
  | none => .error .signerNil
  | some signer =>
    match signer.getPublic with
    | .error e => .error (.getPublic e)
    | .ok pubKey =>
      match signer.getAddress with
      | .error e => .error (.getAddress e)
      | .ok addr =>
        if 0 < genesis.proposerAddress.length ∧ addr ≠ genesis.proposerAddress then
          .error .addressMismatch
        else (unsigned.filter (fun p => p.1.txs.length ≠ 0)).mapM
          (signOne marshalPublicKey signer ⟨some pubKey, addr⟩)

end

/-- A blob can be sent: it keeps to the limit, and whatever is pending behind it, there is a
batch and the blob is in it. -/
def Submittable (p : SignedData × Blob) : Prop :=
  p.2.length ≤ defaultMaxBlobSize ∧
    ∀ rest, (∀ e, limitBatchBySize defaultMaxBlobSize (p :: rest) = .error e → ¬ e.IsOversized) ∧
      ∃ batch, limitBatchBySize defaultMaxBlobSize (p :: rest) = .ok batch ∧ p ∈ batch

theorem mem_of_limitBatchBySize {α : Type} {p : α × Blob}
    {rest batch : List (α × Blob)} (hbatch : limitBatchBySize maxBytes (p :: rest) = .ok batch) :
    p ∈ batch := by
  obtain ⟨hne, hfirst, -⟩ := limitBatchBySize_spec hbatch
  rcases batch with _ | ⟨q, batch⟩
  · exact absurd rfl hne
  · rw [length_cons, take_succ_cons] at hfirst
    rw [(cons.inj hfirst).1]
    exact mem_cons_self

theorem submittable_iff (p : SignedData × Blob) :
    Submittable p ↔ p.2.length ≤ defaultMaxBlobSize := by
  refine ⟨fun h => h.1, fun hfits => ⟨hfits, fun rest => ?_⟩⟩
  obtain ⟨batch, hbatch⟩ := (limitBatchBySize_isOk_iff defaultMaxBlobSize p rest).mpr hfits
  rw [hbatch]
  exact ⟨fun e he => absurd he (by simp), batch, rfl, mem_of_limitBatchBySize hbatch⟩

end DaSubmitter

/-! ## The size of a blob -/

open ProtoWire (sizeBytes sizeRecord sizeUint64)

def Metadata.size (m : Metadata) : ℕ :=
  sizeBytes m.chainID.utf8ByteSize + sizeUint64 m.height + sizeUint64 m.time +
    sizeBytes m.lastDataHash.length

def blobSize (m : Metadata) (txs : List Tx) (signature address pubKey : Bytes) : ℕ :=
  sizeRecord (sizeRecord m.size + (txs.map (fun tx => sizeRecord tx.length)).sum) +
    sizeBytes signature.length +
    sizeRecord (sizeBytes address.length + sizeBytes pubKey.length)

theorem Metadata.length_marshal : m.marshal.length = m.size := by
  have hchain : m.chainID.toUTF8.data.toList.length = m.chainID.utf8ByteSize := rfl
  rw [marshal, length_append, length_append, length_append,
    length_bytes (by omega), length_uint64 (by omega),
    length_uint64 (by omega), length_bytes (by omega), hchain, size]

theorem Data.length_marshalBinary :
    (marshalBinary ⟨some m, txs⟩).length =
      sizeRecord m.size + (txs.map (fun tx => sizeRecord tx.length)).sum := by
  rw [marshalBinary, length_append, length_record (by omega),
    length_records (by omega), Metadata.length_marshal]

theorem SignedData.length_marshalBinary {marshalPublicKey : PubKey → Except String Bytes}
    {m : Metadata} {txs : List Tx} {signature pubKey : Bytes} {bz : Blob}
    (hkey : marshalPublicKey key = .ok pubKey)
    (hbz : marshalBinary marshalPublicKey ⟨some ⟨some m, txs⟩, signature, ⟨some key, address⟩⟩ =
      .ok bz) :
    bz.length = blobSize m txs signature address pubKey := by
  simp only [marshalBinary, Signer.marshal, hkey, Except.map, map_some,
    getD_some, ok.injEq] at hbz
  rw [← hbz, length_append, length_append, length_record (by omega),
    length_record (by omega), length_bytes (by omega), length_append,
    length_bytes (by omega), length_bytes (by omega),
    Data.length_marshalBinary, blobSize]

theorem totalBytes_lt_blobSize (signature address pubKey : Bytes) :
    totalBytes txs < blobSize m txs signature address pubKey := by
  have htxs : totalBytes txs ≤ (txs.map (fun tx => sizeRecord tx.length)).sum :=
    sum_le_sum (fun tx _ => (lt_sizeRecord tx.length).le)
  have hdata := lt_sizeRecord
    (sizeRecord m.size + (txs.map (fun tx => sizeRecord tx.length)).sum)
  unfold blobSize
  omega

/-! ## From a batch to a blob -/

namespace DaSubmitter

section

variable {marshalPublicKey : PubKey → Except String Bytes} {genesis : Genesis}

theorem signData_mem {signer : Option DataSigner} {unsigned : List (Data × Bytes)}
    {signed : List (SignedData × Blob)}
    (hsigned : signData marshalPublicKey signer genesis unsigned = .ok signed)
    {p : SignedData × Blob} (hp : p ∈ signed) :
    ∃ s key address, signer = some s ∧ s.getPublic = .ok key ∧ s.getAddress = .ok address ∧
      (genesis.proposerAddress = [] ∨ address = genesis.proposerAddress) ∧
      ∃ u ∈ unsigned, u.1.txs ≠ [] ∧ ∃ signature, s.sign u.2 = .ok signature ∧
        p.1 = ⟨some u.1, signature, ⟨some key, address⟩⟩ ∧
        p.1.marshalBinary marshalPublicKey = .ok p.2 := by
  unfold signData at hsigned
  split at hsigned
  · exact absurd hsigned (by simp)
  rename_i s
  split at hsigned
  · exact absurd hsigned (by simp)
  rename_i key hpublic
  split at hsigned
  · exact absurd hsigned (by simp)
  rename_i address haddress
  split_ifs at hsigned with hmismatch
  have hproposer : genesis.proposerAddress = [] ∨ address = genesis.proposerAddress := by
    simpa [imp_iff_not_or] using hmismatch
  obtain ⟨u, hu, hone⟩ := Loops.exists_of_mem_mapM hsigned hp
  obtain ⟨hu, hfull⟩ := mem_filter.mp hu
  refine ⟨s, key, address, rfl, hpublic, haddress, hproposer, u, hu, by simpa using hfull, ?_⟩
  unfold signOne at hone
  split at hone
  · exact absurd hone (by simp)
  rename_i signature hsign
  dsimp only at hone
  split at hone
  · exact absurd hone (by simp)
  · rename_i bz hbz
    rw [← ok.inj hone]
    exact ⟨signature, hsign, rfl, hbz⟩

theorem signData_singleton {signer : DataSigner} {bz : Bytes} {signature : Signature}
    {signed : SignedData × Blob} (hpublic : signer.getPublic = .ok key)
    (haddress : signer.getAddress = .ok address)
    (hsign : signer.sign bz = .ok signature)
    (hsigned : signData marshalPublicKey (some signer) genesis [(data, bz)] = .ok [signed]) :
    SignedData.marshalBinary marshalPublicKey ⟨some data, signature, ⟨some key, address⟩⟩ =
      .ok signed.2 := by
  obtain ⟨s, key', address', hs, hpublic', haddress', -, u, hu, -, signature', hsign', hsd, hbz⟩ :=
    signData_mem hsigned mem_cons_self
  obtain rfl := some.inj hs
  obtain rfl := mem_singleton.mp hu
  rw [hpublic] at hpublic'
  rw [haddress] at haddress'
  rw [hsign] at hsign'
  rw [← hbz, hsd, ok.inj hpublic', ok.inj haddress', ok.inj hsign']

end

/-- For every batch a sequencer returns to `RetrieveBatch` under a filter that keeps to the
limit, and the signed data of the block built from it: the transactions keep to the limit, and
the blob can be sent exactly when their encoding, with metadata, signature, address and key, does
so too. -/
theorem produced_block_submittable_iff {res : GetNextBatchResponse}
    (hres : res.ReturnedWithin defaultMaxBlobSize) {e : Executor} {inp : ProduceInput}
    (hnext : inp.getNextBatch = .ok (some res)) {batchData : BatchData}
    (hbatch : Executor.retrieveBatch inp = .ok batchData) {height time : ℕ}
    {last : LastBlockInfo} (hlast : e.lastBlock height batchData = .ok (time, last))
    {header : SignedHeader} {data : Data}
    (hblock : e.createBlock height batchData inp = .ok (header, data))
    {marshalPublicKey : PubKey → Except String Bytes} {signer : DataSigner} {key : PubKey}
    {pubKey address : Bytes} {signature : Signature} {signed : SignedData × Blob}
    (hpublic : signer.getPublic = .ok key) (hkey : marshalPublicKey key = .ok pubKey)
    (haddress : signer.getAddress = .ok address)
    (hsign : signer.sign data.marshalBinary = .ok signature)
    (hsigned : signData marshalPublicKey (some signer) e.config.genesis
      [(data, data.marshalBinary)] = .ok [signed]) :
    totalBytes res.batch.transactions ≤ defaultMaxBlobSize ∧
      (Submittable signed ↔
        blobSize ⟨e.config.genesis.chainID, height, time, last.dataHash⟩ res.batch.transactions
          signature address pubKey ≤ defaultMaxBlobSize) := by
  refine ⟨hres.totalBytes_le, ?_⟩
  have htxs : batchData.batch = res.batch := by
    simp only [Executor.retrieveBatch, hnext, ok.injEq] at hbatch
    rw [← hbatch]
  have hblob := signData_singleton hpublic haddress hsign hsigned
  obtain ⟨time', last', _, _, hlast', -, -, -, rfl⟩ := Executor.createBlock_ok hblock
  obtain ⟨rfl, rfl⟩ := Prod.mk.inj (ok.inj (hlast.symm.trans hlast'))
  rw [htxs] at hblob
  rw [submittable_iff, SignedData.length_marshalBinary hkey hblob]

/-! ### One transaction

A chain without forced inclusion whose sequencer holds one transaction, and the signer of its
node.
-/

def queueGenesis : Genesis := { sampleGenesis with daStartHeight := 0 }

def queueSequencer (tx : Tx) : Sequencer :=
  ((Sequencer.new queueGenesis sampleClient [5] 0 sampleDb).submitBatchTxs [5] ⟨[tx]⟩ true).2

def blobRequest : GetNextBatchRequest := ⟨[5], defaultMaxBlobSize, []⟩

def firstBlockExecutor : Executor :=
  .new ⟨queueGenesis, ⟨fun _ => [], fun _ => [], fun _ => [], id⟩, false, true, 0, false⟩
    Store.empty

def keySigner : DataSigner := ⟨.ok ⟨1, [7]⟩, .ok [7], fun _ => .ok [7]⟩

def rawKey (key : PubKey) : Except String Bytes := .ok key.raw

def queueResponse (tx : Tx) : GetNextBatchResponse := ⟨⟨[tx]⟩, 0, []⟩

def produceFirst (tx : Tx) : ProduceInput := .smooth (queueResponse tx) ⟨1, [7]⟩ [] 0 [7]

def firstData (tx : Tx) : Data := ⟨some ⟨"sample", 1, 0, []⟩, [tx]⟩

theorem queueSequencer_getNextBatch {tx : Tx} (hne : tx ≠ [])
    (hfits : tx.length ≤ defaultMaxBlobSize) :
    ((queueSequencer tx).getNextBatch blobRequest openEnv).1 = .ok (queueResponse tx) := by
  -- the sequencer has no DA height yet, so that there is nothing to fetch
  obtain ⟨seq, s', hcollect, hstate⟩ : ∃ seq s',
      (queueSequencer tx).collect blobRequest openEnv =
        (.ok ⟨seq, 0, [], [tx], cosmosFilterLoop defaultMaxBlobSize 0 [tx]⟩, s') ∧
      seq.catchUpState = .catchUpUnchecked := ⟨_, _, rfl, rfl⟩
  have haccepted : cosmosFilterLoop defaultMaxBlobSize 0 [tx] = [.filterOK] := by
    have hpos := length_pos_iff.mpr hne
    unfold cosmosFilterLoop
    rw [if_neg (by omega), if_neg (by omega)]
    rfl
  rw [haccepted] at hcollect
  have hid : (queueSequencer tx).id = blobRequest.id := rfl
  unfold getNextBatch
  rw [if_neg (not_not.mpr hid), hcollect, finish_result, if_neg, if_neg]
  · unfold Collected.timestamp
    rw [if_neg (by simp [hstate, Collected.forced, consumeForced])]
    rfl
  · simp [hstate]
  · simp [Collected.Active]

theorem firstBlockExecutor_createBlock :
    ∃ header, firstBlockExecutor.createBlock 1 ⟨⟨[tx]⟩, 0, []⟩ (produceFirst tx) =
      .ok (header, firstData tx) :=
  ⟨_, rfl⟩

theorem signData_firstData :
    ∃ signed, signData rawKey (some keySigner) queueGenesis
      [(firstData tx, (firstData tx).marshalBinary)] = .ok [signed] :=
  ⟨_, rfl⟩

def fullTx : Tx := List.replicate defaultMaxBlobSize 1

/-- It is handed out, it becomes a block, and its blob is too big for ever. -/
theorem full_batch_not_submittable :
    (cosmosFilterTxs false).KeepsWithin defaultMaxBlobSize ∧
      ((queueSequencer fullTx).getNextBatch blobRequest openEnv).1 = .ok (queueResponse fullTx) ∧
      Executor.retrieveBatch (produceFirst fullTx) = .ok ⟨⟨[fullTx]⟩, 0, []⟩ ∧
      (∃ header, firstBlockExecutor.createBlock 1 ⟨⟨[fullTx]⟩, 0, []⟩ (produceFirst fullTx) =
        .ok (header, firstData fullTx)) ∧
      ∃ signed, signData rawKey (some keySigner) queueGenesis
          [(firstData fullTx, (firstData fullTx).marshalBinary)] = .ok [signed] ∧
        ∀ rest, limitBatchBySize defaultMaxBlobSize (signed :: rest) =
          .error (.oversizedItem signed.2.length defaultMaxBlobSize) := by
  have hfull : fullTx.length = defaultMaxBlobSize := length_replicate
  have hpos : 0 < defaultMaxBlobSize := by decide
  refine ⟨cosmosFilterTxs_keepsWithin hpos, queueSequencer_getNextBatch ?_ hfull.le, rfl,
    firstBlockExecutor_createBlock fullTx, ?_⟩
  · exact ne_nil_of_length_pos (hfull ▸ hpos)
  · obtain ⟨signed, hsigned⟩ := signData_firstData fullTx
    refine ⟨signed, hsigned, fun rest => limitBatchBySize_oversized ?_⟩
    rw [SignedData.length_marshalBinary rfl (signData_singleton rfl rfl rfl hsigned)]
    calc defaultMaxBlobSize = totalBytes [fullTx] := by simp [totalBytes, hfull]
      _ < _ := totalBytes_lt_blobSize _ _ _ _ _

theorem produced_block_submittable_iff_of_one_byte :
    ∃ signed, signData rawKey (some keySigner) queueGenesis
        [(firstData [5], (firstData [5]).marshalBinary)] = .ok [signed] ∧ Submittable signed := by
  obtain ⟨signed, hsigned⟩ := signData_firstData [5]
  obtain ⟨header, hblock⟩ := firstBlockExecutor_createBlock [5]
  have hreturned : (queueResponse [5]).ReturnedWithin defaultMaxBlobSize :=
    ⟨blobRequest, openEnv, rfl, cosmosFilterTxs_keepsWithin (by decide),
      .inl ⟨_, queueSequencer_getNextBatch (by simp) (by decide)⟩⟩
  refine ⟨signed, hsigned, (produced_block_submittable_iff hreturned rfl rfl rfl hblock rfl rfl
    rfl rfl hsigned).2.mpr ?_⟩
  decide +kernel

end DaSubmitter

end ChainSdk

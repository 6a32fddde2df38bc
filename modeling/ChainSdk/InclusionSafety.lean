/-
Finality needs DA: a height becomes DA-included only when its own header, and its data, are on DA at
the heights recorded for them. And when it does not.

The loop never sees a hash. It asks the caches by height, and gets the DA height of whatever hash
the height stands for at that moment.
-/
import ChainSdk.DaInclusion

namespace ChainSdk

open DaRetriever Function InclusionNode List Option Runs SignedHeader

/-- Blocks are stored under their own height and none above the store's, and header and data of
each belong together. -/
def Store.Filed (c : Codec) (store : Store) : Prop :=
  ∀ h block, store.blocks h = some block → block.header.header.height = h ∧ h ≤ store.height ∧
    validate c block.header block.data = .ok ()

variable {d : ℕ} {w : Wire} {data : Data} {n : InclusionNode} {block : StoredBlock} {bz : Blob}
  {header : SignedHeader}

namespace InclusionNode

/-! ## What is on DA -/

section

variable (n : InclusionNode)

/-- A header with the hash is in a DA blob seen at the DA height, or DA has acknowledged one
there. -/
def HeaderOnDa (hash : Hash) (d : ℕ) : Prop :=
  (∃ bz header, (bz, d) ∈ n.seenBlobs ∧ DecodesTo n.retriever.wire bz header ∧
      n.codec.headerHash header.header = hash) ∨
    ∃ header, (header, d) ∈ n.ackedHeaders ∧ n.codec.headerHash header.header = hash

def DataOnDa (commitment : Hash) (d : ℕ) : Prop :=
  (∃ bz signedData data, (bz, d) ∈ n.seenBlobs ∧
      SignedData.unmarshalBinary n.retriever.wire bz = some signedData ∧
      signedData.data = some data ∧ n.codec.daCommitment data.txs = commitment) ∨
    ∃ data, (data, d) ∈ n.ackedData ∧ n.codec.daCommitment data.txs = commitment

/-- The DA heights recorded for the stored block are where its header and, unless it is empty,
its data are. -/
def Recorded (h : ℕ) : Prop :=
  ∃ block d, n.store.blocks h = some block ∧ n.metadata.headerDAHeight h = some d ∧
    n.HeaderOnDa (n.codec.headerHash block.header.header) d ∧
    (block.data.txs ≠ [] → ∃ d', n.metadata.dataDAHeight h = some d' ∧
      n.DataOnDa (n.codec.daCommitment block.data.txs) d')

/-! ## What a step of another goroutine leaves -/

/-- The loop and what it has written are the same, blocks stay, and what has been on DA has
been. -/
structure Grows (n n' : InclusionNode) : Prop where
  loop_eq : n'.loop = n.loop
  daIncludedHeight_eq : n'.daIncludedHeight = n.daIncludedHeight
  metadata_eq : n'.metadata = n.metadata
  wire_eq : n'.retriever.wire = n.retriever.wire
  codec_eq : n'.codec = n.codec
  blocks : ∀ h block, n.store.blocks h = some block → n'.store.blocks h = some block
  seenBlobs : ∀ p ∈ n.seenBlobs, p ∈ n'.seenBlobs
  ackedHeaders : ∀ p ∈ n.ackedHeaders, p ∈ n'.ackedHeaders
  ackedData : ∀ p ∈ n.ackedData, p ∈ n'.ackedData

theorem Grows.caches (headerCache dataCache : BlockCache) (applying : Option Applying) :
    n.Grows { n with
      headerCache := headerCache
      dataCache := dataCache
      applying := applying } :=
  ⟨rfl, rfl, rfl, rfl, rfl, fun _ _ h => h, fun _ h => h, fun _ h => h, fun _ h => h⟩

end

section

variable {n n' : InclusionNode} {hash : Hash} {d h : ℕ}

theorem HeaderOnDa.grows (hn : n.HeaderOnDa hash d) (hgrows : n.Grows n') :
    n'.HeaderOnDa hash d := by
  unfold HeaderOnDa
  rw [hgrows.wire_eq, hgrows.codec_eq]
  rcases hn with ⟨bz, header, hmem, hdecodes, hhash⟩ | ⟨header, hmem, hhash⟩
  · exact .inl ⟨bz, header, hgrows.seenBlobs _ hmem, hdecodes, hhash⟩
  · exact .inr ⟨header, hgrows.ackedHeaders _ hmem, hhash⟩

theorem DataOnDa.grows (hn : n.DataOnDa hash d) (hgrows : n.Grows n') : n'.DataOnDa hash d := by
  unfold DataOnDa
  rw [hgrows.wire_eq, hgrows.codec_eq]
  rcases hn with ⟨bz, signedData, data, hmem, hrest⟩ | ⟨data, hmem, hhash⟩
  · exact .inl ⟨bz, signedData, data, hgrows.seenBlobs _ hmem, hrest⟩
  · exact .inr ⟨data, hgrows.ackedData _ hmem, hhash⟩

theorem Recorded.grows (hn : n.Recorded h) (hgrows : n.Grows n') : n'.Recorded h := by
  obtain ⟨block, d, hblock, hd, hheader, hdata⟩ := hn
  unfold Recorded
  rw [hgrows.metadata_eq, hgrows.codec_eq]
  refine ⟨block, d, hgrows.blocks h block hblock, hd, hheader.grows hgrows, fun htxs => ?_⟩
  obtain ⟨d', hd', hon⟩ := hdata htxs
  exact ⟨d', hd', hon.grows hgrows⟩

end

/-! ## The invariant -/

section

variable (n : InclusionNode)

/-- The header of the block stored at the height has still to be marked as seen. -/
def HeaderUnmarked (h : ℕ) : Prop :=
  ∃ a, n.applying = some a ∧ a.headerSeen = false ∧ a.header.header.height = h

def DataUnmarked (h : ℕ) : Prop :=
  ∃ a, n.applying = some a ∧ a.header.header.height = h

/-- A DA height in a cache is one where its hash is on DA, and a height that is stored, marked and
not DA-included yet stands for what is stored. -/
structure CachesSound (n : InclusionNode) : Prop where
  stored : n.store.Filed n.codec
  headers : n.headerCache.Backed n.HeaderOnDa
  data : n.dataCache.Backed n.DataOnDa
  headerIndex : ∀ h block, n.store.blocks h = some block → n.daIncludedHeight < h →
    ¬ n.HeaderUnmarked h → n.headerCache.PointsTo h (n.codec.headerHash block.header.header)
  dataIndex : ∀ h block, n.store.blocks h = some block → n.daIncludedHeight < h →
    block.data.txs ≠ [] → ¬ n.DataUnmarked h →
      n.dataCache.PointsTo h (n.codec.daCommitment block.data.txs)
  applied : ∀ a, n.applying = some a →
    ∃ signature, n.store.blocks a.header.header.height = some ⟨a.header, a.data, signature⟩

/-- The loop works on the block stored at the next height. -/
def AtNext (current : ℕ) (data : Data) : Prop :=
  n.daIncludedHeight = current ∧
    ∃ block, n.store.blocks (current + 1) = some block ∧ block.data = data

/-- What the loop has found out by the time it is where it is. -/
def LoopSound : Prop :=
  match n.loop with
  | .waiting | .stopped => True
  | .reading current => n.daIncludedHeight = current
  | .checking current data | .mappingHeader current data => n.AtNext current data
  | .mappingData current data d => n.daIncludedHeight = current ∧
      ∃ block, n.store.blocks (current + 1) = some block ∧ block.data = data ∧
        n.metadata.headerDAHeight (current + 1) = some d ∧
        n.HeaderOnDa (n.codec.headerHash block.header.header) d
  | .mappingGenesis current _ | .finalizing current _ | .persisting current | .advancing current =>
    n.daIncludedHeight = current ∧ n.Recorded (current + 1)
  | .deleting height => n.daIncludedHeight = height

end

structure Sound (start : ℕ) (n : InclusionNode) : Prop where
  empty : ∀ txs, n.codec.daCommitment txs = dataHashForEmptyTxs → txs = []
  caches : n.CachesSound
  loop : n.LoopSound
  recorded : ∀ h, start < h → h ≤ n.daIncludedHeight → n.Recorded h

section

variable {n n' : InclusionNode} {start : ℕ}

theorem LoopSound.grows (hn : n.LoopSound) (hgrows : n.Grows n') : n'.LoopSound := by
  have hnext : ∀ current data, n.AtNext current data → n'.AtNext current data := by
    rintro current data ⟨hcurrent, block, hblock, hdata⟩
    exact ⟨hgrows.daIncludedHeight_eq.trans hcurrent, block, hgrows.blocks _ _ hblock, hdata⟩
  have hrecorded : ∀ current, n.daIncludedHeight = current ∧ n.Recorded (current + 1) →
      n'.daIncludedHeight = current ∧ n'.Recorded (current + 1) := by
    rintro current ⟨hcurrent, hrec⟩
    exact ⟨hgrows.daIncludedHeight_eq.trans hcurrent, hrec.grows hgrows⟩
  unfold LoopSound at hn ⊢
  rw [hgrows.loop_eq]
  rcases hloop : n.loop with _ | current | ⟨current, data⟩ | ⟨current, data⟩ |
    ⟨current, data, d⟩ | ⟨current, g⟩ | ⟨current, attempt⟩ | current | current | height | _ <;>
    rw [hloop] at hn
  · trivial
  · exact hgrows.daIncludedHeight_eq.trans hn
  · exact hnext current data hn
  · exact hnext current data hn
  · obtain ⟨hcurrent, block, hblock, hdata, hd, hheader⟩ := hn
    refine ⟨hgrows.daIncludedHeight_eq.trans hcurrent, block, hgrows.blocks _ _ hblock, hdata,
      ?_, ?_⟩
    · rw [hgrows.metadata_eq]
      exact hd
    · rw [hgrows.codec_eq]
      exact hheader.grows hgrows
  · exact hrecorded current hn
  · exact hrecorded current hn
  · exact hrecorded current hn
  · exact hrecorded current hn
  · exact hgrows.daIncludedHeight_eq.trans hn
  · trivial

theorem Sound.grows (hn : Sound start n) (hgrows : n.Grows n') (hcaches : n'.CachesSound) :
    Sound start n' := by
  refine ⟨hgrows.codec_eq ▸ hn.empty, hcaches, hn.loop.grows hgrows, fun h hstart hle => ?_⟩
  rw [hgrows.daIncludedHeight_eq] at hle
  exact (hn.recorded h hstart hle).grows hgrows

/-! ## Marks -/

theorem CachesSound.evidence (hn : n.CachesSound) (hgrows : n.Grows n')
    (hstore : n'.store = n.store) (hheaderCache : n'.headerCache = n.headerCache)
    (hdataCache : n'.dataCache = n.dataCache) (happlying : n'.applying = n.applying) :
    n'.CachesSound := by
  have hheaders := hn.headers.mono (fun hash d hon => hon.grows hgrows)
  have hdata := hn.data.mono (fun hash d hon => hon.grows hgrows)
  obtain ⟨hstored, -, -, hheaderIndex, hdataIndex, happlied⟩ := hn
  constructor
  · rw [hstore, hgrows.codec_eq]
    exact hstored
  · rw [hheaderCache]
    exact hheaders
  · rw [hdataCache]
    exact hdata
  · unfold HeaderUnmarked
    rw [hstore, hgrows.daIncludedHeight_eq, hgrows.codec_eq, hheaderCache, happlying]
    exact hheaderIndex
  · unfold DataUnmarked
    rw [hstore, hgrows.daIncludedHeight_eq, hgrows.codec_eq, hdataCache, happlying]
    exact hdataIndex
  · rw [hstore, happlying]
    exact happlied

theorem CachesSound.setHeaderDAIncluded (hn : n.CachesSound)
    (hon : n.HeaderOnDa (n.codec.headerHash header.header) d)
    (hstored : ∀ block, n.store.blocks header.header.height = some block →
      n.daIncludedHeight < header.header.height →
        n.codec.headerHash header.header = n.codec.headerHash block.header.header) :
    (n.setHeaderDAIncluded d header).CachesSound := by
  refine ⟨hn.stored, hn.headers.setDAIncluded hon _, hn.data, ?_, hn.dataIndex, hn.applied⟩
  intro h block hblock hopen hmarked
  refine (hn.headerIndex h block hblock hopen hmarked).setDAIncluded ?_ d
  rintro rfl
  exact congrArg CacheKey.hash (hstored block hblock hopen)

theorem CachesSound.setDataDAIncluded (hn : n.CachesSound)
    (hon : n.DataOnDa (n.codec.daCommitment data.txs) d)
    (hstored : ∀ block, n.store.blocks (dataHeight data) = some block →
      n.daIncludedHeight < dataHeight data → block.data.txs ≠ [] →
        n.codec.daCommitment data.txs = n.codec.daCommitment block.data.txs) :
    (n.setDataDAIncluded d data).CachesSound := by
  refine ⟨hn.stored, hn.headers, hn.data.setDAIncluded hon _, hn.headerIndex, ?_, hn.applied⟩
  intro h block hblock hopen htxs hmarked
  refine (hn.dataIndex h block hblock hopen htxs hmarked).setDAIncluded ?_ d
  rintro rfl
  exact congrArg CacheKey.hash (hstored block hblock hopen htxs)

end

/-! ## The condition -/

/-- What a blob holds for a stored height that is not DA-included yet is what is stored. -/
structure BlobHarmless (n : InclusionNode) (bz : Blob) : Prop where
  header : ∀ header, DecodesTo n.retriever.wire bz header →
    header.header.proposerAddress = n.retriever.genesis.proposerAddress →
    ∀ block, n.store.blocks header.header.height = some block →
      n.daIncludedHeight < header.header.height →
        n.codec.headerHash header.header = n.codec.headerHash block.header.header
  data : ∀ signedData data, SignedData.unmarshalBinary n.retriever.wire bz = some signedData →
    signedData.data = some data →
    signedData.signer.address = n.retriever.genesis.proposerAddress →
    ∀ block, n.store.blocks (dataHeight data) = some block →
      n.daIncludedHeight < dataHeight data → block.data.txs ≠ [] →
        n.codec.daCommitment data.txs = n.codec.daCommitment block.data.txs

/-- Blobs are harmless, the loop looks a height up only when its block is marked, and a produced
block's height stands for no other. -/
def Step.Harmless (n : InclusionNode) : Step → Prop
  | .blob _ bz _ => n.BlobHarmless bz
  | .produce header data =>
    n.headerCache.PointsTo header.header.height (n.codec.headerHash header.header) ∧
      n.dataCache.PointsTo header.header.height (n.codec.daCommitment data.txs)
  | .loop _ =>
    match n.loop with
    | .mappingHeader current _ => ¬ n.HeaderUnmarked (current + 1)
    | .mappingData current _ _ => ¬ n.DataUnmarked (current + 1)
    | _ => True
  | _ => True

/-! ## One step of each kind -/

section

variable {n : InclusionNode} {start : ℕ}

section

variable {header : SignedHeader} {data : Data}

theorem Sound.decodeBlob (hn : Sound start n) (hbz : n.BlobHarmless bz) (now : Time)
    (daHeight : ℕ) : Sound start (n.decodeBlob now bz daHeight) := by
  have hseen : ∀ p ∈ n.seenBlobs, p ∈ n.seenBlobs ++ [(bz, daHeight)] :=
    fun p hp => mem_append_left _ hp
  have hnew : (bz, daHeight) ∈ n.seenBlobs ++ [(bz, daHeight)] :=
    mem_append_right _ mem_cons_self
  unfold InclusionNode.decodeBlob
  dsimp only
  rcases hdecode : DaRetriever.decodeBlob now daHeight ⟨n.retriever, [], []⟩ bz with
    panic | decoded
  · have hgrows : n.Grows { n with
        seenBlobs := n.seenBlobs ++ [(bz, daHeight)]
        panicked := some panic } :=
      ⟨rfl, rfl, rfl, rfl, rfl, fun _ _ h => h, hseen, fun _ h => h, fun _ h => h⟩
    exact hn.grows hgrows (hn.caches.evidence hgrows rfl rfl rfl rfl)
  obtain ⟨⟨strict, headerMarks, dataMarks, hretriever⟩, hheaders, hdata⟩ :=
    decodeBlob_spec hdecode
  dsimp only
  rw [hretriever]
  -- the blob is seen; what it decodes to is marked after that, in one cache or the other
  let seen : InclusionNode := { n with
    seenBlobs := n.seenBlobs ++ [(bz, daHeight)]
    retriever := { n.retriever with
      strictMode := strict
      headerDAIncluded := headerMarks
      dataDAIncluded := dataMarks } }
  let Marked : InclusionNode → Prop := fun m => Sound start m ∧
    ∃ headerCache dataCache, m = { seen with headerCache := headerCache, dataCache := dataCache }
  have hgrows : n.Grows seen :=
    ⟨rfl, rfl, rfl, rfl, rfl, fun _ _ h => h, hseen, fun _ h => h, fun _ h => h⟩
  have hstart : Marked seen :=
    ⟨hn.grows hgrows (hn.caches.evidence hgrows rfl rfl rfl rfl), _, _, rfl⟩
  have hmarked := foldl_invariant (setHeaderDAIncluded · daHeight ·) Marked
    (fun _ header => DecodesTo n.retriever.wire bz header ∧
      header.header.proposerAddress = n.retriever.genesis.proposerAddress) ?_ hstart
    (steps_of_forall hheaders)
  · refine (foldl_invariant (setDataDAIncluded · daHeight ·) Marked
      (fun _ data => ∃ signedData key,
        SignedData.unmarshalBinary n.retriever.wire bz = some signedData ∧
          signedData.Vouches n.retriever.wire n.retriever.codec n.retriever.genesis data key)
      ?_ hmarked (steps_of_forall hdata)).1
    rintro m data ⟨hm, headerCache, dataCache, rfl⟩ ⟨signedData, key, hsigned, hvouches⟩
    refine ⟨hm.grows (.caches _ _ _ _) (hm.caches.setDataDAIncluded ?_ ?_), _, _, rfl⟩
    · exact .inl ⟨bz, signedData, data, hnew, hsigned, hvouches.data_eq, rfl⟩
    · exact hbz.data signedData data hsigned hvouches.data_eq hvouches.address_eq
  · rintro m header ⟨hm, headerCache, dataCache, rfl⟩ ⟨hdecodes, hproposer⟩
    refine ⟨hm.grows (.caches _ _ _ _) (hm.caches.setHeaderDAIncluded ?_ ?_), _, _, rfl⟩
    · exact .inl ⟨bz, header, hnew, hdecodes, rfl⟩
    · exact hbz.header header hdecodes hproposer

theorem Sound.ackHeader (hn : Sound start n) (height daHeight : ℕ) :
    Sound start (n.ackHeader height daHeight) := by
  unfold InclusionNode.ackHeader
  rcases hblock : n.store.blocks height with _ | block
  · exact hn
  have hgrows : n.Grows { n with
      ackedHeaders := n.ackedHeaders ++ [(block.header, daHeight)] } :=
    ⟨rfl, rfl, rfl, rfl, rfl, fun _ _ h => h, fun _ h => h,
      fun _ h => mem_append_left _ h, fun _ h => h⟩
  have hacked := hn.grows hgrows (hn.caches.evidence hgrows rfl rfl rfl rfl)
  refine hacked.grows (.caches _ _ _ _) (hacked.caches.setHeaderDAIncluded ?_ ?_)
  · exact .inr ⟨block.header, mem_append_right _ mem_cons_self, rfl⟩
  · intro block' hblock' _
    rw [(hn.caches.stored height block hblock).1] at hblock'
    have heq : some block = some block' := hblock.symm.trans hblock'
    rw [some.inj heq]

theorem Sound.ackData (hn : Sound start n) (height daHeight : ℕ) :
    Sound start (n.ackData height daHeight) := by
  unfold InclusionNode.ackData
  rcases hblock : n.store.blocks height with _ | block
  · exact hn
  dsimp only
  by_cases hempty : block.data.txs.length = 0
  · rw [if_pos hempty]
    exact hn
  rw [if_neg hempty]
  rcases hmetadata : block.data.metadata with _ | m
  · have hgrows : n.Grows { n with panicked := some .nilMetadata } :=
      ⟨rfl, rfl, rfl, rfl, rfl, fun _ _ h => h, fun _ h => h, fun _ h => h, fun _ h => h⟩
    exact hn.grows hgrows (hn.caches.evidence hgrows rfl rfl rfl rfl)
  have hgrows : n.Grows { n with ackedData := n.ackedData ++ [(block.data, daHeight)] } :=
    ⟨rfl, rfl, rfl, rfl, rfl, fun _ _ h => h, fun _ h => h, fun _ h => h,
      fun _ h => mem_append_left _ h⟩
  have hacked := hn.grows hgrows (hn.caches.evidence hgrows rfl rfl rfl rfl)
  refine hacked.grows (.caches _ _ _ _) (hacked.caches.setDataDAIncluded ?_ ?_)
  · exact .inr ⟨block.data, mem_append_right _ mem_cons_self, rfl⟩
  · -- the height in the metadata is the one the block is stored at
    obtain ⟨hheight, -, hvalid⟩ := hn.caches.stored height block hblock
    have hdataHeight : dataHeight block.data = height := by
      rw [dataHeight, hmetadata]
      exact ((validate_ok hvalid).2 m hmetadata).trans hheight
    intro block' hblock' _ _
    rw [hdataHeight] at hblock'
    have heq : some block = some block' := hblock.symm.trans hblock'
    rw [some.inj heq]

theorem CachesSound.storeBlock_kept (hn : n.CachesSound) (hnext : n.IsNext header data) {h : ℕ}
    (hblock : n.store.blocks h = some block) :
    (storeBlock n.store header data).blocks h = some block := by
  have hne : h ≠ header.header.height := by
    have hle := (hn.stored h block hblock).2.1
    have := hnext.1
    omega
  rw [(storeBlock_spec data hnext.1).2, update_of_ne hne]
  exact hblock

theorem IsNext.storeBlock_forall (hnext : n.IsNext header data) {P : ℕ → StoredBlock → Prop}
    (hnew : P header.header.height ⟨header, data, header.signature⟩)
    (hold : ∀ h block, n.store.blocks h = some block → h ≠ header.header.height → P h block) :
    ∀ h block, (storeBlock n.store header data).blocks h = some block → P h block := by
  rw [(storeBlock_spec data hnext.1).2]
  exact forall_update_some (fun h block hh hblock => hold h block hblock hh) hnew

theorem CachesSound.storeBlock_stored (hn : n.CachesSound) (hnext : n.IsNext header data) :
    (storeBlock n.store header data).Filed n.codec := by
  unfold Store.Filed
  rw [(storeBlock_spec data hnext.1).1]
  refine hnext.storeBlock_forall ⟨rfl, le_rfl, hnext.2⟩ ?_
  intro h block hblock _
  obtain ⟨hheight, hle, hvalid⟩ := hn.stored h block hblock
  exact ⟨hheight, by have := hnext.1; omega, hvalid⟩

theorem Sound.applyBlock (hn : Sound start n) (header : SignedHeader) (data : Data) :
    Sound start (n.applyBlock header data) := by
  unfold InclusionNode.applyBlock
  by_cases hguard : n.applying.isNone ∧ n.IsNext header data
  · rw [if_pos hguard]
    obtain ⟨hidle, hnext⟩ := hguard
    have hnone : n.applying = none := isNone_iff_eq_none.mp hidle
    have hmarked : ∀ h, ¬ n.DataUnmarked h := by
      rintro h ⟨a, ha, -⟩
      simp [hnone] at ha
    have hmarked' : ∀ h, ¬ n.HeaderUnmarked h :=
      fun h hunmarked => hmarked h (by
        obtain ⟨a, ha, -, hh⟩ := hunmarked
        exact ⟨a, ha, hh⟩)
    refine hn.grows ⟨rfl, rfl, rfl, rfl, rfl, ?_, fun _ h => h, fun _ h => h, fun _ h => h⟩
      ⟨hn.caches.storeBlock_stored hnext, hn.caches.headers, hn.caches.data, ?_, ?_, ?_⟩
    · exact fun h block hblock => hn.caches.storeBlock_kept hnext hblock
    -- the new block is exempt until it is marked
    · refine hnext.storeBlock_forall ?_ ?_
      · exact fun _ hnot => absurd ⟨_, rfl, rfl, rfl⟩ hnot
      · exact fun h block hblock _ hopen _ =>
          hn.caches.headerIndex h block hblock hopen (hmarked' h)
    · refine hnext.storeBlock_forall ?_ ?_
      · exact fun _ _ hnot => absurd ⟨_, rfl, rfl⟩ hnot
      · exact fun h block hblock _ hopen htxs _ =>
          hn.caches.dataIndex h block hblock hopen htxs (hmarked h)
    · rintro a ha
      obtain rfl := some.inj ha
      refine ⟨header.signature, ?_⟩
      show (storeBlock n.store header data).blocks header.header.height = _
      rw [(storeBlock_spec data hnext.1).2, update_self]
  · rw [if_neg hguard]
    exact hn

theorem Sound.produceBlock (hn : Sound start n) (hfree : Step.Harmless n (.produce header data)) :
    Sound start (n.produceBlock header data) := by
  unfold InclusionNode.produceBlock
  by_cases hnext : n.IsNext header data
  · rw [if_pos hnext]
    refine hn.grows ⟨rfl, rfl, rfl, rfl, rfl, ?_, fun _ h => h, fun _ h => h, fun _ h => h⟩
      ⟨hn.caches.storeBlock_stored hnext, hn.caches.headers, hn.caches.data, ?_, ?_, ?_⟩
    · exact fun h block hblock => hn.caches.storeBlock_kept hnext hblock
    · exact hnext.storeBlock_forall (fun _ _ => hfree.1)
        (fun h block hblock _ => hn.caches.headerIndex h block hblock)
    · exact hnext.storeBlock_forall (fun _ _ _ => hfree.2)
        (fun h block hblock _ => hn.caches.dataIndex h block hblock)
    · intro a ha
      obtain ⟨signature, hblock⟩ := hn.caches.applied a ha
      exact ⟨signature, hn.caches.storeBlock_kept hnext hblock⟩
  · rw [if_neg hnext]
    exact hn

theorem CachesSound.setHeaderSeen (hn : n.CachesSound)
    (happlying : n.applying = some ⟨header, data, false⟩) :
    CachesSound { n with
      headerCache := n.headerCache.setSeen (.hash (n.codec.headerHash header.header))
        header.header.height
      applying := some ⟨header, data, true⟩ } := by
  obtain ⟨signature, hstored⟩ := hn.applied _ happlying
  refine ⟨hn.stored, hn.headers.setSeen _ _, hn.data, ?_, ?_, ?_⟩
  · intro h block hblock hopen _
    refine BlockCache.PointsTo.setSeen (fun hne => ?_) ?_
    · refine hn.headerIndex h block hblock hopen ?_
      rintro ⟨a, ha, -, hh⟩
      rw [happlying] at ha
      obtain rfl := some.inj ha
      exact hne hh.symm
    · rintro rfl
      have heq : some block = some ⟨header, data, signature⟩ := hblock.symm.trans hstored
      rw [some.inj heq]
      rfl
  · intro h block hblock hopen htxs hmarked
    refine hn.dataIndex h block hblock hopen htxs ?_
    rintro ⟨a, ha, hh⟩
    rw [happlying] at ha
    obtain rfl := some.inj ha
    exact hmarked ⟨_, rfl, hh⟩
  · intro a ha
    obtain rfl := some.inj ha
    exact ⟨signature, hstored⟩

theorem CachesSound.setDataSeen (hn : n.CachesSound)
    (happlying : n.applying = some ⟨header, data, true⟩)
    (hempty : ∀ txs, n.codec.daCommitment txs = dataHashForEmptyTxs → txs = []) :
    CachesSound { n with dataCache := n.setDataSeen header data, applying := none } := by
  obtain ⟨signature, hstored⟩ := hn.applied _ happlying
  have hcommitment := (validate_ok (hn.stored _ _ hstored).2.2).1
  refine ⟨hn.stored, hn.headers, ?_, ?_, ?_, fun a ha => absurd ha (by simp)⟩
  · show (n.setDataSeen header data).Backed n.DataOnDa
    unfold InclusionNode.setDataSeen
    split_ifs
    · exact hn.data.setSeen _ _
    · exact hn.data
  · intro h block hblock hopen _
    refine hn.headerIndex h block hblock hopen ?_
    rintro ⟨a, ha, hunseen, -⟩
    rw [happlying] at ha
    obtain rfl := some.inj ha
    simp at hunseen
  · intro h block hblock hopen htxs _
    show (n.setDataSeen header data).PointsTo h (n.codec.daCommitment block.data.txs)
    unfold InclusionNode.setDataSeen
    by_cases hh : h = header.header.height
    · have heq : some block = some ⟨header, data, signature⟩ :=
        (hh ▸ hblock).symm.trans hstored
      obtain rfl := some.inj heq
      rw [if_pos (fun hconst => htxs (hempty data.txs (hcommitment.trans hconst)))]
      exact BlockCache.PointsTo.setSeen (fun hne => absurd hh hne) (fun _ => rfl)
    · have hold : n.dataCache.PointsTo h (n.codec.daCommitment block.data.txs) := by
        refine hn.dataIndex h block hblock hopen htxs ?_
        rintro ⟨a, ha, hheight⟩
        rw [happlying] at ha
        obtain rfl := some.inj ha
        exact hh hheight.symm
      split_ifs
      · exact BlockCache.PointsTo.setSeen (fun _ => hold) (fun heq => absurd heq hh)
      · exact hold

end

section

variable {pc : LoopPc} {current d : ℕ} (hn : Sound start n)
include hn

theorem Sound.markSeen : Sound start n.markSeen := by
  unfold InclusionNode.markSeen
  rcases happlying : n.applying with _ | ⟨header, data, _ | _⟩
  · exact hn
  · exact hn.grows (.caches _ _ _ _) (hn.caches.setHeaderSeen happlying)
  · exact hn.grows (.caches _ _ _ _) (hn.caches.setDataSeen happlying hn.empty)

theorem Sound.removeHeaderDAIncluded (header : SignedHeader) :
    Sound start (n.removeHeaderDAIncluded header) :=
  hn.grows (.caches _ _ _ _) ⟨hn.caches.stored, hn.caches.headers.removeDAIncluded _,
    hn.caches.data, hn.caches.headerIndex, hn.caches.dataIndex, hn.caches.applied⟩

theorem Sound.removeDataDAIncluded (data : Data) :
    Sound start (n.removeDataDAIncluded data) :=
  hn.grows (.caches _ _ _ _) ⟨hn.caches.stored, hn.caches.headers,
    hn.caches.data.removeDAIncluded _, hn.caches.headerIndex, hn.caches.dataIndex,
    hn.caches.applied⟩

/-! ## One step of the loop -/

theorem Sound.loopTo {metadata : InclusionMetadata} {sequencer : Option ℕ} {finalized : List ℕ}
    (hkept : ∀ h ≤ n.daIncludedHeight, metadata.headerDAHeight h = n.metadata.headerDAHeight h ∧
      metadata.dataDAHeight h = n.metadata.dataDAHeight h) (hpc : LoopSound { n with
      metadata := metadata
      sequencer := sequencer
      finalized := finalized
      loop := pc }) :
    Sound start { n with
      metadata := metadata
      sequencer := sequencer
      finalized := finalized
      loop := pc } := by
  refine ⟨hn.empty, ⟨hn.caches.stored, hn.caches.headers, hn.caches.data,
    hn.caches.headerIndex, hn.caches.dataIndex, hn.caches.applied⟩, hpc, fun h hstart hle => ?_⟩
  obtain ⟨block, d, hblock, hd, hheader, hdata⟩ := hn.recorded h hstart hle
  refine ⟨block, d, hblock, (hkept h hle).1.trans hd, hheader, fun htxs => ?_⟩
  obtain ⟨d', hd', hon⟩ := hdata htxs
  exact ⟨d', (hkept h hle).2.trans hd', hon⟩

theorem Sound.goto (hpc : LoopSound { n with loop := pc }) :
    Sound start { n with loop := pc } :=
  hn.loopTo (fun _ _ => ⟨rfl, rfl⟩) hpc

theorem Sound.mapHeader (hnext : n.AtNext current data) (hmarked : ¬ n.HeaderUnmarked (current + 1))
    (hd : n.headerCache.getDAIncludedByHeight (current + 1) = some d) :
    Sound start { n with
      metadata := { n.metadata with
        headerDAHeight := update n.metadata.headerDAHeight (current + 1) (some d) }
      loop := .mappingData current data d } := by
  obtain ⟨hcurrent, block, hblock, hdata⟩ := hnext
  have hopen : n.daIncludedHeight < current + 1 := by omega
  refine hn.loopTo (fun h hle => ⟨update_of_ne (by omega) _ _, rfl⟩) ?_
  refine ⟨hcurrent, block, hblock, hdata, update_self _ _ _, ?_⟩
  exact hn.caches.headers.getDAIncludedByHeight
    (hn.caches.headerIndex _ block hblock hopen hmarked) hd

theorem Sound.mapData {d' : ℕ} (hcurrent : n.daIncludedHeight = current)
    (hblock : n.store.blocks (current + 1) = some block)
    (hd : n.metadata.headerDAHeight (current + 1) = some d)
    (hheader : n.HeaderOnDa (n.codec.headerHash block.header.header) d)
    (hdata : block.data.txs ≠ [] → n.DataOnDa (n.codec.daCommitment block.data.txs) d')
    (hpc : pc = .mappingGenesis current (min d' d) ∨ pc = .finalizing current 1) :
    Sound start { n with
      metadata := { n.metadata with
        dataDAHeight := update n.metadata.dataDAHeight (current + 1) (some d') }
      loop := pc } := by
  refine hn.loopTo (fun h hle => ⟨rfl, update_of_ne (by omega) _ _⟩) ?_
  have hrecorded : Recorded { n with
      metadata := { n.metadata with
        dataDAHeight := update n.metadata.dataDAHeight (current + 1) (some d') } }
      (current + 1) :=
    ⟨block, d, hblock, hd, hheader,
      fun htxs => ⟨d', update_self _ _ _, hdata htxs⟩⟩
  rcases hpc with rfl | rfl
  · exact ⟨hcurrent, hrecorded⟩
  · exact ⟨hcurrent, hrecorded⟩

theorem Sound.loopEffect {n' : InclusionNode} (heffect : LoopEffect n n')
    {inp : LoopInput} (hharmless : Step.Harmless n (.loop inp)) : Sound start n' := by
  have hloop := hn.loop
  unfold LoopSound at hloop
  unfold Step.Harmless at hharmless
  cases heffect with
  | tick _ => exact hn.goto (rfl : n.daIncludedHeight = n.daIncludedHeight)
  | breakOff current _ | halt _ => exact hn.goto trivial
  | readBlock current block hpc hblock =>
    rw [hpc] at hloop
    exact hn.goto ⟨hloop, block, hblock, rfl⟩
  | check current data heightRead hpc _ =>
    rw [hpc] at hloop
    exact hn.goto hloop
  | mapHeader current data d hpc hd =>
    rw [hpc] at hloop hharmless
    exact hn.mapHeader hloop hharmless hd
  | mapData current data d d' pc hpc hd hnext =>
    rw [hpc] at hloop hharmless
    obtain ⟨hcurrent, block, hblock, rfl, hheight, hheader⟩ := hloop
    refine hn.mapData hcurrent hblock hheight hheader (fun htxs => ?_) hnext
    rcases hd with ⟨hconst, -⟩ | ⟨-, hd⟩
    · exact absurd (hn.empty _ hconst) htxs
    · have hopen : n.daIncludedHeight < current + 1 := by omega
      exact hn.caches.data.getDAIncludedByHeight
        (hn.caches.dataIndex _ block hblock hopen htxs hharmless) hd
  | mapGenesis current d hpc | setFinal current attempt hpc =>
    rw [hpc] at hloop
    exact hn.loopTo (fun _ _ => ⟨rfl, rfl⟩) hloop
  | retry current attempt hpc =>
    rw [hpc] at hloop
    exact hn.goto hloop
  | persist current hpc =>
    rw [hpc] at hloop
    exact hn.loopTo (fun _ _ => ⟨rfl, rfl⟩) hloop
  | advance current hpc =>
    -- the height moves up: what was recorded for the next block is now among the rest
    rw [hpc] at hloop
    obtain ⟨hcurrent, hrecorded⟩ := hloop
    refine ⟨hn.empty, ⟨hn.caches.stored, hn.caches.headers, hn.caches.data, ?_, ?_,
      hn.caches.applied⟩, rfl, fun h hstart hle => ?_⟩
    · exact fun h block hblock hopen => hn.caches.headerIndex h block hblock
        (lt_of_le_of_lt (hcurrent.le.trans (Nat.le_succ current)) hopen)
    · exact fun h block hblock hopen => hn.caches.dataIndex h block hblock
        (lt_of_le_of_lt (hcurrent.le.trans (Nat.le_succ current)) hopen)
    · rcases Nat.le_succ_iff.mp hle with hold | rfl
      · exact hn.recorded h hstart (hold.trans hcurrent.ge)
      · exact hrecorded
  | delete height hpc =>
    rw [hpc] at hloop
    refine ⟨hn.empty, ⟨hn.caches.stored, hn.caches.headers.deleteAllForHeight height,
      hn.caches.data.deleteAllForHeight height, ?_, ?_, hn.caches.applied⟩, hloop, hn.recorded⟩
    · exact fun h block hblock hopen hmarked =>
        (hn.caches.headerIndex h block hblock hopen hmarked).deleteAllForHeight height
    · exact fun h block hblock hopen htxs hmarked =>
        (hn.caches.dataIndex h block hblock hopen htxs hmarked).deleteAllForHeight height
  | stay _ => exact hn

/-! ## Whole runs -/

theorem Sound.step {s : Step} (hs : s.Harmless n) :
    Sound start (n.step s) := by
  unfold InclusionNode.step
  by_cases hpanicked : n.panicked.isSome = true
  · rw [if_pos hpanicked]
    exact hn
  rw [if_neg hpanicked]
  cases s with
  | blob now bz daHeight => exact hn.decodeBlob hs now daHeight
  | ackHeader height daHeight => exact hn.ackHeader height daHeight
  | ackData height daHeight => exact hn.ackData height daHeight
  | apply header data => exact hn.applyBlock header data
  | seen => exact hn.markSeen
  | refuseHeader header => exact hn.removeHeaderDAIncluded header
  | refuseData data => exact hn.removeDataDAIncluded data
  | produce header data => exact hn.produceBlock hs
  | loop inp => exact hn.loopEffect (n.loopEffect inp) hs

end

end

theorem new_sound (retriever : DaRetriever) (store : Store) (metadata : InclusionMetadata)
    (sequencer : Option ℕ) (hstore : store.Filed retriever.codec)
    (hempty : ∀ txs, retriever.codec.daCommitment txs = dataHashForEmptyTxs → txs = []) :
    Sound (new retriever store metadata sequencer).daIncludedHeight
      (new retriever store metadata sequencer) := by
  refine ⟨hempty, ⟨hstore, .new, .new, ?_, ?_, ?_⟩, trivial, fun h hstart hle => ?_⟩
  · exact fun h block _ _ _ => .new
  · exact fun h block _ _ _ _ => .new
  · exact fun a ha => absurd ha (by simp [new])
  · exact absurd hle (Nat.not_le.mpr hstart)

/-- In every interleaving of harmless steps from fresh caches: the DA heights recorded for every
height that has become DA-included are where the header and the data stored there have been seen
or acknowledged. -/
theorem included_blocks_on_da (retriever : DaRetriever) (store : Store)
    (metadata : InclusionMetadata) (sequencer : Option ℕ) (hstore : store.Filed retriever.codec)
    (hempty : ∀ txs, retriever.codec.daCommitment txs = dataHashForEmptyTxs → txs = [])
    (steps : List Step)
    (hharmless : ∀ p ∈ Runs.steps step (new retriever store metadata sequencer) steps,
      p.2.Harmless p.1)
    (h : ℕ) (hstart : (new retriever store metadata sequencer).daIncludedHeight < h)
    (hle : h ≤ (steps.foldl step (new retriever store metadata sequencer)).daIncludedHeight) :
    (steps.foldl step (new retriever store metadata sequencer)).Recorded h :=
  (foldl_invariant step (Sound _) (fun n s => s.Harmless n)
    (fun _ _ hn hs => hn.step hs) (new_sound retriever store metadata sequencer hstore hempty)
    hharmless).recorded h hstart hle

/-! ## A block and another header of its height -/

def rootCodec : Codec where
  headerBytes := fun h => h.appHash
  headerBytesLegacy := fun _ => []
  dataBytes := fun d => d.txs.flatMap (fun tx => 1 :: tx)
  sha256 := fun bz => if bz = [0] then dataHashForEmptyTxs else 1 :: bz

theorem rootCodec_empty (txs : List Tx)
    (h : rootCodec.daCommitment txs = dataHashForEmptyTxs) : txs = [] := by
  cases txs with
  | nil => rfl
  | cons tx txs =>
    have hne : rootCodec.daCommitment (tx :: txs) =
        1 :: 0 :: 1 :: (tx ++ txs.flatMap (fun tx => 1 :: tx)) := by
      simp [rootCodec, Codec.daCommitment, Codec.leafHash]
    have hhead := congrArg List.head? h
    rw [hne, List.head?_cons] at hhead
    exact absurd hhead (by decide)

def ownHeader : SignedHeader :=
  ⟨⟨1, 1, "chain", ⟨0, 0⟩, [], [1, 0, 1, 5], [0], [], [7], none⟩, [7, 1],
    ⟨some ⟨0, [7]⟩, [7]⟩⟩

/-- The header of the first block as `[1]` and its data as `[2]`. -/
def inclusionWire : Wire :=
  tableWire
    [([1], ⟨⟨some ⟨none, 1, 1, [], [1, 0, 1, 5], [0], [7], [], "chain", []⟩, [7, 1],
      some (blockSigner 7)⟩, []⟩), ([3], foreignHeader [7] [])]
    [([2], ⟨some blockData, [7, 1, 5], some (blockSigner 7)⟩)]

def inclusionStart : InclusionNode :=
  new (.new proposerGenesis rootCodec inclusionWire) Store.empty
    ⟨fun _ => none, fun _ => none, none, none⟩ none

def untilRead (blobs : List Blob) : List Step :=
  [.apply ownHeader blockData, .seen, .seen] ++ blobs.map (fun bz => .blob 0 bz 5)

def oneHeight : List Step := List.replicate 9 (.loop ⟨true, true, true, true, false⟩)

theorem decodesTo_unique {header' : SignedHeader} {signature : Signature}
    (henvelope : unmarshalDAEnvelope w bz = some (header, signature))
    (h : DecodesTo w bz header') : header' = header := by
  rcases h with ⟨signature', henvelope'⟩ | ⟨hnone, -⟩
  · rw [henvelope] at henvelope'
    exact (Prod.mk.inj (some.inj henvelope')).1.symm
  · simp [henvelope] at hnone

theorem not_decodesTo (henvelope : unmarshalDAEnvelope w bz = none)
    (hbinary : unmarshalBinary w bz = none) : ¬ DecodesTo w bz header := by
  rintro (⟨signature, h⟩ | ⟨-, h⟩)
  · simp [henvelope] at h
  · simp [hbinary] at h

/-- The stored header is never seen on DA. Another one of its height is, and with the data of
the block that is enough. -/
theorem included_header_not_on_da :
    inclusionStart.daIncludedHeight = 0 ∧
      ((untilRead [[3], [2]] ++ oneHeight).foldl step inclusionStart).daIncludedHeight = 1 ∧
      ¬ ((untilRead [[3], [2]] ++ oneHeight).foldl step inclusionStart).Recorded 1 := by
  refine ⟨rfl, by decide +kernel, ?_⟩
  rintro ⟨block, d, hblock, -, hheader, -⟩
  have hown : block = ⟨ownHeader, blockData, ownHeader.signature⟩ :=
    some.inj (hblock.symm.trans (by decide +kernel))
  rw [hown] at hheader
  rcases hheader with ⟨bz, header, hmem, hdecodes, hhash⟩ | ⟨header, hmem, -⟩
  · have hseen : (bz, d) ∈ [(([3] : Blob), 5), ([2], 5)] := hmem
    simp only [mem_cons, not_mem_nil, or_false] at hseen
    rcases hseen with ⟨rfl, -⟩ | ⟨rfl, -⟩
    · obtain rfl := decodesTo_unique (show unmarshalDAEnvelope inclusionWire [3] =
        some (intruder, []) by decide +kernel) hdecodes
      have hsame : rootCodec.headerHash intruder.header = rootCodec.headerHash ownHeader.header :=
        hhash
      exact absurd hsame (by decide +kernel)
    · exact not_decodesTo (by decide +kernel) (by decide +kernel) hdecodes
  · have hacked : (header, d) ∈ ([] : List (SignedHeader × ℕ)) := hmem
    exact absurd hacked not_mem_nil

theorem loop_harmless (happlying : n.applying = none) (inp : LoopInput) :
    Step.Harmless n (.loop inp) := by
  have hnot : ∀ h, ¬ n.DataUnmarked h := by
    rintro h ⟨a, ha, -⟩
    simp [happlying] at ha
  have hnot' : ∀ h, ¬ n.HeaderUnmarked h := by
    rintro h ⟨a, ha, -, hh⟩
    exact hnot h ⟨a, ha, hh⟩
  unfold Step.Harmless
  rcases n.loop with _ | _ | _ | _ | _ | _ | _ | _ | _ | _ | _
  all_goals first | trivial | exact hnot' _ | exact hnot _

theorem ownBlob_harmless (hwire : n.retriever.wire = inclusionWire)
    (hstored : n.store.blocks 1 = some ⟨ownHeader, blockData, ownHeader.signature⟩) :
    n.BlobHarmless [1] ∧ n.BlobHarmless [2] := by
  have hdata : ∀ block, n.store.blocks (dataHeight blockData) = some block →
      block = ⟨ownHeader, blockData, ownHeader.signature⟩ :=
    fun block hblock => some.inj (hblock.symm.trans hstored)
  constructor <;> constructor <;> rw [hwire]
  · intro header hdecodes _ block hblock _
    obtain rfl := decodesTo_unique (show unmarshalDAEnvelope inclusionWire [1] =
      some (ownHeader, []) by decide +kernel) hdecodes
    rw [some.inj (hblock.symm.trans hstored)]
  · intro signedData data hdecode
    simp [show SignedData.unmarshalBinary inclusionWire [1] = none by decide +kernel] at hdecode
  · intro header hdecodes
    exact absurd hdecodes (not_decodesTo (by decide +kernel) (by decide +kernel))
  · intro signedData data hdecode hsome _ block hblock _ _
    obtain rfl := some.inj hdecode
    obtain rfl := some.inj hsome
    rw [hdata block hblock]

theorem ownSteps_harmless :
    ∀ p ∈ Runs.steps step inclusionStart (untilRead [[1], [2]] ++ oneHeight),
      p.2.Harmless p.1 := by
  rw [steps_append]
  intro p hp
  rcases mem_append.mp hp with hp | hp
  · simp only [untilRead, map_cons, map_nil, cons_append, nil_append,
      steps_cons, steps_nil, mem_cons, not_mem_nil, or_false] at hp
    rcases hp with rfl | rfl | rfl | rfl | rfl
    · trivial
    · trivial
    · trivial
    · exact (ownBlob_harmless rfl (by decide +kernel)).1
    · exact (ownBlob_harmless rfl (by decide +kernel)).2
  · -- the marks are made by then
    have hidle : ∀ q ∈ Runs.steps step ((untilRead [[1], [2]]).foldl step inclusionStart)
        oneHeight, q.1.applying.isNone = true := by decide +kernel
    have hloop := steps_of_forall (fun s hs => eq_of_mem_replicate hs) p hp
    rw [hloop]
    exact loop_harmless (isNone_iff_eq_none.mp (hidle p hp)) _

theorem included_blocks_on_da_own :
    ((untilRead [[1], [2]] ++ oneHeight).foldl step inclusionStart).Recorded 1 :=
  included_blocks_on_da (.new proposerGenesis rootCodec inclusionWire) Store.empty
    ⟨fun _ => none, fun _ => none, none, none⟩ none
    (fun _ _ hblock => absurd hblock (by simp [Store.empty])) rootCodec_empty
    (untilRead [[1], [2]] ++ oneHeight) ownSteps_harmless 1 (by decide +kernel)
    (by decide +kernel)

end InclusionNode

end ChainSdk

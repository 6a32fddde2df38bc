/-
DA inclusion, `processDAInclusionLoop` of `block/internal/submitting/submitter.go`, among the
goroutines it shares the store and the caches with.

A node moves its DA-included height up by one when the caches hold a DA height for the header and,
unless it is empty, for the data of the next block.
-/
import ChainSdk.BlockCache
import ChainSdk.Executor
import ChainSdk.ForeignBlobs

namespace ChainSdk

open Function

/-! ## The node as DA inclusion sees it -/

/-- The metadata DA inclusion writes: the DA heights of headers and data, that of the first block,
and the DA-included height. -/
structure InclusionMetadata where
  headerDAHeight : ℕ → Option ℕ
  dataDAHeight : ℕ → Option ℕ
  genesisDAHeight : Option ℕ
  daIncludedHeight : Option ℕ

def tipDAHeight (daHeights : ℕ → Option ℕ) (daIncludedHeight : Option ℕ) : Option ℕ :=
  match daIncludedHeight with
  | none => none
  | some height => if height = 0 then none else daHeights height

/-- What `initDAHeightFromStore` reads for the header cache, and for the data cache. -/
def InclusionMetadata.headerTip (m : InclusionMetadata) : Option ℕ :=
  tipDAHeight m.headerDAHeight m.daIncludedHeight

def InclusionMetadata.dataTip (m : InclusionMetadata) : Option ℕ :=
  tipDAHeight m.dataDAHeight m.daIncludedHeight

/-- Where `processDAInclusionLoop` is; `current` is its `currentDAIncluded`. -/
inductive LoopPc
  | waiting
  | reading (current : ℕ)
  /-- About to call `IsHeightDAIncluded`. -/
  | checking (current : ℕ) (data : Data)
  | mappingHeader (current : ℕ) (data : Data)
  | mappingData (current : ℕ) (data : Data) (daHeightForHeader : ℕ)
  | mappingGenesis (current : ℕ) (genesisDAIncludedHeight : ℕ)
  | finalizing (current : ℕ) (attempt : ℕ)
  | persisting (current : ℕ)
  | advancing (current : ℕ)
  | deleting (height : ℕ)
  | stopped
  deriving DecidableEq

/-- The height a round started from, where it can still break off. -/
def LoopPc.current : LoopPc → Option ℕ
  | .reading current | .checking current _ | .mappingHeader current _ | .mappingData current _ _
  | .mappingGenesis current _ | .finalizing current _ | .persisting current => some current
  | .waiting | .advancing _ | .deleting _ | .stopped => none

/-- A block that has been committed and not yet marked as seen throughout. -/
structure Applying where
  header : SignedHeader
  data : Data
  headerSeen : Bool

/-- What the goroutines share, and where two of them are. -/
structure InclusionNode where
  retriever : DaRetriever
  store : Store
  metadata : InclusionMetadata
  headerCache : BlockCache
  dataCache : BlockCache
  /-- The DA height of the sequencer, if the node has one. -/
  sequencer : Option ℕ
  /-- The heights `SetFinal` has succeeded for. -/
  finalized : List ℕ
  daIncludedHeight : ℕ
  loop : LoopPc
  applying : Option Applying
  /-- The panic that has ended the process. -/
  panicked : Option Panic
  /-- The DA blobs seen, with their DA heights. -/
  seenBlobs : List (Blob × ℕ)
  /-- The headers and data DA has acknowledged, with their DA heights. -/
  ackedHeaders : List (SignedHeader × ℕ)
  ackedData : List (Data × ℕ)

/-- What a step of the loop takes from outside: how its calls turn out. -/
structure LoopInput where
  blockRead : Bool
  heightRead : Bool
  written : Bool
  setFinal : Bool
  cancelled : Bool

namespace InclusionNode

section

variable (n : InclusionNode)

def codec : Codec := n.retriever.codec

/-- `NewSubmitter` and `initializeDAIncludedHeight`, with fresh caches. -/
def new (retriever : DaRetriever) (store : Store) (metadata : InclusionMetadata)
    (sequencer : Option ℕ) : InclusionNode where
  retriever := retriever
  store := store
  metadata := metadata
  headerCache := BlockCache.new
  dataCache := BlockCache.new
  sequencer := sequencer
  finalized := []
  daIncludedHeight := metadata.daIncludedHeight.getD 0
  loop := .waiting
  applying := none
  panicked := none
  seenBlobs := []
  ackedHeaders := []
  ackedData := []

/-! ## The other goroutines -/

def setHeaderDAIncluded (daHeight : ℕ) (header : SignedHeader) : InclusionNode :=
  { n with
    headerCache := n.headerCache.setDAIncluded (.hash (n.codec.headerHash header.header))
      daHeight header.header.height }

def setDataDAIncluded (daHeight : ℕ) (data : Data) : InclusionNode :=
  { n with
    dataCache := n.dataCache.setDAIncluded (.hash (n.codec.daCommitment data.txs))
      daHeight (DaRetriever.dataHeight data) }

/-- One blob of a `processBlobs` call: what it decodes to is marked as included. -/
def decodeBlob (now : Time) (bz : Blob) (daHeight : ℕ) : InclusionNode :=
  let n := { n with seenBlobs := n.seenBlobs ++ [(bz, daHeight)] }
  match DaRetriever.decodeBlob now daHeight ⟨n.retriever, [], []⟩ bz with
  | .error panic => { n with panicked := some panic }
  | .ok decoded =>
    let n := { n with retriever := decoded.retriever }
    decoded.data.foldl (setDataDAIncluded · daHeight ·)
      (decoded.headers.foldl (setHeaderDAIncluded · daHeight ·) n)

/-- The part of the callback of `SubmitHeaders` about the header stored at a height. -/
def ackHeader (height daHeight : ℕ) : InclusionNode :=
  match n.store.blocks height with
  | none => n
  | some block =>
    { n with ackedHeaders := n.ackedHeaders ++ [(block.header, daHeight)] }.setHeaderDAIncluded
      daHeight block.header

/-- The part of the callback of `SubmitData` about the data stored at a height, of which empty
data is never submitted. The height is read from the metadata. -/
def ackData (height daHeight : ℕ) : InclusionNode :=
  match n.store.blocks height with
  | none => n
  | some block =>
    if block.data.txs.length = 0 then n
    else if block.data.metadata.isNone then { n with panicked := some .nilMetadata }
    else
      { n with ackedData := n.ackedData ++ [(block.data, daHeight)] }.setDataDAIncluded
        daHeight block.data

def storeBlock (store : Store) (header : SignedHeader) (data : Data) : Store :=
  (store.saveBlockData header data header.signature).setHeight header.header.height

theorem storeBlock_spec {store : Store} {header : SignedHeader} (data : Data)
    (hnext : header.header.height = store.height + 1) :
    (storeBlock store header data).height = header.header.height ∧
      (storeBlock store header data).blocks = update store.blocks header.header.height
        (some ⟨header, data, header.signature⟩) := by
  unfold storeBlock Store.setHeight Store.saveBlockData
  dsimp only
  rw [if_neg (by omega)]
  exact ⟨rfl, rfl⟩

def IsNext (header : SignedHeader) (data : Data) : Prop :=
  header.header.height = n.store.height + 1 ∧ validate n.codec header data = .ok ()

end

instance (n : InclusionNode) (header : SignedHeader) (data : Data) :
    Decidable (n.IsNext header data) :=
  inferInstanceAs (Decidable (_ ∧ _))

variable (n : InclusionNode)

/-- The batch of `TrySyncNextBlock`, once the block has been validated and executed. -/
def applyBlock (header : SignedHeader) (data : Data) : InclusionNode :=
  if n.applying.isNone ∧ n.IsNext header data then
    { n with store := storeBlock n.store header data, applying := some ⟨header, data, false⟩ }
  else n

def setDataSeen (header : SignedHeader) (data : Data) : BlockCache :=
  if header.header.dataHash ≠ dataHashForEmptyTxs then
    n.dataCache.setSeen (.hash (n.codec.daCommitment data.txs)) header.header.height
  else n.dataCache

/-- `SetHeaderSeen` after the batch, and `SetDataSeen` after it. -/
def markSeen : InclusionNode :=
  match n.applying with
  | none => n
  | some ⟨header, data, false⟩ =>
    { n with
      headerCache := n.headerCache.setSeen (.hash (n.codec.headerHash header.header))
        header.header.height
      applying := some ⟨header, data, true⟩ }
  | some ⟨header, data, true⟩ =>
    { n with dataCache := n.setDataSeen header data, applying := none }

def removeHeaderDAIncluded (header : SignedHeader) : InclusionNode :=
  { n with
    headerCache := n.headerCache.removeDAIncluded (.hash (n.codec.headerHash header.header)) }

def removeDataDAIncluded (data : Data) : InclusionNode :=
  { n with
    dataCache := n.dataCache.removeDAIncluded (.hash (n.codec.daCommitment data.txs)) }

/-- The batch of `ProduceBlock`: the executor marks nothing in the caches. -/
def produceBlock (header : SignedHeader) (data : Data) : InclusionNode :=
  if n.IsNext header data then { n with store := storeBlock n.store header data }
  else n

/-! ## The loop -/

def isHeightDAIncluded (heightRead : Bool) (height : ℕ) (data : Data) : Option Bool :=
  if height ≤ n.daIncludedHeight then some true
  else if !heightRead then none
  else if n.store.height < height then some false
  else
    some ((n.headerCache.getDAIncludedByHeight height).isSome &&
      (decide (n.codec.daCommitment data.txs = dataHashForEmptyTxs) ||
        (n.dataCache.getDAIncludedByHeight height).isSome))

/-- The second half of `setNodeHeightToDAHeight`, with the DA height of the data and the one
that counts for the first block. -/
def writeDataDAHeight (inp : LoopInput) (current dataDAHeight
    genesisDAIncludedHeight : ℕ) : InclusionNode :=
  if !inp.written then { n with loop := .waiting }
  else
    { n with
      metadata := { n.metadata with
        dataDAHeight := update n.metadata.dataDAHeight (current + 1)
          (some dataDAHeight) }
      loop :=
        if current = 0 then .mappingGenesis current genesisDAIncludedHeight
        else .finalizing current 1 }

/-- One step of `processDAInclusionLoop`. Whatever breaks out of the inner loop waits for the
next tick. -/
def loopStep (inp : LoopInput) : InclusionNode :=
  match n.loop with
  | .waiting =>
    { n with loop := if inp.cancelled then .stopped else .reading n.daIncludedHeight }
  | .reading current =>
    match n.store.blocks (current + 1) with
    | none => { n with loop := .waiting }
    | some block =>
      { n with loop := if inp.blockRead then .checking current block.data else .waiting }
  | .checking current data =>
    if n.isHeightDAIncluded inp.heightRead (current + 1) data = some true then
      { n with loop := .mappingHeader current data }
    else { n with loop := .waiting }
  | .mappingHeader current data =>
    -- the cache is asked again, so that the DA height is the one of now
    match n.headerCache.getDAIncludedByHeight (current + 1) with
    | none => { n with loop := .waiting }
    | some daHeightForHeader =>
      if !inp.written then { n with loop := .waiting }
      else
        { n with
          metadata := { n.metadata with
            headerDAHeight := update n.metadata.headerDAHeight (current + 1)
              (some daHeightForHeader) }
          loop := .mappingData current data daHeightForHeader }
  | .mappingData current data daHeightForHeader =>
    if n.codec.daCommitment data.txs = dataHashForEmptyTxs then
      n.writeDataDAHeight inp current daHeightForHeader daHeightForHeader
    else
      match n.dataCache.getDAIncludedByHeight (current + 1) with
      | none => { n with loop := .waiting }
      | some daHeightForData =>
        n.writeDataDAHeight inp current daHeightForData
          (min daHeightForData daHeightForHeader)
  | .mappingGenesis current genesisDAIncludedHeight =>
    if !inp.written then { n with loop := .waiting }
    else
      { n with
        metadata := { n.metadata with genesisDAHeight := some genesisDAIncludedHeight }
        sequencer := n.sequencer.map (fun _ => genesisDAIncludedHeight)
        loop := .finalizing current 1 }
  | .finalizing current attempt =>
    if inp.setFinal then
      { n with finalized := n.finalized ++ [current + 1], loop := .persisting current }
    else if attempt = Executor.maxRetriesBeforeHalt ∨ inp.cancelled = true then
      { n with loop := .stopped }
    else { n with loop := .finalizing current (attempt + 1) }
  | .persisting current =>
    if !inp.written then { n with loop := .waiting }
    else
      { n with
        metadata := { n.metadata with daIncludedHeight := some (current + 1) }
        loop := .advancing current }
  | .advancing current =>
    { n with daIncludedHeight := current + 1, loop := .deleting (current + 1) }
  | .deleting height =>
    { n with
      headerCache := n.headerCache.deleteAllForHeight height
      dataCache := n.dataCache.deleteAllForHeight height
      loop := .reading height }
  | .stopped => n

/-- What a step of the loop may do to the node, and where. -/
inductive LoopEffect (n : InclusionNode) : InclusionNode → Prop
  | tick (hloop : n.loop = .waiting) :
      LoopEffect n { n with loop := .reading n.daIncludedHeight }
  | breakOff (current : ℕ) (hloop : n.loop.current = some current) :
      LoopEffect n { n with loop := .waiting }
  | halt (hloop : n.loop = .waiting ∨ ∃ current, n.loop.current = some current) :
      LoopEffect n { n with loop := .stopped }
  | readBlock (current : ℕ) (block : StoredBlock) (hloop : n.loop = .reading current)
      (hblock : n.store.blocks (current + 1) = some block) :
      LoopEffect n { n with loop := .checking current block.data }
  | check (current : ℕ) (data : Data) (heightRead : Bool) (hloop : n.loop = .checking current data)
      (hincluded : n.isHeightDAIncluded heightRead (current + 1) data = some true) :
      LoopEffect n { n with loop := .mappingHeader current data }
  | mapHeader (current : ℕ) (data : Data) (d : ℕ) (hloop : n.loop = .mappingHeader current data)
      (hd : n.headerCache.getDAIncludedByHeight (current + 1) = some d) :
      LoopEffect n { n with
        metadata := { n.metadata with
          headerDAHeight := update n.metadata.headerDAHeight (current + 1) (some d) }
        loop := .mappingData current data d }
  | mapData (current : ℕ) (data : Data) (d d' : ℕ) (pc : LoopPc)
      (hloop : n.loop = .mappingData current data d)
      (hd : n.codec.daCommitment data.txs = dataHashForEmptyTxs ∧ d' = d ∨
        n.codec.daCommitment data.txs ≠ dataHashForEmptyTxs ∧
          n.dataCache.getDAIncludedByHeight (current + 1) = some d')
      (hpc : pc = .mappingGenesis current (min d' d) ∨ pc = .finalizing current 1) :
      LoopEffect n { n with
        metadata := { n.metadata with
          dataDAHeight := update n.metadata.dataDAHeight (current + 1) (some d') }
        loop := pc }
  | mapGenesis (current d : ℕ) (hloop : n.loop = .mappingGenesis current d) :
      LoopEffect n { n with
        metadata := { n.metadata with genesisDAHeight := some d }
        sequencer := n.sequencer.map (fun _ => d)
        loop := .finalizing current 1 }
  | setFinal (current attempt : ℕ) (hloop : n.loop = .finalizing current attempt) :
      LoopEffect n { n with
        finalized := n.finalized ++ [current + 1]
        loop := .persisting current }
  | retry (current attempt : ℕ) (hloop : n.loop = .finalizing current attempt) :
      LoopEffect n { n with loop := .finalizing current (attempt + 1) }
  | persist (current : ℕ) (hloop : n.loop = .persisting current) :
      LoopEffect n { n with
        metadata := { n.metadata with daIncludedHeight := some (current + 1) }
        loop := .advancing current }
  | advance (current : ℕ) (hloop : n.loop = .advancing current) :
      LoopEffect n { n with daIncludedHeight := current + 1, loop := .deleting (current + 1) }
  | delete (height : ℕ) (hloop : n.loop = .deleting height) :
      LoopEffect n { n with
        headerCache := n.headerCache.deleteAllForHeight height
        dataCache := n.dataCache.deleteAllForHeight height
        loop := .reading height }
  | stay (hloop : n.loop = .stopped) : LoopEffect n n

theorem LoopEffect.writeDataDAHeight {n : InclusionNode} {current d d' : ℕ} {data : Data}
    (hloop : n.loop = .mappingData current data d)
    (hd : n.codec.daCommitment data.txs = dataHashForEmptyTxs ∧ d' = d ∨
      n.codec.daCommitment data.txs ≠ dataHashForEmptyTxs ∧
        n.dataCache.getDAIncludedByHeight (current + 1) = some d') (inp : LoopInput) :
    LoopEffect n (n.writeDataDAHeight inp current d' (min d' d)) := by
  unfold InclusionNode.writeDataDAHeight
  split_ifs
  · exact .breakOff current (by rw [hloop]; rfl)
  · exact .mapData current data d d' _ hloop hd (.inl rfl)
  · exact .mapData current data d d' _ hloop hd (.inr rfl)

theorem loopEffect (inp : LoopInput) : LoopEffect n (n.loopStep inp) := by
  have hbreak : ∀ {pc : LoopPc} {current : ℕ}, n.loop = pc → pc.current = some current →
      LoopEffect n { n with loop := .waiting } :=
    fun hloop hcurrent => .breakOff _ (hloop ▸ hcurrent)
  unfold InclusionNode.loopStep
  cases hloop : n.loop with
  | waiting =>
    dsimp only
    split_ifs
    · exact .halt (.inl hloop)
    · exact .tick hloop
  | reading current =>
    dsimp only
    rcases hblock : n.store.blocks (current + 1) with _ | block
    · exact hbreak hloop rfl
    · split_ifs
      · exact .readBlock current block hloop hblock
      · exact hbreak hloop rfl
  | checking current data =>
    dsimp only
    split_ifs with hincluded
    · exact .check current data _ hloop hincluded
    · exact hbreak hloop rfl
  | mappingHeader current data =>
    dsimp only
    rcases hd : n.headerCache.getDAIncludedByHeight (current + 1) with _ | d
    · exact hbreak hloop rfl
    · split_ifs
      · exact hbreak hloop rfl
      · exact .mapHeader current data d hloop hd
  | mappingData current data d =>
    dsimp only
    split_ifs with hconst
    · -- the DA height of empty data is that of the header
      have heffect := LoopEffect.writeDataDAHeight hloop (.inl ⟨hconst, rfl⟩) inp
      rwa [min_self] at heffect
    · rcases hd : n.dataCache.getDAIncludedByHeight (current + 1) with _ | d'
      · exact hbreak hloop rfl
      · exact .writeDataDAHeight hloop (.inr ⟨hconst, hd⟩) inp
  | mappingGenesis current d =>
    dsimp only
    split_ifs
    · exact hbreak hloop rfl
    · exact .mapGenesis current d hloop
  | finalizing current attempt =>
    dsimp only
    split_ifs
    · exact .setFinal current attempt hloop
    · exact .halt (.inr ⟨current, by rw [hloop]; rfl⟩)
    · exact .retry current attempt hloop
  | persisting current =>
    dsimp only
    split_ifs
    · exact hbreak hloop rfl
    · exact .persist current hloop
  | advancing current => exact .advance current hloop
  | deleting height => exact .delete height hloop
  | stopped => exact .stay hloop

/-! ## Interleavings -/

inductive Step
  | blob (now : Time) (bz : Blob) (daHeight : ℕ)
  | ackHeader (height daHeight : ℕ)
  | ackData (height daHeight : ℕ)
  | apply (header : SignedHeader) (data : Data)
  | seen
  | refuseHeader (header : SignedHeader)
  | refuseData (data : Data)
  | produce (header : SignedHeader) (data : Data)
  | loop (inp : LoopInput)

def step (s : Step) : InclusionNode :=
  if n.panicked.isSome then n
  else
    match s with
    | .blob now bz daHeight => n.decodeBlob now bz daHeight
    | .ackHeader height daHeight => n.ackHeader height daHeight
    | .ackData height daHeight => n.ackData height daHeight
    | .apply header data => n.applyBlock header data
    | .seen => n.markSeen
    | .refuseHeader header => n.removeHeaderDAIncluded header
    | .refuseData data => n.removeDataDAIncluded data
    | .produce header data => n.produceBlock header data
    | .loop inp => n.loopStep inp

end InclusionNode

end ChainSdk

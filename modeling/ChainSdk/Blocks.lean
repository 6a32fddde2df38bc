/-
The block types of `types/` and the checks on them that need nothing but the block: headers, data,
the chain state, and how a state follows from its predecessor.

Bytes on the wire and sha256 are outside this repository (protobuf, `crypto/sha256`).
-/
import ChainSdk.Types

namespace ChainSdk

/-! ## Integers of the wire format -/

def timeOfUint64 (n : ℕ) : Time :=
  if n % 2 ^ 64 < 2 ^ 63 then (n % 2 ^ 64 : ℕ) else (n % 2 ^ 64 : ℕ) - 2 ^ 64

def uint64OfTime (t : Time) : ℕ := (t % 2 ^ 64).toNat

/-! ## Headers and data -/

structure Version where
  block : ℕ
  app : ℕ
  deriving DecidableEq

structure LegacyHeaderFields where
  lastCommitHash : Hash
  consensusHash : Hash
  lastResultsHash : Hash
  deriving DecidableEq

def LegacyHeaderFields.isZero : Option LegacyHeaderFields → Bool
  | none => true
  | some l =>
    l.lastCommitHash.length = 0 ∧ l.consensusHash.length = 0 ∧ l.lastResultsHash.length = 0

structure Header where
  height : ℕ
  time : ℕ
  chainID : String
  version : Version
  lastHeaderHash : Hash
  dataHash : Hash
  appHash : Hash
  validatorHash : Hash
  proposerAddress : Bytes
  legacy : Option LegacyHeaderFields
  deriving DecidableEq

/-- A libp2p public key: its type and its raw bytes. -/
structure PubKey where
  keyType : ℕ
  raw : Bytes
  deriving DecidableEq

/-- `types.Signer`; the key is absent in blocks of a based sequencer. -/
structure Signer where
  pubKey : Option PubKey
  address : Bytes
  deriving DecidableEq

/-- `types.SignedHeader`, without its verification hooks. -/
structure SignedHeader where
  header : Header
  signature : Signature
  signer : Signer
  deriving DecidableEq

structure Metadata where
  chainID : String
  height : ℕ
  time : ℕ
  lastDataHash : Hash
  deriving DecidableEq

/-- `types.Data`; the embedded metadata pointer may be nil. -/
structure Data where
  metadata : Option Metadata
  txs : List Tx
  deriving DecidableEq

structure State where
  version : Version
  chainID : String
  initialHeight : ℕ
  lastBlockHeight : ℕ
  lastBlockTime : Time
  lastHeaderHash : Hash
  daHeight : ℕ
  appHash : Hash
  deriving DecidableEq

def State.zero : State := ⟨⟨0, 0⟩, "", 0, 0, zeroTime, [], 0, []⟩

/-! ## Hashes -/

/-- The marshalling functions whose results are hashed or signed, and sha256. -/
structure Codec where
  /-- `Header.MarshalBinary`. -/
  headerBytes : Header → Bytes
  /-- `Header.MarshalBinaryLegacy`. -/
  headerBytesLegacy : Header → Bytes
  /-- `Data.MarshalBinary`. -/
  dataBytes : Data → Bytes
  sha256 : Bytes → Hash

namespace Codec

def headerHash (c : Codec) (h : Header) : Hash :=
  if LegacyHeaderFields.isZero h.legacy then c.sha256 (c.headerBytes h)
  else c.sha256 (c.headerBytesLegacy h)

def leafHash (c : Codec) (leaf : Bytes) : Hash := c.sha256 (0 :: leaf)

def dataHash (c : Codec) (d : Data) : Hash := c.leafHash (c.dataBytes d)

def daCommitment (c : Codec) (txs : List Tx) : Hash := c.leafHash (c.dataBytes ⟨none, txs⟩)

end Codec

def dataHashForEmptyTxs : Hash :=
  [110, 52, 11, 156, 255, 179, 122, 152, 156, 165, 68, 230, 187, 120, 10, 44, 120, 144, 29,
    63, 179, 55, 56, 118, 133, 17, 163, 6, 23, 175, 160, 29]

/-! ## One state after another -/

def State.nextState (c : Codec) (s : State) (header : Header) (stateRoot : Hash) : State where
  version := s.version
  chainID := s.chainID
  initialHeight := s.initialHeight
  lastBlockHeight := header.height
  lastBlockTime := timeOfUint64 header.time
  appHash := stateRoot
  lastHeaderHash := c.headerHash header
  daHeight := s.daHeight

inductive SequenceError
  | invalidChainID (got want : String)
  | invalidBlockHeight (got want : ℕ)
  | invalidBlockTime (got last : Time)
  | invalidLastHeaderHash (got want : Hash)
  | invalidLastAppHash (got want : Hash)
  deriving DecidableEq

/-- `State.AssertValidSequence`. The first header with another last hash is let through and counted
in the process-wide `lastHeaderHashErrCount`, here `mismatchSeen`, whose new value is returned too.
-/
def State.assertValidSequence (s : State) (mismatchSeen : Bool) (header : Header) :
    Except SequenceError Unit × Bool :=
  if header.chainID ≠ s.chainID then
    (.error (.invalidChainID header.chainID s.chainID), mismatchSeen)
  else if s.lastHeaderHash.length = 0 then (.ok (), mismatchSeen)
  else if header.height ≠ s.lastBlockHeight + 1 then
    (.error (.invalidBlockHeight header.height (s.lastBlockHeight + 1)), mismatchSeen)
  else if timeOfUint64 header.time < s.lastBlockTime then
    (.error (.invalidBlockTime (timeOfUint64 header.time) s.lastBlockTime), mismatchSeen)
  else if header.lastHeaderHash ≠ s.lastHeaderHash ∧ mismatchSeen then
    (.error (.invalidLastHeaderHash header.lastHeaderHash s.lastHeaderHash), mismatchSeen)
  else
    let mismatchSeen := mismatchSeen || decide (header.lastHeaderHash ≠ s.lastHeaderHash)
    if header.appHash ≠ s.appHash then
      (.error (.invalidLastAppHash header.appHash s.appHash), mismatchSeen)
    else (.ok (), mismatchSeen)

theorem State.assertValidSequence_counted (s : State) (header : Header) :
    (s.assertValidSequence true header).2 = true := by
  unfold State.assertValidSequence
  split_ifs <;> rfl

theorem State.assertValidSequence_ok {s : State} {mismatchSeen : Bool} {header : Header}
    (h : (s.assertValidSequence mismatchSeen header).1 = .ok ()) (hblock : s.lastHeaderHash ≠ []) :
    header.height = s.lastBlockHeight + 1 ∧ s.lastBlockTime ≤ timeOfUint64 header.time ∧
      header.appHash = s.appHash ∧
      (header.lastHeaderHash ≠ s.lastHeaderHash →
        mismatchSeen = false ∧ (s.assertValidSequence mismatchSeen header).2 = true) := by
  have hlength : s.lastHeaderHash.length ≠ 0 := fun hzero =>
    hblock (List.length_eq_zero_iff.mp hzero)
  unfold State.assertValidSequence at h ⊢
  split_ifs at h ⊢ with hchain hheight htime hhash happ
  refine ⟨not_not.mp hheight, Int.not_lt.mp htime, not_not.mp happ, fun hne => ?_⟩
  exact ⟨Bool.eq_false_iff.mpr (fun hseen => hhash ⟨hne, hseen⟩), by simp [hne]⟩

end ChainSdk

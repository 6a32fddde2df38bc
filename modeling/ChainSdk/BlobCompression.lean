/-
Compression of blobs: `internal/compress/compress.go` of the cosmoswasm SDK.

Whether a blob has been compressed is told from its first two bytes only.
-/
import ChainSdk.Types

namespace ChainSdk

/-- `Gzip` and `Gunzip`. -/
structure GzipCodec where
  gzip : Bytes → Except String Bytes
  gunzip : Bytes → Except String Bytes

def isGzipped : Bytes → Bool
  | a :: b :: _ => a = 0x1f ∧ b = 0x8b
  | _ => false

namespace GzipCodec

variable (g : GzipCodec)

def ifBeneficial (data : Bytes) : Bytes × Bool :=
  match g.gzip data with
  | .error _ => (data, false)
  | .ok compressed => if data.length ≤ compressed.length then (data, false) else (compressed, true)

def maybeDecompress (data : Bytes) : Except String Bytes :=
  if isGzipped data then g.gunzip data else .ok data

/-- The result is never longer than the data, and decompresses to it if and only if the data was
shortened, or does not begin like a gzip stream, or is a stream of itself. -/
theorem compression_round_trip_iff (hround : ∀ d compressed, g.gzip d = .ok compressed →
      g.gunzip compressed = .ok d ∧ isGzipped compressed) (d : Bytes) :
    (g.ifBeneficial d).1.length ≤ d.length ∧
      (g.maybeDecompress (g.ifBeneficial d).1 = .ok d ↔
        (∃ compressed, g.gzip d = .ok compressed ∧ compressed.length < d.length) ∨
          isGzipped d = false ∨ g.gunzip d = .ok d) := by
  have hkept : g.maybeDecompress d = .ok d ↔ isGzipped d = false ∨ g.gunzip d = .ok d := by
    unfold maybeDecompress
    split_ifs with hmagic <;> simp [hmagic]
  unfold ifBeneficial
  rcases hgzip : g.gzip d with e | compressed
  · simp [hkept]
  dsimp only
  split_ifs with hle
  · simp [hkept, Nat.not_lt.mpr hle]
  · obtain ⟨hback, hmagic⟩ := hround d compressed hgzip
    refine ⟨by dsimp only; omega, ?_⟩
    simp [maybeDecompress, hmagic, hback, Nat.lt_of_not_le hle]

/-- A codec that writes the data as it is after the magic bytes and the method 8. -/
def storing : GzipCodec where
  gzip d := .ok (0x1f :: 0x8b :: 8 :: d)
  gunzip
    | 0x1f :: 0x8b :: 8 :: d => .ok d
    | _ => .error "gzip: invalid header"

theorem compression_round_trip_of_storing :
    storing.maybeDecompress (storing.ifBeneficial [1, 2, 3]).1 = .ok [1, 2, 3] :=
  (storing.compression_round_trip_iff (by rintro d _ ⟨⟩; exact ⟨rfl, rfl⟩) [1, 2, 3]).2.mpr
    (.inr (.inl rfl))

/-- Data that begins with the magic bytes and does not shrink is kept as it is, and then taken for
compressed and refused. -/
theorem raw_data_decompressed :
    storing.ifBeneficial [0x1f, 0x8b, 5] = ([0x1f, 0x8b, 5], false) ∧
      storing.maybeDecompress [0x1f, 0x8b, 5] = .error "gzip: invalid header" := by
  decide

end GzipCodec

end ChainSdk

/-
The protobuf wire format as `proto.Marshal` writes it, as far as the length of a message depends on
it.

A message is the concatenation of its fields.
-/
import Mathlib.Algebra.GroupWithZero.Nat
import Mathlib.Data.List.Basic
import Mathlib.Data.Nat.Log

namespace ProtoWire

open List

/-! ## Varints -/

/-- Seven bits a byte, lowest first, with the high bit on all bytes but the last. -/
def varintBytes : ℕ → ℕ → List UInt8
  | 0, v => [UInt8.ofNat v]
  | more + 1, v =>
    if v < 128 then [UInt8.ofNat v]
    else UInt8.ofNat (v % 128 + 128) :: varintBytes more (v / 128)

def varint (v : ℕ) : List UInt8 := varintBytes 9 v

def sizeVarint (v : ℕ) : ℕ := min 10 (Nat.log 128 v + 1)

theorem length_varintBytes (more v : ℕ) :
    (varintBytes more v).length = min (more + 1) (Nat.log 128 v + 1) := by
  induction more generalizing v with
  | zero => simp [varintBytes]
  | succ more ih =>
    unfold varintBytes
    split_ifs with hsmall
    · rw [Nat.log_of_lt hsmall]
      simp
    · -- one byte more for seven bits less
      rw [Nat.log_of_one_lt_of_le (by omega) (Nat.le_of_not_lt hsmall), length_cons, ih]
      omega

@[simp] theorem length_varint (v : ℕ) : (varint v).length = sizeVarint v :=
  length_varintBytes 9 v

theorem sizeVarint_of_lt {v : ℕ} (hsmall : v < 128) : sizeVarint v = 1 := by
  rw [sizeVarint, Nat.log_of_lt hsmall]
  rfl

/-! ## Fields -/

def tag (number wireType : ℕ) : List UInt8 := varint (number * 8 + wireType)

/-- A length-delimited field that is there. -/
def record (number : ℕ) (bz : List UInt8) : List UInt8 := tag number 2 ++ varint bz.length ++ bz

/-- A `bytes` or `string` field. -/
def bytes (number : ℕ) (bz : List UInt8) : List UInt8 := if bz = [] then [] else record number bz

def uint64 (number v : ℕ) : List UInt8 := if v = 0 then [] else tag number 0 ++ varint v

/-- The lengths of these fields, with a tag of one byte. -/
def sizeRecord (n : ℕ) : ℕ := 1 + sizeVarint n + n

def sizeBytes (n : ℕ) : ℕ := if n = 0 then 0 else sizeRecord n

def sizeUint64 (v : ℕ) : ℕ := if v = 0 then 0 else 1 + sizeVarint v

variable {number : ℕ}

section

variable (hnumber : number < 16)
include hnumber

theorem length_tag {wireType : ℕ} (htype : wireType < 8) :
    (tag number wireType).length = 1 := by
  rw [tag, length_varint, sizeVarint_of_lt (by omega)]

theorem length_record (bz : List UInt8) :
    (record number bz).length = sizeRecord bz.length := by
  rw [record, length_append, length_append, length_tag hnumber (by omega),
    length_varint, sizeRecord]

theorem length_bytes (bz : List UInt8) :
    (bytes number bz).length = sizeBytes bz.length := by
  unfold bytes sizeBytes
  simp only [length_eq_zero_iff]
  split_ifs
  · rfl
  · exact length_record hnumber bz

theorem length_uint64 (v : ℕ) :
    (uint64 number v).length = sizeUint64 v := by
  unfold uint64 sizeUint64
  split_ifs
  · rfl
  · rw [length_append, length_tag hnumber (by omega), length_varint]

theorem length_records (elements : List (List UInt8)) :
    (elements.flatMap (record number)).length =
      (elements.map (fun bz => sizeRecord bz.length)).sum := by
  rw [length_flatMap]
  simp only [length_record hnumber]

end

theorem lt_sizeRecord (n : ℕ) : n < sizeRecord n := by
  unfold sizeRecord
  omega

end ProtoWire

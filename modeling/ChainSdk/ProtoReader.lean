/-
The protobuf wire format as `protowire` and `proto.Unmarshal` read it.

A message is cut into fields first, each with its number, its wire type and the bytes of its value;
what a message type makes of them comes after.
-/
import ChainSdk.ProtoWire
import Mathlib.Algebra.Group.Int.Defs
import Mathlib.Data.Int.DivMod
import Mathlib.Data.List.Flatten

namespace ProtoWire

open List Option

/-! ## Reading values -/

/-- The varint at the start of a byte string and what follows it. -/
def consumeVarintBytes : ℕ → List UInt8 → Option (ℕ × List UInt8)
  | _, [] => none
  | 0, b :: rest => if b.toNat < 2 then some (b.toNat, rest) else none
  | more + 1, b :: rest =>
    if b.toNat < 128 then some (b.toNat, rest)
    else (consumeVarintBytes more rest).map (fun p => (b.toNat - 128 + 128 * p.1, p.2))

def consumeVarint (bz : List UInt8) : Option (ℕ × List UInt8) := consumeVarintBytes 9 bz

def consumeBytes (bz : List UInt8) : Option (List UInt8 × List UInt8) :=
  (consumeVarint bz).bind (fun p =>
    if p.2.length < p.1 then none else some (p.2.take p.1, p.2.drop p.1))

/-- `protowire.ConsumeTag`: a number and a wire type. Numbers start at 1 and fit an `int32`. -/
def consumeTag (bz : List UInt8) : Option (ℕ × ℕ × List UInt8) :=
  (consumeVarint bz).bind (fun p =>
    if p.1 / 8 < 1 ∨ 2 ^ 31 ≤ p.1 / 8 then none else some (p.1 / 8, p.1 % 8, p.2))

/-- What follows a value of a wire type that is not a group. -/
def skipScalar (wireType : ℕ) (bz : List UInt8) : Option (List UInt8) :=
  match wireType with
  | 0 => (consumeVarint bz).map Prod.snd
  | 1 => if bz.length < 8 then none else some (bz.drop 8)
  | 2 => (consumeBytes bz).map Prod.snd
  | 5 => if bz.length < 4 then none else some (bz.drop 4)
  | _ => none

def recursionLimit : ℕ := 10000

/-- What follows the groups whose numbers are open, the innermost first. -/
def skipGroups : ℕ → List ℕ → List UInt8 → Option (List UInt8)
  | _, [], bz => some bz
  | 0, _ :: _, _ => none
  | fuel + 1, number :: outer, bz =>
    match consumeTag bz with
    | none => none
    | some (number', wireType, rest) =>
      -- 4 closes a group, and it has to be the innermost one
      if wireType = 4 then
        if number' = number then skipGroups fuel outer rest else none
      else if wireType = 3 then
        if recursionLimit < outer.length + 1 then none
        else skipGroups fuel (number' :: number :: outer) rest
      else (skipScalar wireType rest).bind (skipGroups fuel (number :: outer))

/-- What follows a value, `protowire.ConsumeFieldValue`. -/
def skipValue (number wireType : ℕ) (bz : List UInt8) : Option (List UInt8) :=
  if wireType = 3 then skipGroups (bz.length + 1) [number] bz else skipScalar wireType bz

/-! ## Fields -/

/-- A field of a message; `value` is everything after the tag. -/
structure Field where
  number : ℕ
  wireType : ℕ
  value : List UInt8
  deriving DecidableEq

def maxValidNumber : ℕ := 2 ^ 29 - 1

/-- The field at the start of a message and what follows it. -/
def consumeField (bz : List UInt8) : Option (Field × List UInt8) :=
  (consumeTag bz).bind (fun p =>
    if maxValidNumber < p.1 then none
    else (skipValue p.1 p.2.1 p.2.2).map (fun rest =>
      (⟨p.1, p.2.1, p.2.2.take (p.2.2.length - rest.length)⟩, rest)))

/-- The fields of a message, of which there are `fuel` at most. -/
def parseFields : ℕ → List UInt8 → Option (List Field)
  | _, [] => some []
  | 0, _ :: _ => none
  | fuel + 1, b :: bz =>
    match consumeField (b :: bz) with
    | none => none
    | some (f, rest) => (parseFields fuel rest).map (f :: ·)

def parse (bz : List UInt8) : Option (List Field) := parseFields bz.length bz

def Field.encode (f : Field) : List UInt8 := tag f.number f.wireType ++ f.value

/-- The fields of a message as they are written. -/
def encode (fs : List Field) : List UInt8 := fs.flatMap Field.encode

def varintField (number v : ℕ) : Field := ⟨number, 0, varint v⟩

def recordField (number : ℕ) (bz : List UInt8) : Field := ⟨number, 2, varint bz.length ++ bz⟩

/-- A `uint64` field is left out if it is zero. -/
def uint64Field (number v : ℕ) : List Field := if v = 0 then [] else [varintField number v]

/-- A `bytes` field is left out if it is empty. -/
def bytesField (number : ℕ) (bz : List UInt8) : List Field :=
  if bz = [] then [] else [recordField number bz]

def utf8 (s : String) : List UInt8 := s.toUTF8.data.toList

def stringField (number : ℕ) (s : String) : List Field := bytesField number (utf8 s)

def intField (number : ℕ) (v : ℤ) : List Field := uint64Field number (v % 2 ^ 64).toNat

/-- A message inside a message is written when it is there, also if it is empty. -/
def messageField (number : ℕ) (message : Option (List UInt8)) : List Field :=
  (message.map (recordField number)).toList

/-- An `optional` number is written when it is there, also if it is zero. -/
def optionalField (number : ℕ) (v : Option ℕ) : List Field := (v.map (varintField number)).toList

/-! ## What a message type reads -/

def Field.uint64Value (f : Field) : ℕ := ((consumeVarint f.value).map Prod.fst).getD 0

def Field.bytesValue (f : Field) : List UInt8 := ((consumeBytes f.value).map Prod.fst).getD []

def decodeUtf8 (bz : List UInt8) : Option String := String.fromUTF8? ⟨bz.toArray⟩

def select (number wireType : ℕ) (fs : List Field) : List Field :=
  fs.filter (fun f => f.number = number ∧ f.wireType = wireType)

def optionalAt (number : ℕ) (fs : List Field) : Option ℕ :=
  (select number 0 fs).getLast?.map Field.uint64Value

def uint64At (number : ℕ) (fs : List Field) : ℕ := (optionalAt number fs).getD 0

def int64At (number : ℕ) (fs : List Field) : ℤ := Int.bmod (uint64At number fs) (2 ^ 64)

def int32At (number : ℕ) (fs : List Field) : ℤ := Int.bmod (uint64At number fs) (2 ^ 32)

def bytesAt (number : ℕ) (fs : List Field) : List UInt8 :=
  ((select number 2 fs).getLast?.map Field.bytesValue).getD []

def repeatedAt (number : ℕ) (fs : List Field) : List (List UInt8) :=
  (select number 2 fs).map Field.bytesValue

def stringAt (number : ℕ) (fs : List Field) : Option String :=
  ((repeatedAt number fs).mapM decodeUtf8).map (fun l => l.getLast?.getD "")

def messageAt (number : ℕ) (fs : List Field) : Option (Option (List Field)) :=
  if repeatedAt number fs = [] then some none
  else ((repeatedAt number fs).mapM parse).map (fun l => some l.flatten)

/-- A message inside a message, read by its own type. -/
def submessageAt {M : Type} (number : ℕ) (ofFields : List Field → Option M) (fs : List Field) :
    Option (Option M) :=
  (messageAt number fs).bind (fun message => message.mapM ofFields)

def unknownFields (known : List (ℕ × ℕ)) (fs : List Field) : List Field :=
  fs.filter (fun f => (f.number, f.wireType) ∉ known)

/-! ## Values that were written -/

theorem toNat_byte {n : ℕ} (hn : n < 256) : (UInt8.ofNat n).toNat = n :=
  UInt8.toNat_ofNat_of_lt' hn

variable {M : Type} {ofFields : List Field → Option M} {f : Field} {v wireType : ℕ} (number : ℕ)
  {bz : List UInt8} (known : List (ℕ × ℕ)) {gs fs : List Field}

theorem consumeVarintBytes_varintBytes {more : ℕ} (hv : v < 2 * 128 ^ more) (rest : List UInt8) :
    consumeVarintBytes more (varintBytes more v ++ rest) = some (v, rest) := by
  induction more generalizing v with
  | zero =>
    have hbyte := toNat_byte (show v < 256 by omega)
    simp only [varintBytes, cons_append, nil_append, consumeVarintBytes, hbyte]
    rw [if_pos (by omega)]
  | succ more ih =>
    unfold varintBytes
    split_ifs with hsmall
    · have hbyte := toNat_byte (show v < 256 by omega)
      simp only [cons_append, nil_append, consumeVarintBytes, hbyte]
      rw [if_pos hsmall]
    -- the high bit is taken off the first byte and the rest is a varint of seven bits less
    have hbyte := toNat_byte (show v % 128 + 128 < 256 by omega)
    have hrest : v / 128 < 2 * 128 ^ more := by
      apply Nat.div_lt_of_lt_mul
      omega
    simp only [cons_append, consumeVarintBytes]
    rw [if_neg (by omega), ih hrest, map_some]
    congr 2
    omega

theorem consumeVarint_varint (hv : v < 2 ^ 64) (rest : List UInt8) :
    consumeVarint (varint v ++ rest) = some (v, rest) :=
  consumeVarintBytes_varintBytes (by omega) rest

theorem consumeBytes_record (hbz : bz.length < 2 ^ 64) (rest : List UInt8) :
    consumeBytes (varint bz.length ++ bz ++ rest) = some (bz, rest) := by
  unfold consumeBytes
  rw [append_assoc, consumeVarint_varint hbz, bind_some]
  simp

theorem consumeTag_tag {number : ℕ} (hpos : 1 ≤ number) (hnumber : number < 2 ^ 31)
    (htype : wireType < 8) (rest : List UInt8) :
    consumeTag (tag number wireType ++ rest) = some (number, wireType, rest) := by
  have hdiv : (number * 8 + wireType) / 8 = number := by omega
  have hmod : (number * 8 + wireType) % 8 = wireType := by omega
  unfold consumeTag tag
  rw [consumeVarint_varint (by omega), bind_some, hdiv, hmod, if_neg (by omega)]

theorem varint_ne_nil (v : ℕ) : varint v ≠ [] := by
  intro hnil
  have hlength := length_varint v
  rw [hnil, length_nil, sizeVarint] at hlength
  omega

/-! ## Whole fields -/

/-- A field that can stand in a message: its number is a valid one, and its value ends where the
next field begins. -/
structure Field.Whole (f : Field) : Prop where
  number_pos : 1 ≤ f.number
  number_le : f.number ≤ maxValidNumber
  type_lt : f.wireType < 8
  value : ∀ rest, skipValue f.number f.wireType (f.value ++ rest) = some rest

def Whole (fs : List Field) : Prop := ∀ f ∈ fs, f.Whole

theorem Field.Whole.consumeField (hf : f.Whole) (rest : List UInt8) :
    consumeField (f.encode ++ rest) = some (f, rest) := by
  have hle : f.number ≤ 2 ^ 29 - 1 := hf.number_le
  unfold ProtoWire.consumeField Field.encode
  rw [append_assoc, consumeTag_tag hf.number_pos (by omega) hf.type_lt, bind_some]
  rw [if_neg (Nat.not_lt.mpr hf.number_le), hf.value]
  simp

theorem Field.encode_ne_nil (f : Field) : f.encode ≠ [] := by
  intro hnil
  exact varint_ne_nil _ (append_eq_nil_iff.mp hnil).1

theorem parseFields_encode (hfs : Whole fs) {fuel : ℕ}
    (hfuel : (encode fs).length ≤ fuel) : parseFields fuel (encode fs) = some fs := by
  induction fs generalizing fuel with
  | nil => cases fuel <;> rfl
  | cons f fs ih =>
    have hf := hfs f mem_cons_self
    have hsplit : encode (f :: fs) = f.encode ++ encode fs := flatMap_cons
    rcases hbytes : f.encode with _ | ⟨b, bz⟩
    · exact absurd hbytes f.encode_ne_nil
    have hfield := hf.consumeField (encode fs)
    rw [hsplit, hbytes] at hfuel ⊢
    rw [hbytes] at hfield
    rcases fuel with _ | fuel
    · simp at hfuel
    have hrest : (encode fs).length ≤ fuel := by
      simp only [length_append, length_cons] at hfuel
      omega
    rw [cons_append] at hfield ⊢
    rw [parseFields, hfield]
    dsimp only
    rw [ih (fun g hg => hfs g (mem_cons_of_mem _ hg)) hrest, map_some]

theorem parse_encode (hfs : Whole fs) : parse (encode fs) = some fs :=
  parseFields_encode hfs (Nat.le_refl _)

theorem encode_append (fs gs : List Field) : encode (fs ++ gs) = encode fs ++ encode gs :=
  flatMap_append

theorem encode_uint64Field (v : ℕ) : encode (uint64Field number v) = uint64 number v := by
  unfold uint64Field uint64
  split_ifs <;> simp [encode, Field.encode, varintField]

theorem encode_bytesField (bz : List UInt8) :
    encode (bytesField number bz) = bytes number bz := by
  unfold bytesField bytes
  split_ifs <;> simp [encode, Field.encode, recordField, record]

theorem encode_records (elements : List (List UInt8)) :
    encode (elements.map (recordField number)) = elements.flatMap (record number) := by
  unfold encode
  rw [flatMap_map]
  apply flatMap_congr
  intro bz _
  rw [Field.encode, recordField, record, append_assoc]

theorem encode_messageField (message : Option (List UInt8)) :
    encode (messageField number message) = message.toList.flatMap (record number) := by
  cases message <;> simp [encode, messageField, Field.encode, recordField, record]

/-! ## Messages that fit

An encoding is one byte string, whose length is an `int`. So are then all its parts, and of a
message that fits only the numbers have to be looked at.
-/

def Fits (fs : List Field) : Prop := (encode fs).length < 2 ^ 63

theorem Fits.of_sublist (hfits : Fits fs) (hsub : gs.Sublist fs) :
    Fits gs := by
  have hle : (encode gs).length ≤ (encode fs).length := (hsub.flatMap _).length_le
  unfold Fits at hfits ⊢
  omega

theorem Fits.value_lt (hfits : Fits fs) (hf : f ∈ fs) :
    f.value.length < 2 ^ 63 := by
  have hone := hfits.of_sublist (singleton_sublist.mpr hf)
  rw [Fits, encode, flatMap_singleton, Field.encode, length_append] at hone
  omega

theorem Fits.record_lt (hfits : Fits fs) {number : ℕ}
    (hf : recordField number bz ∈ fs) : bz.length < 2 ^ 64 := by
  have hvalue := hfits.value_lt hf
  rw [recordField, length_append] at hvalue
  omega

def WholeIfFits (fs : List Field) : Prop := Fits fs → Whole fs

theorem wholeIfFits_nil : WholeIfFits [] := fun _ _ hf => absurd hf not_mem_nil

theorem WholeIfFits.append (hfs : WholeIfFits fs) (hgs : WholeIfFits gs) :
    WholeIfFits (fs ++ gs) := by
  intro hfits f hf
  rcases mem_append.mp hf with h | h
  · exact hfs (hfits.of_sublist (sublist_append_left fs gs)) f h
  · exact hgs (hfits.of_sublist (sublist_append_right fs gs)) f h

/-- A number a message type may give to a field. -/
def ValidNumber (number : ℕ) : Prop := 1 ≤ number ∧ number ≤ maxValidNumber

instance (number : ℕ) : Decidable (ValidNumber number) := inferInstanceAs (Decidable (_ ∧ _))

section Fields

variable {number : ℕ}

theorem whole_varintField (hnumber : ValidNumber number) (hv : v < 2 ^ 64) :
    (varintField number v).Whole where
  number_pos := hnumber.1
  number_le := hnumber.2
  type_lt := show 0 < 8 by omega
  value rest := by
    change (consumeVarint (varint v ++ rest)).map Prod.snd = some rest
    rw [consumeVarint_varint hv, map_some]

theorem whole_recordField (hnumber : ValidNumber number)
    (hbz : bz.length < 2 ^ 64) : (recordField number bz).Whole where
  number_pos := hnumber.1
  number_le := hnumber.2
  type_lt := show 2 < 8 by omega
  value rest := by
    change (consumeBytes (varint bz.length ++ bz ++ rest)).map Prod.snd = some rest
    rw [consumeBytes_record hbz, map_some]

theorem wholeIfFits_records (hnumber : ValidNumber number) (elements : List (List UInt8)) :
    WholeIfFits (elements.map (recordField number)) := by
  intro hfits f hf
  obtain ⟨bz, hbz, rfl⟩ := mem_map.mp hf
  exact whole_recordField hnumber (hfits.record_lt hf)

theorem bytesField_eq (number : ℕ) (bz : List UInt8) :
    bytesField number bz = (if bz = [] then [] else [bz]).map (recordField number) := by
  unfold bytesField
  split_ifs <;> rfl

theorem messageField_eq (number : ℕ) (message : Option (List UInt8)) :
    messageField number message = message.toList.map (recordField number) := by
  cases message <;> rfl

theorem wholeIfFits_bytesField (hnumber : ValidNumber number) (bz : List UInt8) :
    WholeIfFits (bytesField number bz) := by
  rw [bytesField_eq]
  exact wholeIfFits_records hnumber _

theorem wholeIfFits_messageField (hnumber : ValidNumber number) (message : Option (List UInt8)) :
    WholeIfFits (messageField number message) := by
  rw [messageField_eq]
  exact wholeIfFits_records hnumber _

theorem wholeIfFits_optionalField (hnumber : ValidNumber number) {v : Option ℕ}
    (hv : ∀ n ∈ v, n < 2 ^ 64) : WholeIfFits (optionalField number v) := by
  intro _ f hf
  obtain ⟨n, hn, rfl⟩ := map_eq_some_iff.mp (mem_toList.mp hf)
  exact whole_varintField hnumber (hv n hn)

theorem uint64Field_eq (number v : ℕ) :
    uint64Field number v = optionalField number (if v = 0 then none else some v) := by
  unfold uint64Field
  split_ifs <;> rfl

theorem wholeIfFits_uint64Field (hnumber : ValidNumber number) (hv : v < 2 ^ 64) :
    WholeIfFits (uint64Field number v) := by
  rw [uint64Field_eq]
  apply wholeIfFits_optionalField hnumber
  intro n hn
  split_ifs at hn
  · simp at hn
  · rw [← mem_some.mp hn]
    exact hv

/-! ## The fields of one kind

In a message every part holds fields of one number and one wire type, so that a part is selected
as a whole or not at all.
-/

def OfKind (number wireType : ℕ) (fs : List Field) : Prop :=
  ∀ f ∈ fs, f.number = number ∧ f.wireType = wireType

theorem ofKind_records (number : ℕ) (elements : List (List UInt8)) :
    OfKind number 2 (elements.map (recordField number)) := by
  simp [OfKind, recordField]

theorem ofKind_bytesField (number : ℕ) (bz : List UInt8) :
    OfKind number 2 (bytesField number bz) := by
  rw [bytesField_eq]
  exact ofKind_records number _

theorem ofKind_messageField (number : ℕ) (message : Option (List UInt8)) :
    OfKind number 2 (messageField number message) := by
  rw [messageField_eq]
  exact ofKind_records number _

theorem ofKind_optionalField (number : ℕ) (v : Option ℕ) :
    OfKind number 0 (optionalField number v) := by
  simp [OfKind, optionalField, varintField]

theorem ofKind_uint64Field (number v : ℕ) : OfKind number 0 (uint64Field number v) := by
  rw [uint64Field_eq]
  exact ofKind_optionalField number _

theorem OfKind.select (hfs : OfKind number wireType fs) (number' wireType' : ℕ) :
    select number' wireType' fs = if number = number' ∧ wireType = wireType' then fs else [] := by
  split_ifs with hkind
  · apply filter_eq_self.mpr
    intro f hf
    simp [hfs f hf, hkind]
  · apply filter_eq_nil_iff.mpr
    intro f hf
    simpa [hfs f hf] using hkind

theorem OfKind.unknownFields (hfs : OfKind number wireType fs) (known : List (ℕ × ℕ)) :
    unknownFields known fs = if (number, wireType) ∈ known then [] else fs := by
  split_ifs with hkind
  · apply filter_eq_nil_iff.mpr
    intro f hf
    simpa [hfs f hf] using hkind
  · apply filter_eq_self.mpr
    intro f hf
    simpa [hfs f hf] using hkind

@[simp] theorem select_append (number wireType : ℕ) (fs gs : List Field) :
    select number wireType (fs ++ gs) = select number wireType fs ++ select number wireType gs :=
  filter_append _ _

@[simp] theorem unknownFields_append (fs gs : List Field) :
    unknownFields known (fs ++ gs) = unknownFields known fs ++ unknownFields known gs :=
  filter_append _ _

@[simp] theorem select_uint64Field (number number' wireType v : ℕ) :
    select number' wireType (uint64Field number v) =
      if number = number' ∧ 0 = wireType then uint64Field number v else [] :=
  (ofKind_uint64Field number v).select number' wireType

@[simp] theorem select_intField (number number' wireType : ℕ) (v : ℤ) :
    select number' wireType (intField number v) =
      if number = number' ∧ 0 = wireType then intField number v else [] :=
  select_uint64Field number number' wireType _

@[simp] theorem select_optionalField (number number' wireType : ℕ) (v : Option ℕ) :
    select number' wireType (optionalField number v) =
      if number = number' ∧ 0 = wireType then optionalField number v else [] :=
  (ofKind_optionalField number v).select number' wireType

@[simp] theorem select_bytesField (number number' wireType : ℕ) (bz : List UInt8) :
    select number' wireType (bytesField number bz) =
      if number = number' ∧ 2 = wireType then bytesField number bz else [] :=
  (ofKind_bytesField number bz).select number' wireType

@[simp] theorem select_stringField (number number' wireType : ℕ) (s : String) :
    select number' wireType (stringField number s) =
      if number = number' ∧ 2 = wireType then stringField number s else [] :=
  select_bytesField number number' wireType _

@[simp] theorem select_messageField (number number' wireType : ℕ) (message : Option (List UInt8)) :
    select number' wireType (messageField number message) =
      if number = number' ∧ 2 = wireType then messageField number message else [] :=
  (ofKind_messageField number message).select number' wireType

@[simp] theorem select_records (number number' wireType : ℕ) (elements : List (List UInt8)) :
    select number' wireType (elements.map (recordField number)) =
      if number = number' ∧ 2 = wireType then elements.map (recordField number) else [] :=
  (ofKind_records number elements).select number' wireType

@[simp] theorem unknownFields_uint64Field (number v : ℕ) :
    unknownFields known (uint64Field number v) =
      if (number, 0) ∈ known then [] else uint64Field number v :=
  (ofKind_uint64Field number v).unknownFields known

@[simp] theorem unknownFields_optionalField (number : ℕ) (v : Option ℕ) :
    unknownFields known (optionalField number v) =
      if (number, 0) ∈ known then [] else optionalField number v :=
  (ofKind_optionalField number v).unknownFields known

@[simp] theorem unknownFields_bytesField (number : ℕ) (bz : List UInt8) :
    unknownFields known (bytesField number bz) =
      if (number, 2) ∈ known then [] else bytesField number bz :=
  (ofKind_bytesField number bz).unknownFields known

@[simp] theorem unknownFields_stringField (number : ℕ) (s : String) :
    unknownFields known (stringField number s) =
      if (number, 2) ∈ known then [] else stringField number s :=
  unknownFields_bytesField known number _

@[simp] theorem unknownFields_messageField (number : ℕ) (message : Option (List UInt8)) :
    unknownFields known (messageField number message) =
      if (number, 2) ∈ known then [] else messageField number message :=
  (ofKind_messageField number message).unknownFields known

theorem select_of_unknown {known : List (ℕ × ℕ)}
    (hunknown : unknownFields known fs = fs) {number : ℕ}
    (hknown : (number, wireType) ∈ known) : select number wireType fs = [] := by
  apply filter_eq_nil_iff.mpr
  intro f hf hkind
  have hnot := filter_eq_self.mp hunknown f hf
  simp only [decide_eq_true_eq] at hkind hnot
  rw [hkind.1, hkind.2] at hnot
  exact hnot hknown

theorem Fits.select (hfits : Fits fs) (number wireType : ℕ) :
    Fits (select number wireType fs) :=
  hfits.of_sublist filter_sublist

/-! ## What was written is read -/

theorem optionalAt_of_select {v : Option ℕ}
    (hselect : select number 0 fs = optionalField number v) (hv : ∀ n ∈ v, n < 2 ^ 64) :
    optionalAt number fs = v := by
  unfold optionalAt
  rw [hselect]
  cases v with
  | none => rfl
  | some n =>
    have hvalue := consumeVarint_varint (hv n rfl) []
    rw [append_nil] at hvalue
    simp [optionalField, Field.uint64Value, varintField, hvalue]

theorem uint64At_of_select (hselect : select number 0 fs = uint64Field number v) (hv : v < 2 ^ 64) :
    uint64At number fs = v := by
  rw [uint64Field_eq] at hselect
  unfold uint64At
  rw [optionalAt_of_select hselect]
  · split_ifs with hzero
    · exact hzero.symm
    · rfl
  · intro n hn
    split_ifs at hn
    · simp at hn
    · rw [← mem_some.mp hn]
      exact hv

theorem int64At_of_select {v : ℤ}
    (hselect : select number 0 fs = intField number v) (hlow : -2 ^ 63 ≤ v) (hhigh : v < 2 ^ 63) :
    int64At number fs = v := by
  unfold int64At
  rw [uint64At_of_select hselect (by omega), Int.bmod_def]
  omega

theorem int32At_of_select {v : ℤ}
    (hselect : select number 0 fs = intField number v) (hlow : -2 ^ 31 ≤ v) (hhigh : v < 2 ^ 31) :
    int32At number fs = v := by
  unfold int32At
  rw [uint64At_of_select hselect (by omega), Int.bmod_def]
  omega

theorem repeatedAt_of_select (hfits : Fits fs) {elements : List (List UInt8)}
    (hselect : select number 2 fs = elements.map (recordField number)) :
    repeatedAt number fs = elements := by
  have hparts := hfits.select number 2
  rw [hselect] at hparts
  unfold repeatedAt
  rw [hselect, List.map_map]
  refine (List.map_congr_left fun bz hbz => ?_).trans (List.map_id _)
  have hvalue := consumeBytes_record (hparts.record_lt (List.mem_map_of_mem hbz)) []
  rw [List.append_nil] at hvalue
  simp [Field.bytesValue, recordField, hvalue]

theorem repeatedAt_bytes (hfits : Fits fs) (hselect : select number 2 fs = bytesField number bz) :
    repeatedAt number fs = if bz = [] then [] else [bz] := by
  apply repeatedAt_of_select hfits
  rw [hselect, bytesField_eq]

theorem bytesAt_eq (number : ℕ) (fs : List Field) :
    bytesAt number fs = (repeatedAt number fs).getLast?.getD [] := by
  rw [bytesAt, repeatedAt, List.getLast?_map]

theorem bytesAt_of_select (hfits : Fits fs)
    (hselect : select number 2 fs = bytesField number bz) : bytesAt number fs = bz := by
  rw [bytesAt_eq, repeatedAt_bytes hfits hselect]
  split_ifs with hnil
  · rw [hnil]
    rfl
  · rfl

theorem decodeUtf8_utf8 (s : String) : decodeUtf8 (utf8 s) = some s := by
  unfold decodeUtf8 utf8 String.fromUTF8?
  rw [String.toUTF8_eq_toByteArray, dif_pos s.isValidUTF8]
  rfl

theorem stringAt_of_select (hfits : Fits fs) {s : String}
    (hselect : select number 2 fs = stringField number s) : stringAt number fs = some s := by
  unfold stringAt
  rw [repeatedAt_bytes hfits hselect]
  split_ifs with hnil
  · -- the empty string is the default
    have hempty := decodeUtf8_utf8 s
    rw [hnil, ← show utf8 "" = [] from rfl, decodeUtf8_utf8] at hempty
    simpa using hempty
  · simp [decodeUtf8_utf8]

theorem Fits.message (hfits : Fits fs) {message : Option (List Field)}
    (hselect : ProtoWire.select number 2 fs = messageField number (message.map encode))
    {m : List Field} (hm : m ∈ message) : Fits m := by
  have hparts := hfits.select number 2
  rw [hselect, mem_def.mp hm] at hparts
  have hvalue := hparts.value_lt (mem_singleton_self (recordField number (encode m)))
  rw [recordField, length_append] at hvalue
  unfold Fits
  omega

theorem messageAt_of_select (hfits : Fits fs) {message : Option (List Field)}
    (hselect : select number 2 fs = messageField number (message.map encode))
    (hmessage : ∀ m ∈ message, WholeIfFits m) : messageAt number fs = some message := by
  have hrepeated : repeatedAt number fs = (message.map encode).toList := by
    apply repeatedAt_of_select hfits
    rw [hselect, messageField_eq]
  unfold messageAt
  rw [hrepeated]
  cases message with
  | none => rfl
  | some m =>
    have hwhole := hmessage m rfl (hfits.message hselect rfl)
    simp [parse_encode hwhole]

def ReadBack {M : Type} (fields : List Field) (ofFields : List Field → Option M) (m : M) : Prop :=
  Fits fields → Whole fields ∧ ofFields fields = some m

theorem ReadBack.unmarshal {fields : List Field}
    {m : M} (hread : ReadBack fields ofFields m) (hfits : Fits fields) :
    (parse (encode fields)).bind ofFields = some m := by
  obtain ⟨hwhole, hm⟩ := hread hfits
  rw [parse_encode hwhole, bind_some, hm]

theorem submessageAt_of_select {fields : M → List Field} (hfits : Fits fs) {message : Option M}
    (hselect : select number 2 fs = messageField number ((message.map fields).map encode))
    (hread : ∀ m ∈ message, ReadBack (fields m) ofFields m) :
    submessageAt number ofFields fs = some message := by
  have hmessage : messageAt number fs = some (message.map fields) := by
    apply messageAt_of_select hfits hselect
    intro gs hgs hfitsGs
    obtain ⟨m, hm, rfl⟩ := map_eq_some_iff.mp hgs
    exact (hread m hm hfitsGs).1
  unfold submessageAt
  rw [hmessage]
  cases message with
  | none => rfl
  | some m =>
    have hm := (hread m rfl (hfits.message hselect rfl)).2
    simp [hm]

end Fields

end ProtoWire

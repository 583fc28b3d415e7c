/-
Module: Riegeli.Spec.SimpleGrammar
Purpose: The grammar of a simple chunk's data: LEB128 numbers, the sizes
  section, and the plain and compressed layouts around it.
Trusted boundary: the codecs
Main exports: Leb128, Varint, Sizes, slicesOf, PlainGrammar,
  CompressedGrammar, SimpleGrammar
-/
import Riegeli.Core.SimpleChunk

namespace Riegeli

/-! ## Numbers -/

/-- The number a LEB128 string stands for: seven bits a byte, low bits first,
the high bit on every byte but the last. -/
inductive Leb128 : Bytes → Nat → Prop
  | last {byte : UInt8} : byte.toNat < 128 → Leb128 [byte] byte.toNat
  | more {byte : UInt8} {rest : Bytes} {value : Nat} : 128 ≤ byte.toNat → Leb128 rest value →
      Leb128 (byte :: rest) (byte.toNat % 128 + 128 * value)

/-- A varint: a LEB128 string of at most ten bytes whose number fits in 64
bits.  It need not be minimal. -/
structure Varint (bytes : Bytes) (value : Nat) : Prop where
  leb128 : Leb128 bytes value
  short : bytes.length ≤ 10
  fits : value ≤ u64Max

/-- A string of size varints with nothing between or after them. -/
inductive Sizes : Bytes → List Nat → Prop
  | nil : Sizes [] []
  | cons {part rest : Bytes} {size : Nat} {sizes : List Nat} : Varint part size →
      Sizes rest sizes → Sizes (part ++ rest) (size :: sizes)

/-- The consecutive slices of these sizes. -/
def slicesOf : List Nat → Bytes → List Bytes
  | [], _ => []
  | size :: rest, values => values.take size :: slicesOf rest (values.drop size)

/-! ## Layouts -/

/-- What the header claims of the sizes and of the values they cut up. -/
structure ClaimedSizes (numRecords decodedDataSize : Nat) (sizes : List Nat)
    (values : Bytes) : Prop where
  counted : sizes.length = numRecords
  total : sizes.sum = decodedDataSize
  filled : values.length = decodedDataSize

/-- The plain layout: the length of the sizes section, the section, the
values. -/
structure PlainGrammar (payload : Bytes) (numRecords decodedDataSize : Nat)
    (sizes : List Nat) (values : Bytes) : Prop where
  layout : ∃ sectionLen sizesData, Varint sectionLen sizesData.length ∧
    Sizes sizesData sizes ∧ payload = sectionLen ++ sizesData ++ values
  claimed : ClaimedSizes numRecords decodedDataSize sizes values

variable (ext : Externals)

/-- The compressed layout: the length of the sizes blob, the blob, the
length of the values, the compressed values.  The blob is the length of the
sizes section and the compressed section. -/
structure CompressedGrammar (compression : CompressionType) (payload : Bytes)
    (numRecords decodedDataSize : Nat) (sizes : List Nat) (values : Bytes) : Prop where
  layout : ∃ blobLen sectionLen compressedSizes sizesData valuesLen compressedValues,
    Varint blobLen (sectionLen ++ compressedSizes).length ∧
    Varint sectionLen sizesData.length ∧
    decompressData ext compressedSizes compression = .ok sizesData ∧ Sizes sizesData sizes ∧
    Varint valuesLen decodedDataSize ∧
    decompressData ext compressedValues compression = .ok values ∧
    payload = blobLen ++ (sectionLen ++ compressedSizes) ++ (valuesLen ++ compressedValues)
  claimed : ClaimedSizes numRecords decodedDataSize sizes values

/-- The data of a simple chunk: the byte of the compression type and the
layout that goes with it. -/
def SimpleGrammar (data : Bytes) (numRecords decodedDataSize : Nat) (sizes : List Nat)
    (values : Bytes) : Prop :=
  (∃ payload, data = 0 :: payload ∧
    PlainGrammar payload numRecords decodedDataSize sizes values) ∨
  ∃ compression payload, compression ≠ .none ∧
    data = CompressionType.toByte compression :: payload ∧
    CompressedGrammar ext compression payload numRecords decodedDataSize sizes values

/-! ## Numbers are never empty -/

theorem Leb128.length_pos {bytes : Bytes} {value : Nat} (spelled : Leb128 bytes value) :
    0 < bytes.length := by
  cases spelled with
  | last small => exact Nat.succ_pos _
  | more high rest => exact Nat.succ_pos _

/-- A sizes section spends at most ten bytes on a size. -/
theorem Sizes.length_le {bytes : Bytes} {sizes : List Nat} (spelled : Sizes bytes sizes) :
    bytes.length ≤ sizes.length * 10 := by
  induction spelled with
  | nil => exact Nat.zero_le _
  | cons size rest ih =>
      have short := size.short
      rw [List.length_append, List.length_cons]
      omega

/-! ## Slices -/

theorem map_length_slicesOf (sizes : List Nat) :
    ∀ values : Bytes, values.length = sizes.sum →
      (slicesOf sizes values).map List.length = sizes := by
  induction sizes with
  | nil => exact fun _ _ => rfl
  | cons size rest ih =>
      intro values filled
      rw [List.sum_cons] at filled
      rw [slicesOf, List.map_cons, List.length_take, ih (values.drop size) (by
        rw [List.length_drop]
        omega), Nat.min_eq_left (by omega)]

theorem flatten_slicesOf (sizes : List Nat) :
    ∀ values : Bytes, values.length = sizes.sum → (slicesOf sizes values).flatten = values := by
  induction sizes with
  | nil => exact fun values filled => (List.length_eq_zero_iff.mp filled).symm
  | cons size rest ih =>
      intro values filled
      rw [List.sum_cons] at filled
      rw [slicesOf, List.flatten_cons, ih (values.drop size) (by
        rw [List.length_drop]
        omega), List.take_append_drop]

end Riegeli

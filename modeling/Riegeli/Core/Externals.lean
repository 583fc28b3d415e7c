/-
Module: Riegeli.Core.Externals
Purpose: The third-party code the crate calls (HighwayHash and the Brotli,
  Zstd and Snappy codecs) as parameters, and the codec dispatch of
  `compression.rs` around them.
Trusted boundary: the hash and the codecs
Main exports: CompressionType, CompressOptions, Externals, Externals.Lawful,
  compressWithPrefix, compressLengthPrefixed, decompressWithPrefix,
  decompressDataCapped
-/
import Riegeli.Core.Varint

namespace Riegeli

/-- `CompressionType`. -/
inductive CompressionType where
  | none
  | brotli
  | zstd
  | snappy
deriving Repr, DecidableEq

/-- The discriminant, `compression as u8`. -/
def CompressionType.toByte : CompressionType → UInt8
  | .none => 0
  | .brotli => 98
  | .zstd => 122
  | .snappy => 115

/-- `impl TryFrom<u8> for CompressionType`. -/
def CompressionType.tryFrom (byte : UInt8) : Rust CompressionType :=
  if byte = 0 then .ok .none
  else if byte = 98 then .ok .brotli
  else if byte = 122 then .ok .zstd
  else if byte = 115 then .ok .snappy
  else .error (.error (.unknownCompressionType byte))

theorem CompressionType.tryFrom_toByte (compression : CompressionType) :
    CompressionType.tryFrom compression.toByte = .ok compression := by
  cases compression <;> rfl

/-- `CompressOptions`. -/
structure CompressOptions where
  level : Option Int
  windowLog : Option Nat
deriving Repr, DecidableEq

/-- `CompressOptions::default()`. -/
def CompressOptions.default : CompressOptions := { level := none, windowLog := none }

/-- The code outside the crate.  `compress` and `decompress` stand for the
codec of a compression type other than `none`; a codec the build leaves out
answers with `UnsupportedCompression`. -/
structure Externals where
  hash : Bytes → UInt64
  compress : CompressionType → CompressOptions → Bytes → Except RiegeliError Bytes
  decompress : CompressionType → Bytes → Except RiegeliError Bytes

/-- What the format relies on: a codec restores what it compressed. -/
structure Externals.Lawful (ext : Externals) : Prop where
  decompress_compress : ∀ compression options data compressed,
    ext.compress compression options data = .ok compressed →
      ext.decompress compression compressed = .ok data

variable (ext : Externals)

/-- `highway_hash_64`. -/
def highwayHash64 (data : Bytes) : Nat := (ext.hash data).toNat

/-- `compress_data`. -/
def compressData (data : Bytes) (compression : CompressionType)
    (options : CompressOptions) : Rust Bytes :=
  match compression with
  | .none => .ok data
  | other => ofResult (ext.compress other options data)

/-- `compress_with_prefix`. -/
def compressWithPrefix (data : Bytes) (compression : CompressionType)
    (options : CompressOptions) : Rust Bytes := do
  let compressed ← compressData ext data compression options
  if compression = .none then .ok compressed
  else .ok (encodeU64 data.length ++ compressed)

/-- `compress_length_prefixed`. -/
def compressLengthPrefixed (data : Bytes) (compression : CompressionType)
    (options : CompressOptions) : Rust Bytes := do
  let compressed ← compressData ext data compression options
  if compression = .none then .ok (encodeU64 compressed.length ++ compressed)
  else
    .ok (encodeU64 (compressed.length + lengthVarintU64 data.length) ++
      encodeU64 data.length ++ compressed)

/-- The decoded stream of a compression type. -/
def decompressData (data : Bytes) (compression : CompressionType) : Rust Bytes :=
  match compression with
  | .none => .ok data
  | other => ofResult (ext.decompress other data)

/-- `decompress_data_capped`: the stream is held to `maxLen` bytes. -/
def decompressDataCapped (data : Bytes) (compression : CompressionType)
    (maxLen : Nat) : Rust Bytes := do
  let out ← decompressData ext data compression
  if maxLen < out.length then
    .error (malformed s!"decompressed data exceeds its declared size ({maxLen} bytes)")
  else .ok out

/-- `decompress_with_prefix`. -/
def decompressWithPrefix (data : Bytes) (compression : CompressionType) : Rust Bytes :=
  if compression = .none then .ok data
  else
    match decodeU64 data with
    | .error error =>
        .error (malformed s!"reading uncompressed_size prefix: {error.toText}")
    | .ok (uncompressedSize, consumed) => do
        let out ← decompressDataCapped ext (data.drop consumed) compression uncompressedSize
        if out.length ≠ uncompressedSize then
          .error (malformed
            s!"decompressed size {out.length} != declared {uncompressedSize}")
        else .ok out

/-! ## The codec dispatch inverts itself -/

variable {ext}

/-- Decompression of a compressed string, under any cap that admits it. -/
theorem decompressDataCapped_compressData (lawful : ext.Lawful)
    {data compressed : Bytes} {compression : CompressionType} {options : CompressOptions}
    {maxLen : Nat} (ran : compressData ext data compression options = .ok compressed)
    (admits : data.length ≤ maxLen) :
    decompressDataCapped ext compressed compression maxLen = .ok data := by
  have capped : ¬ maxLen < data.length := by omega
  have restored : ∀ other : CompressionType,
      ofResult (ext.compress other options data) = .ok compressed →
        ofResult (ext.decompress other compressed) = .ok data := by
    intro other same
    cases codec : ext.compress other options data with
    | error error => simp [codec, ofResult] at same
    | ok bytes =>
        simp only [codec, ofResult, Except.ok.injEq] at same
        subst same
        simp [lawful.decompress_compress _ _ _ _ codec, ofResult]
  have decoded : decompressData ext compressed compression = .ok data := by
    cases compression with
    | none => exact ran.symm
    | brotli => exact restored .brotli ran
    | zstd => exact restored .zstd ran
    | snappy => exact restored .snappy ran
  simp [decompressDataCapped, decoded, capped]

/-- The prefixed form restores the data. -/
theorem decompressWithPrefix_compressWithPrefix (lawful : ext.Lawful)
    {data encoded : Bytes} {compression : CompressionType} {options : CompressOptions}
    (fits : data.length ≤ u64Max)
    (ran : compressWithPrefix ext data compression options = .ok encoded) :
    decompressWithPrefix ext encoded compression = .ok data := by
  obtain ⟨compressed, compressedRan, assembled⟩ := Except.bind_eq_ok.mp ran
  by_cases plain : compression = .none
  · subst plain
    simp only [compressData, Except.ok.injEq] at compressedRan
    simp only [↓reduceIte, Except.ok.injEq] at assembled
    subst compressedRan assembled
    rfl
  · rw [if_neg plain] at assembled
    simp only [Except.ok.injEq] at assembled
    subst assembled
    have restored := decompressDataCapped_compressData lawful compressedRan (Nat.le_refl _)
    simp [decompressWithPrefix, plain, decodeU64_encodeU64 fits, restored]

/-- The codec calls never panic. -/
theorem ofResult_safe {Value : Type} (result : Except RiegeliError Value) :
    Rust.Safe (ofResult result) := by
  cases result with
  | error error => exact Or.inr ⟨error, rfl⟩
  | ok value => exact Or.inl ⟨value, rfl⟩

theorem decompressData_safe (data : Bytes) (compression : CompressionType) :
    Rust.Safe (decompressData ext data compression) := by
  cases compression with
  | none => exact Rust.safe_ok _
  | brotli => exact ofResult_safe _
  | zstd => exact ofResult_safe _
  | snappy => exact ofResult_safe _

theorem decompressDataCapped_safe (data : Bytes) (compression : CompressionType)
    (maxLen : Nat) : Rust.Safe (decompressDataCapped ext data compression maxLen) := by
  refine Rust.Safe.bind (decompressData_safe data compression) ?_
  intro out _
  split
  · exact Or.inr ⟨_, rfl⟩
  · exact Rust.safe_ok _

theorem decompressWithPrefix_safe (data : Bytes) (compression : CompressionType) :
    Rust.Safe (decompressWithPrefix ext data compression) := by
  unfold decompressWithPrefix
  split
  · exact Rust.safe_ok _
  · split
    · exact Or.inr ⟨_, rfl⟩
    · refine Rust.Safe.bind (decompressDataCapped_safe _ _ _) ?_
      intro out _
      split
      · exact Or.inr ⟨_, rfl⟩
      · exact Rust.safe_ok _

/-- An instance: a hash that is zero, and codecs that store. -/
def storingExternals : Externals :=
  { hash := fun _ => 0
    compress := fun _ _ data => .ok data
    decompress := fun _ data => .ok data }

theorem storingExternals_lawful : storingExternals.Lawful where
  decompress_compress := fun _ _ _ _ ran => ran.symm

/-- What Snappy writes for up to 60 bytes without a repetition: the length, and
one literal. -/
def snappyLiteral : Bytes → Bytes
  | [] => [0]
  | byte :: rest =>
      UInt8.ofNat (rest.length + 1) :: UInt8.ofNat (4 * rest.length) :: byte :: rest

/-- What such a block holds. -/
def snappyLiteralOf : Bytes → Option Bytes
  | [0] => some []
  | size :: tag :: byte :: rest =>
      if size.toNat = rest.length + 1 ∧ tag.toNat = 4 * rest.length then some (byte :: rest)
      else none
  | _ => none

/-- An instance: a hash that is zero, Snappy as far as it writes one literal, and
no other codec. -/
def snappyExternals : Externals :=
  { hash := fun _ => 0
    compress := fun compression _ data =>
      if compression ≠ .snappy then .error (.unsupportedCompression compression.toByte)
      else if 60 < data.length then .error (.malformedData "snappy compress error")
      else .ok (snappyLiteral data)
    decompress := fun compression data =>
      if compression ≠ .snappy then .error (.unsupportedCompression compression.toByte)
      else
        match snappyLiteralOf data with
        | some out => .ok out
        | none => .error (.malformedData "snappy decompress error") }

theorem snappyLiteralOf_snappyLiteral {data : Bytes} (short : data.length ≤ 60) :
    snappyLiteralOf (snappyLiteral data) = some data := by
  cases data with
  | nil => rfl
  | cons byte rest =>
      rw [List.length_cons] at short
      have size : (UInt8.ofNat (rest.length + 1)).toNat = rest.length + 1 :=
        UInt8.toNat_ofNat_of_lt' (show rest.length + 1 < 256 by omega)
      have tag : (UInt8.ofNat (4 * rest.length)).toNat = 4 * rest.length :=
        UInt8.toNat_ofNat_of_lt' (show 4 * rest.length < 256 by omega)
      rw [snappyLiteral, snappyLiteralOf, if_pos ⟨size, tag⟩]

theorem snappyExternals_lawful : snappyExternals.Lawful where
  decompress_compress := by
    intro compression options data compressed ran
    change (if compression ≠ .snappy then _ else _) = _ at ran
    change (if compression ≠ .snappy then _ else _) = _
    by_cases snappy : compression ≠ .snappy
    · rw [if_pos snappy] at ran
      cases ran
    · rw [if_neg snappy] at ran ⊢
      by_cases long : 60 < data.length
      · rw [if_pos long] at ran
        cases ran
      · rw [if_neg long] at ran
        cases ran
        rw [snappyLiteralOf_snappyLiteral (Nat.le_of_not_lt long)]

end Riegeli

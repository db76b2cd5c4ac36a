import BenoStreamDB.Foundations.LittleEndian
import BenoStreamDB.Foundations.Double

/-!
# The binary form of bounds

`encode_iceberg_value` and `decode_iceberg_value` of `iceberg/value.rs`: the bounds of a column are
stored in a manifest file as bytes, and read back with the type of the column, which is JSON. The
encoder looks only at the value; the decoder looks only at the type, and guesses from the number of
bytes if it does not know the type.
-/

namespace BenoStreamDB

inductive JsonNumber where
  | int (i : ℤ)
  | float (x : Double)
  deriving DecidableEq

/-- `serde_json::Value`; the keys of an object are distinct. -/
inductive Json where
  | null
  | bool (b : Bool)
  | number (n : JsonNumber)
  | string (s : String)
  | array (elements : List Json)
  | object (fields : List (String × Json))

/-- `ManifestValue`, with floating-point numbers by their bits. -/
inductive BoundValue where
  | string (s : String)
  | int32 (i : Int32)
  | int64 (i : Int64)
  | float32 (bits : UInt32)
  | float64 (bits : UInt64)
  | boolean (b : Bool)
  | null
  deriving DecidableEq

/-! ### Encoding -/

/-- `str::as_bytes` -/
def utf8Bytes (s : String) : List UInt8 := s.toByteArray.data.toList

/-- `encode_iceberg_value` -/
def encodeIcebergValue : BoundValue → Option (List UInt8)
  | .boolean b => some [if b then 1 else 0]
  | .int32 i => some (LittleEndian.toBytes 4 i.toBitVec.toNat)
  | .int64 i => some (LittleEndian.toBytes 8 i.toBitVec.toNat)
  | .float32 bits => some (LittleEndian.toBytes 4 bits.toNat)
  | .float64 bits => some (LittleEndian.toBytes 8 bits.toNat)
  | .string s => some (utf8Bytes s)
  | .null => none

/-! ### Decoding -/

/-- `i32::from_le_bytes` -/
def int32OfBytes (bytes : List UInt8) : Int32 := .ofBitVec (.ofNat 32 (LittleEndian.ofBytes bytes))

/-- `i64::from_le_bytes` -/
def int64OfBytes (bytes : List UInt8) : Int64 := .ofBitVec (.ofNat 64 (LittleEndian.ofBytes bytes))

section Decoding

variable (base64 : List UInt8 → String)

/-- A string if the bytes are one, and their base64 text otherwise. -/
def decodeText (bytes : List UInt8) : BoundValue :=
  .string ((String.fromUTF8? ⟨bytes.toArray⟩).getD (base64 bytes))

/-- `parse_avro_value_bytes`: without a type the length of the bytes decides. -/
def parseAvroValueBytes (bytes : List UInt8) : BoundValue :=
  if bytes.length = 4 then .int64 (int32OfBytes bytes).toInt64
  else if bytes.length = 8 then .int64 (int64OfBytes bytes)
  else decodeText base64 bytes

/-- The text of a type: the type itself, or the `type` of an object. -/
def typeStr : Json → String
  | .string s => s
  | .object fields => match fields.lookup "type" with
    | some (.string s) => s
    | _ => "unknown"
  | _ => "unknown"

/-- The arms of `decode_iceberg_value`. -/
inductive CodecArm where
  | boolean
  | int
  | long
  | float
  | double
  | text
  | fallback
  deriving DecidableEq

def CodecArm.ofType : String → CodecArm
  | "boolean" => .boolean
  | "int" | "date" => .int
  | "long" | "timestamp" | "timestamptz" => .long
  | "float" => .float
  | "double" => .double
  | "string" | "uuid" => .text
  | "binary" | "fixed" => .text
  | _ => .fallback

def CodecArm.decode (bytes : List UInt8) : CodecArm → BoundValue
  | .boolean => match bytes with
    | b :: _ => .boolean (b != 0)
    | [] => .null
  | .int => if 4 ≤ bytes.length then .int32 (int32OfBytes (bytes.take 4)) else .null
  | .long => if 8 ≤ bytes.length then .int64 (int64OfBytes (bytes.take 8)) else .null
  | .float =>
    if 4 ≤ bytes.length then .float32 (.ofNat (LittleEndian.ofBytes (bytes.take 4))) else .null
  | .double =>
    if 8 ≤ bytes.length then .float64 (.ofNat (LittleEndian.ofBytes (bytes.take 8))) else .null
  | .text => decodeText base64 bytes
  | .fallback => parseAvroValueBytes base64 bytes

/-- `decode_iceberg_value` -/
def decodeIcebergValue (type : Json) (bytes : List UInt8) : BoundValue :=
  (CodecArm.ofType (typeStr type)).decode base64 bytes

end Decoding

/-! ### Round trips -/

variable {base64 : List UInt8 → String}

@[simp]
lemma decodeText_utf8Bytes (s : String) : decodeText base64 (utf8Bytes s) = .string s := by
  have hbytes : (⟨(utf8Bytes s).toArray⟩ : ByteArray) = s.toByteArray := by simp [utf8Bytes]
  rw [decodeText, hbytes, String.fromUTF8?, dif_pos s.isValidUTF8]
  rfl

lemma int32OfBytes_toBytes (i : Int32) :
    int32OfBytes (LittleEndian.toBytes 4 i.toBitVec.toNat) = i := by
  rw [int32OfBytes, LittleEndian.ofBytes_toBytes i.toBitVec.isLt]
  simp

lemma int64OfBytes_toBytes (i : Int64) :
    int64OfBytes (LittleEndian.toBytes 8 i.toBitVec.toNat) = i := by
  rw [int64OfBytes, LittleEndian.ofBytes_toBytes i.toBitVec.isLt]
  simp

/-- The type reads the value back: it is of the kind that the type decodes to. Types without an arm
of their own read back 64-bit integers, and strings of other lengths than 4 and 8 bytes. -/
def CodecArm.Reads : CodecArm → BoundValue → Prop
  | _, .null => True
  | .boolean, .boolean _ | .int, .int32 _ | .long, .int64 _ | .float, .float32 _ => True
  | .double, .float64 _ | .text, .string _ | .fallback, .int64 _ => True
  | .fallback, .string s => (utf8Bytes s).length ≠ 4 ∧ (utf8Bytes s).length ≠ 8
  | _, _ => False

/-- What an arm gives is of its kind, or NULL. -/
lemma CodecArm.reads_of_decode {arm : CodecArm} {bytes : List UInt8} {v : BoundValue}
    (h : arm.decode base64 bytes = v) (harm : arm ≠ .fallback) : arm.Reads v := by
  subst h
  cases arm with
  | boolean => cases bytes <;> trivial
  | text => trivial
  | fallback => exact absurd rfl harm
  | _ =>
    rw [CodecArm.decode]
    split_ifs <;> trivial

lemma CodecArm.reads_of_fallback {v : BoundValue} {bytes : List UInt8}
    (hbytes : encodeIcebergValue v = some bytes)
    (h : CodecArm.fallback.decode base64 bytes = v) : CodecArm.fallback.Reads v := by
  cases v with
  | null | int64 => trivial
  | string s =>
    obtain rfl : utf8Bytes s = bytes := Option.some.inj hbytes
    constructor
    · intro hlen
      simp [CodecArm.decode, parseAvroValueBytes, hlen] at h
    · intro hlen
      simp [CodecArm.decode, parseAvroValueBytes, hlen] at h
  | _ =>
    -- the number of bytes is taken for an integer, or the byte for a character
    obtain rfl := Option.some.inj hbytes
    simp [CodecArm.decode, parseAvroValueBytes, decodeText] at h

lemma CodecArm.decode_of_reads {arm : CodecArm} {v : BoundValue} {bytes : List UInt8}
    (h : arm.Reads v) (hbytes : encodeIcebergValue v = some bytes) :
    arm.decode base64 bytes = v := by
  match arm, v, h with
  | _, .null, _ => cases hbytes
  | .boolean, .boolean b, _ =>
    obtain rfl := Option.some.inj hbytes
    cases b <;> rfl
  | .int, .int32 i, _ =>
    obtain rfl := Option.some.inj hbytes
    simp [CodecArm.decode, List.take_of_length_le, int32OfBytes_toBytes]
  | .long, .int64 i, _ =>
    obtain rfl := Option.some.inj hbytes
    simp [CodecArm.decode, List.take_of_length_le, int64OfBytes_toBytes]
  | .float, .float32 bits, _ =>
    obtain rfl := Option.some.inj hbytes
    have hlt : bits.toNat < 256 ^ 4 := bits.toNat_lt
    simp [CodecArm.decode, List.take_of_length_le, LittleEndian.ofBytes_toBytes hlt]
  | .double, .float64 bits, _ =>
    obtain rfl := Option.some.inj hbytes
    have hlt : bits.toNat < 256 ^ 8 := bits.toNat_lt
    simp [CodecArm.decode, List.take_of_length_le, LittleEndian.ofBytes_toBytes hlt]
  | .text, .string s, _ =>
    obtain rfl := Option.some.inj hbytes
    exact decodeText_utf8Bytes s
  | .fallback, .int64 i, _ =>
    obtain rfl := Option.some.inj hbytes
    simp [CodecArm.decode, parseAvroValueBytes, int64OfBytes_toBytes]
  | .fallback, .string s, hlen =>
    obtain rfl := Option.some.inj hbytes
    obtain ⟨h4, h8⟩ := hlen
    simp [CodecArm.decode, parseAvroValueBytes, h4, h8]

lemma encodeIcebergValue_eq_none_iff {v : BoundValue} :
    encodeIcebergValue v = none ↔ v = .null := by
  cases v <;> simp [encodeIcebergValue]

/-- The bytes of a value are read back as the value exactly if the type reads it, and only NULL has
no bytes. -/
theorem decode_encode_iff (base64 : List UInt8 → String) (type : Json) (v : BoundValue) :
    ((∀ bytes, encodeIcebergValue v = some bytes → decodeIcebergValue base64 type bytes = v) ↔
      (CodecArm.ofType (typeStr type)).Reads v) ∧
    (encodeIcebergValue v = none ↔ v = .null) := by
  refine ⟨⟨?_, fun h bytes hbytes => CodecArm.decode_of_reads h hbytes⟩,
    encodeIcebergValue_eq_none_iff⟩
  intro h
  cases hbytes : encodeIcebergValue v with
  | none =>
    rw [encodeIcebergValue_eq_none_iff.1 hbytes]
    cases CodecArm.ofType (typeStr type) <;> trivial
  | some bytes =>
    have hdecode := h bytes hbytes
    rw [decodeIcebergValue] at hdecode
    by_cases harm : CodecArm.ofType (typeStr type) = .fallback
    · rw [harm] at hdecode ⊢
      exact CodecArm.reads_of_fallback hbytes hdecode
    · exact CodecArm.reads_of_decode hdecode harm

/-- A string of four bytes in a column of type `fixed[4]` is read back as a number, and a number
that is too large for its column as another one. -/
theorem not_decode_encode :
    ¬ (∀ bytes, encodeIcebergValue (.string "abcd") = some bytes →
      decodeIcebergValue (fun _ => "") (.string "fixed[4]") bytes = .string "abcd") ∧
    ¬ (∀ bytes, encodeIcebergValue (.int64 4294967296) = some bytes →
      decodeIcebergValue (fun _ => "") (.string "int") bytes = .int64 4294967296) := by
  constructor
  · intro h
    have hreads := CodecArm.reads_of_fallback rfl (h _ rfl)
    exact absurd hreads.1 (by decide)
  · intro h
    have hreads : CodecArm.int.Reads (.int64 4294967296) :=
      CodecArm.reads_of_decode (h _ rfl) (by decide)
    exact hreads

end BenoStreamDB

import BenoStreamDB.Query.Expr

/-!
# Record batches and Parquet values

Rows as they come in a record batch, and the form that their values have in a Parquet file and in
its statistics.
-/

namespace BenoStreamDB

/-! ### Batches -/

/-- A column of a batch. -/
structure BatchField where
  name : String
  type : DataType
  /-- The `iceberg.id` of the field's metadata. -/
  icebergId : Option ℤ := none
  deriving DecidableEq

/-- A record batch: its values have the types of its columns, and there are no other columns. -/
structure Batch where
  fields : List BatchField
  rows : List Row
  distinct : (fields.map BatchField.name).Nodup
  typed : ∀ row ∈ rows, ∀ col ∈ fields, ∀ c, row col.name = some c → col.type.Holds c
  closed : ∀ row ∈ rows, ∀ name, (∀ col ∈ fields, col.name ≠ name) → row name = none

/-- The values of one column. -/
def Batch.column (batch : Batch) (name : String) : List (Option Cell) :=
  batch.rows.map fun row => row name

/-! ### Physical values -/

/-- A value of a Parquet column chunk. -/
inductive PhysicalValue where
  | boolean (b : Bool)
  | int32 (i : ℤ)
  | int64 (i : ℤ)
  | float (x : Double)
  | double (x : Double)
  | byteArray (bytes : List UInt8)
  | fixedLenByteArray (bytes : List UInt8)
  deriving DecidableEq

/-- How a value of an Arrow column is stored. Unsigned integers keep their bits; a decimal is stored
by its precision. -/
def PhysicalValue.Encodes (p : PhysicalValue) (t : DataType) (c : Cell) : Prop :=
  match t, c, p with
  | .boolean, .bool b, p => p = .boolean b
  | .int8, .int i, p | .int16, .int i, p | .int32, .int i, p => p = .int32 i
  | .int64, .int i, p => p = .int64 i
  | .uint8, .int i, p | .uint16, .int i, p | .uint32, .int i, p =>
    p = .int32 (wrapSigned 32 i)
  | .uint64, .int i, p => p = .int64 (wrapSigned 64 i)
  | .float16, .float _, p => ∃ bytes, p = .fixedLenByteArray bytes
  | .float32, .float x, p => p = .float x
  | .float64, .float x, p => p = .double x
  | .utf8, .string s, p | .largeUtf8, .string s, p | .utf8View, .string s, p =>
    p = .byteArray s.toUTF8.data.toList
  | .binary, .bytes bs, p | .largeBinary, .bytes bs, p => p = .byteArray bs
  | .date32, .temporal _ i, p | .time32 _, .temporal _ i, p => p = .int32 i
  | .date64, .temporal _ i, p | .time64 _, .temporal _ i, p | .timestamp _, .temporal _ i, p =>
    p = .int64 i
  | .decimal128 _, .decimal u _, p =>
    p = .int32 u ∨ p = .int64 u ∨ ∃ bytes, p = .fixedLenByteArray bytes
  | _, _, _ => False

/-- `ParquetStats`; both bounds are of the column's physical type. -/
structure ParquetStats where
  min : Option PhysicalValue
  max : Option PhysicalValue
  nullCount : Option ℕ

/-- `std::str::from_utf8` -/
def fromUtf8 (bytes : List UInt8) : Option String := String.fromUTF8? ⟨bytes.toArray⟩

lemma fromUtf8_toUTF8 (s : String) : fromUtf8 s.toUTF8.data.toList = some s := by
  rw [fromUtf8, Array.toArray_toList]
  exact dif_pos s.isValidUTF8

end BenoStreamDB

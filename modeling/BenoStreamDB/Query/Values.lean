import BenoStreamDB.Foundations.Double
import BenoStreamDB.Manifest.Types
import Mathlib.Data.String.Basic

/-!
# Column values

The values of Arrow columns (`Cell`), their types, the values that a manifest keeps as statistics
(`ManifestValue`) and the JSON form (`Value`) in which the planner compares all of them.

`Cell.compare` is the comparison of SQL as DataFusion evaluates it: integers of all widths compare
as integers, an integer and a double compare as doubles, doubles compare in the total order, a text
that is compared with a date or a time is converted to it, and a number that is compared with a text
is converted to a text.
-/

namespace BenoStreamDB

/-! ### Types and values -/

inductive TimeUnit where
  | second
  | millisecond
  | microsecond
  | nanosecond
  deriving DecidableEq

/-- The Arrow types of scalar columns. -/
inductive DataType where
  | boolean
  | int8
  | int16
  | int32
  | int64
  | uint8
  | uint16
  | uint32
  | uint64
  | float16
  | float32
  | float64
  | utf8
  | largeUtf8
  | utf8View
  | binary
  | largeBinary
  | date32
  | date64
  | time32 (unit : TimeUnit)
  | time64 (unit : TimeUnit)
  | timestamp (unit : TimeUnit)
  | decimal128 (scale : ℕ)
  deriving DecidableEq

/-- A value of a column. Integers and floats of all widths have the same form. -/
inductive Cell where
  | bool (b : Bool)
  | int (i : ℤ)
  | float (x : Double)
  | string (s : String)
  | bytes (bs : List UInt8)
  | decimal (unscaled : ℤ) (scale : ℕ)
  /-- A date, a time or a timestamp, in the unit of its type. -/
  | temporal (type : DataType) (i : ℤ)
  deriving DecidableEq

/-- `i` is a signed integer of `w` bits. -/
def IsSigned (w : ℕ) (i : ℤ) : Prop := -2 ^ (w - 1) ≤ i ∧ i < 2 ^ (w - 1)

/-- `i` is an unsigned integer of `w` bits. -/
def IsUnsigned (w : ℕ) (i : ℤ) : Prop := 0 ≤ i ∧ i < 2 ^ w

instance (w : ℕ) (i : ℤ) : Decidable (IsSigned w i) := inferInstanceAs (Decidable (_ ∧ _))

instance (w : ℕ) (i : ℤ) : Decidable (IsUnsigned w i) := inferInstanceAs (Decidable (_ ∧ _))

/-- The value of `i as i32`, `i as i64`. -/
def wrapSigned (w : ℕ) (i : ℤ) : ℤ := (i + 2 ^ (w - 1)) % 2 ^ w - 2 ^ (w - 1)

lemma wrapSigned_of_isSigned {i : ℤ} (h : IsSigned 32 i) : wrapSigned 32 i = i := by
  simp only [IsSigned, wrapSigned] at h ⊢
  omega

lemma wrapSigned_isSigned (i : ℤ) : IsSigned 32 (wrapSigned 32 i) := by
  simp only [IsSigned, wrapSigned]
  omega

/-- The values of a type. -/
def DataType.Holds : DataType → Cell → Prop
  | .boolean, .bool _ => True
  | .int8, .int i => IsSigned 8 i
  | .int16, .int i => IsSigned 16 i
  | .int32, .int i => IsSigned 32 i
  | .int64, .int i => IsSigned 64 i
  | .uint8, .int i => IsUnsigned 8 i
  | .uint16, .int i => IsUnsigned 16 i
  | .uint32, .int i => IsUnsigned 32 i
  | .uint64, .int i => IsUnsigned 64 i
  | .float16, .float _ | .float32, .float _ | .float64, .float _ => True
  | .utf8, .string _ | .largeUtf8, .string _ | .utf8View, .string _ => True
  | .binary, .bytes _ | .largeBinary, .bytes _ => True
  | .date32, .temporal t _ => t = .date32
  | .date64, .temporal t _ => t = .date64
  | .time32 u, .temporal t _ => t = .time32 u
  | .time64 u, .temporal t _ => t = .time64 u
  | .timestamp u, .temporal t _ => t = .timestamp u
  | .decimal128 s, .decimal _ s' => s = s'
  | _, _ => False

/-- The order of the values of one type. -/
def Cell.Le : Cell → Cell → Prop
  | .bool a, .bool b => a ≤ b
  | .int i, .int j => i ≤ j
  | .float x, .float y => x ≤ y
  | .string s, .string t => s ≤ t
  | .bytes a, .bytes b => a ≤ b
  | .decimal u s, .decimal v t => s = t ∧ u ≤ v
  | .temporal t i, .temporal t' j => t = t' ∧ i ≤ j
  | _, _ => False

/-! ### Comparison in SQL -/

/-- The conversions of DataFusion: `none` where the conversion fails. -/
abbrev CastFn := DataType → Cell → Option Cell

/-- The comparison of a value with one of the same type, or with one that is converted to it. -/
def Cell.compareWith (cast : CastFn) : Cell → Cell → Option Ordering
  | .bool a, .bool b => some (Ord.compare a b)
  | .int i, .int j => some (Ord.compare i j)
  | .int i, .float y => some (Ord.compare (Double.ofInt i) y)
  | .float x, .float y => some (Ord.compare x y)
  | .float x, .int j => some (Ord.compare x (Double.ofInt j))
  | .string s, .string t => some (Ord.compare s t)
  | .string s, .int j =>
    match cast .utf8 (.int j) with
    | some (.string t) => some (Ord.compare s t)
    | _ => none
  | .string s, .float y =>
    match cast .utf8 (.float y) with
    | some (.string t) => some (Ord.compare s t)
    | _ => none
  | .bytes a, .bytes b => some (Ord.compare a b)
  | .bytes a, .string t => some (Ord.compare a t.toUTF8.data.toList)
  | .decimal u s, .decimal v t => some (Ord.compare (u * 10 ^ t) (v * 10 ^ s))
  | .decimal u s, .int j => some (Ord.compare u (j * 10 ^ s))
  | .decimal u s, .float y =>
    match cast .float64 (.decimal u s) with
    | some (.float x) => some (Ord.compare x y)
    | _ => none
  | .temporal t i, .temporal t' j => if t = t' then some (Ord.compare i j) else none
  | .temporal t i, .string s =>
    match cast t (.string s) with
    | some (.temporal t' j) => if t = t' then some (Ord.compare i j) else none
    | _ => none
  | _, _ => none

/-- The comparison of two values that are not NULL; `none` if their types do not compare. -/
def Cell.compare (cast : CastFn) (a b : Cell) : Option Ordering :=
  (a.compareWith cast b).or ((b.compareWith cast a).map Ordering.swap)

/-! ### JSON values -/

namespace Value

def asI64 : Value → Option ℤ
  | .int i => if IsSigned 64 i then some i else none
  | _ => none

def asF64 : Value → Option Double
  | .int i => some (Double.ofInt i)
  | .real q => some (.num q)
  | _ => none

def asStr : Value → Option String
  | .string s => some s
  | _ => none

def asBool : Value → Option Bool
  | .bool b => some b
  | _ => none

/-- `json!(f)`: JSON has no NaN and no infinity. -/
def ofDouble : Double → Value
  | .num q => .real q
  | .negZero => .real 0
  | .nan _ | .inf _ => .null

/-- `compare_values` of the planner. -/
def compareValues : Value → Value → Option Ordering
  | .int i, .int j =>
    if IsSigned 64 i ∧ IsSigned 64 j then some (Ord.compare i j)
    else (Double.ofInt i).partialCmp (Double.ofInt j)
  | .real p, .real q => (Double.num p).partialCmp (.num q)
  | .int i, .real q => (Double.ofInt i).partialCmp (.num q)
  | .real p, .int j => (Double.num p).partialCmp (Double.ofInt j)
  | .string s, .string t => some (Ord.compare s t)
  | .bool a, .bool b => some (Ord.compare a b)
  | _, _ => none

end Value

/-! ### Statistics -/

inductive ManifestValue where
  | string (s : String)
  | int32 (i : ℤ)
  | int64 (i : ℤ)
  | float32 (x : Double)
  | float64 (x : Double)
  | boolean (b : Bool)
  | null
  deriving DecidableEq

def ManifestValue.toJsonValue : ManifestValue → Value
  | .string s => .string s
  | .int32 i | .int64 i => .int i
  | .float32 x | .float64 x => .ofDouble x
  | .boolean b => .bool b
  | .null => .null

structure ColumnStats where
  min : Option ManifestValue := none
  max : Option ManifestValue := none
  nullCount : ℤ := 0
  deriving DecidableEq

/-- The value of a column of the given type that a manifest value stands for. -/
def ManifestValue.toCell : DataType → ManifestValue → Option Cell
  | .boolean, .boolean b => some (.bool b)
  | .int8, .int32 i | .int16, .int32 i | .int32, .int32 i | .uint8, .int32 i | .uint16, .int32 i
  | .uint32, .int32 i | .int64, .int64 i | .uint64, .int64 i => some (.int i)
  | .float32, .float32 x | .float64, .float64 x => some (.float x)
  | .utf8, .string s | .largeUtf8, .string s | .utf8View, .string s => some (.string s)
  | .date32, .int32 i => some (.temporal .date32 i)
  | .date64, .int64 i => some (.temporal .date64 i)
  | .time32 u, .int32 i => some (.temporal (.time32 u) i)
  | .time64 u, .int64 i => some (.temporal (.time64 u) i)
  | .timestamp u, .int64 i => some (.temporal (.timestamp u) i)
  | .decimal128 s, .int32 i | .decimal128 s, .int64 i => some (.decimal i s)
  | _, _ => none

/-- `ManifestValue::from_array` -/
def ManifestValue.fromArray : DataType → Cell → ManifestValue
  | .utf8, .string s | .largeUtf8, .string s | .utf8View, .string s => .string s
  | .date32, .temporal _ i => .int32 i
  | .date64, .temporal _ i => .int64 i
  | .timestamp .microsecond, .temporal _ i => .int64 i
  | .timestamp .millisecond, .temporal _ i => .int64 (i * 1000)
  | .timestamp .second, .temporal _ i => .int64 (i * 1000000)
  | .timestamp .nanosecond, .temporal _ i => .int64 (i.tdiv 1000)
  | .int32, .int i => .int32 i
  | .int64, .int i => .int64 i
  | .float32, .float x => .float32 x
  | .float64, .float x => .float64 x
  | .boolean, .bool b => .boolean b
  | _, _ => .null

/-! ### Vectors -/

inductive VectorMetric where
  | l2
  | cosine
  | innerProduct
  | l1
  | hamming
  | jaccard
  deriving DecidableEq

structure SparseVector (φ : Type) where
  indices : List ℕ
  values : List φ
  dim : ℕ
  deriving DecidableEq

/-- A vector, over the type of its 32-bit components. -/
inductive VectorValue (φ : Type) where
  | float32 (v : List φ)
  | binary (bytes : List UInt8)
  | sparse (v : SparseVector φ)
  deriving DecidableEq

end BenoStreamDB

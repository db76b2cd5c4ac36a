import BenoStreamDB.Query.Filters
import BenoStreamDB.Segment.Parquet

/-!
# Row-group pruning

`prune_row_groups`: row groups of a Parquet file are skipped by the statistics of their columns.
Statistics of all numeric columns, and texts that parse as numbers, are compared as doubles; other
texts are compared as texts.
-/

namespace BenoStreamDB

/-! ### Statistics -/

/-- `str::parse::<f64>` -/
abbrev ParseF64 := String → Option Double

namespace PhysicalValue

def asF64 (parse : ParseF64) : PhysicalValue → Option Double
  | .int32 i | .int64 i => some (Double.ofInt i)
  | .float x | .double x => some x
  | .byteArray bytes => (fromUtf8 bytes).bind parse
  | .boolean _ | .fixedLenByteArray _ => none

def asText : PhysicalValue → Option String
  | .byteArray bytes => fromUtf8 bytes
  | _ => none

/-- Statistics of fixed-length byte arrays are not used. -/
def usable : PhysicalValue → Bool
  | .fixedLenByteArray _ => false
  | _ => true

end PhysicalValue

namespace ParquetStats

variable (parse : ParseF64) (s : ParquetStats)

/-- `has_stats` -/
def hasStats : Bool := s.min.any PhysicalValue.usable || s.max.any PhysicalValue.usable

/-- The bounds, if both are there and convert. -/
def bounds {α : Type} (conv : PhysicalValue → Option α) : Option (α × α) :=
  (s.min.bind conv).bind fun lo => (s.max.bind conv).map fun hi => (lo, hi)

/-- `extract_min_max_as_f64` -/
def extractMinMaxAsF64 : Option (Double × Double) := s.bounds (PhysicalValue.asF64 parse)

/-- `extract_min_max_as_str` -/
def extractMinMaxAsStr : Option (String × String) := s.bounds PhysicalValue.asText

end ParquetStats

/-! ### The check -/

/-- The comparison of the bounds of a row group with the filter: `conv` gives the values of the
filter that are compared at all. -/
def QueryFilter.overlaps {α : Type} (conv : Value → Option α) (cmp : α → α → Option Ordering)
    (f : QueryFilter) (lo hi : α) : Bool :=
  let tooSmall := (f.min.bind conv).any fun b =>
    cmp hi b == some .lt || (!f.minInclusive && cmp hi b == some .eq)
  let tooLarge := (f.max.bind conv).any fun b =>
    cmp lo b == some .gt || (!f.maxInclusive && cmp lo b == some .eq)
  let possible := f.values.all fun vs => vs.any fun v => (conv v).any fun b =>
    !(cmp lo b == some .gt || cmp hi b == some .lt)
  !tooSmall && !tooLarge && possible

def compareText (s t : String) : Option Ordering := some (compare s t)

/-- `row_group_might_match_condition` -/
def rowGroupMightMatchCondition (parse : ParseF64) (s : ParquetStats) (f : QueryFilter) : Bool :=
  match s.extractMinMaxAsF64 parse with
  | some (lo, hi) => f.overlaps Value.asF64 Double.partialCmp lo hi
  | none =>
    match s.extractMinMaxAsStr with
    | some (lo, hi) => f.overlaps Value.asStr compareText lo hi
    | none => true

/-- A leaf column of the Parquet schema: columns of nested types have a longer path. -/
structure ParquetColumn where
  path : List String
  type : DataType
  deriving DecidableEq

def ParquetColumn.name (col : ParquetColumn) : String := col.path.getLastD ""

structure RowGroupMeta where
  numRows : ℕ
  /-- The statistics of a leaf column, by its position. -/
  statistics : ℕ → Option ParquetStats

/-- One condition of `prune_row_groups`. -/
def RowGroupMeta.mightMatch (parse : ParseF64) (columns : List ParquetColumn) (rg : RowGroupMeta)
    (f : QueryFilter) : Bool :=
  match columns.findIdx? (·.name == f.column) with
  | none => true
  | some pos =>
    match rg.statistics pos with
    | none => true
    | some s =>
      if rg.numRows ≤ s.nullCount.getD 0 then false
      else !(s.hasStats && !rowGroupMightMatchCondition parse s f)

/-- `prune_row_groups` -/
def pruneRowGroups (parse : ParseF64) (columns : List ParquetColumn) (groups : List RowGroupMeta)
    (conditions : List QueryFilter) : List ℕ :=
  (List.range groups.length).filter fun i =>
    (groups[i]?).all fun rg => conditions.all (rg.mightMatch parse columns)

end BenoStreamDB

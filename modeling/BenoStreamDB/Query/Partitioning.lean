import BenoStreamDB.Query.Filters
import BenoStreamDB.Segment.Parquet

/-!
# Partitioning

`IcebergTransform` and `PartitionSpec::partition_batch`: a batch is split into one file for each
vector of partition values. The values are stored under the names of the partition fields, and
`classify_condition` compares a filter on a column with the value stored under the column's name,
whatever the transform of the field is.
-/

namespace BenoStreamDB

/-! ### Transforms -/

inductive IcebergTransform where
  | identity
  | bucket (n : ℕ)
  | truncate (w : ℕ)
  | year
  | month
  | day
  | hour
  | void
  deriving DecidableEq

/-- The crates that transforms call. -/
structure TransformLib where
  /-- `murmur3_32` -/
  murmur3 : List UInt8 → ℕ → ℕ
  /-- Year and month of a number of days since 1970, as chrono gives them. -/
  dateOfDays : ℤ → Option (ℤ × ℤ)
  /-- Year and month of a number of seconds since 1970. -/
  dateOfSeconds : ℤ → Option (ℤ × ℤ)

/-- Crates for columns that are no dates and are not hashed. -/
def noDatesLib : TransformLib := ⟨fun _ _ => 0, fun _ => none, fun _ => none⟩

namespace IcebergTransform

/-- `char::is_whitespace` -/
def isWhitespace (c : Char) : Bool :=
  let n := c.toNat
  (9 ≤ n && n ≤ 13) || n == 0x20 || n == 0x85 || n == 0xA0 || n == 0x1680 ||
    (0x2000 ≤ n && n ≤ 0x200A) || n == 0x2028 || n == 0x2029 || n == 0x202F || n == 0x205F ||
    n == 0x3000

def trimEndWhile (p : Char → Bool) (s : List Char) : List Char :=
  (s.reverse.dropWhile p).reverse

def trim (s : List Char) : List Char := trimEndWhile isWhitespace (s.dropWhile isWhitespace)

/-- `trim_start_matches`: the pattern is removed as often as the text starts with it. -/
def trimStartMatches (pattern : List Char) : ℕ → List Char → List Char
  | 0, s => s
  | fuel + 1, s =>
    if pattern.isPrefixOf s then trimStartMatches pattern fuel (s.drop pattern.length) else s

/-- `str::parse::<u32>` -/
def parseU32 (s : List Char) : Option ℕ :=
  let digits := match s with
    | '+' :: rest => rest
    | _ => s
  if digits.isEmpty || !digits.all Char.isDigit then none
  else
    let n := digits.foldl (fun n c => 10 * n + (c.toNat - '0'.toNat)) 0
    if n < 2 ^ 32 then some n else none

/-- The number in `name[N]` or `name(N)`; 0 if there is none. -/
def parseArgument (name lower : List Char) : ℕ :=
  let rest := trimStartMatches (name ++ ['[']) lower.length lower
  let rest := trimStartMatches (name ++ ['(']) lower.length rest
  (parseU32 (trimEndWhile (· == ')') (trimEndWhile (· == ']') rest))).getD 0

def startsCall (name lower : List Char) : Bool :=
  (name ++ ['[']).isPrefixOf lower || (name ++ ['(']).isPrefixOf lower

/-- `IcebergTransform::parse` -/
def parse (s : String) : IcebergTransform :=
  let lower := (trim s.toList).map Char.toLower
  if lower = "identity".toList then .identity
  else if lower = "year".toList then .year
  else if lower = "month".toList then .month
  else if lower = "day".toList then .day
  else if lower = "hour".toList then .hour
  else if lower = "void".toList then .void
  else if startsCall "bucket".toList lower then .bucket (parseArgument "bucket".toList lower)
  else if startsCall "truncate".toList lower then
    .truncate (parseArgument "truncate".toList lower)
  else .void

/-- `i64::to_le_bytes` -/
def leBytes (i : ℤ) : List UInt8 :=
  (List.range 8).map fun k => UInt8.ofNat ((i % 2 ^ 64).toNat / 256 ^ k % 256)

/-- `&s[..n]`: slicing inside of a character panics. -/
def byteSlice : ℕ → List Char → Except String (List Char)
  | 0, _ => .ok []
  | _, [] => .ok []
  | n + 1, c :: s =>
    if c.utf8Size ≤ n + 1 then (c :: ·) <$> byteSlice (n + 1 - c.utf8Size) s
    else .error "byte index is not a char boundary"

/-- `v - v % w` for integers of `bits` bits: a divisor of zero panics, and so does the one remainder
that overflows. -/
def truncateInt (bits : ℕ) (w v : ℤ) : Except String Value :=
  if w = 0 then .error "attempt to calculate the remainder with a divisor of zero"
  else if w = -1 ∧ v = -2 ^ (bits - 1) then
    .error "attempt to calculate the remainder with overflow"
  else .ok (.int (v - v.tmod w))

variable (lib : TransformLib)

/-- The hash of one value; columns of another type hash to 0. -/
def fieldHash (seed : ℕ) : DataType → Cell → ℕ
  | .int32, .int i | .int64, .int i => lib.murmur3 (leBytes i) seed
  | .utf8, .string s | .largeUtf8, .string s | .utf8View, .string s =>
    lib.murmur3 s.toUTF8.data.toList seed
  | .date32, .temporal _ i => lib.murmur3 (leBytes i) seed
  | _, _ => 0

/-- Year and month of a date or of a timestamp in microseconds. -/
def yearMonth : DataType → Cell → Option (ℤ × ℤ)
  | .date32, .temporal _ i => lib.dateOfDays i
  | .timestamp .microsecond, .temporal _ i => lib.dateOfSeconds (i.tdiv 1000000)
  | _, _ => none

/-- The transform of values that are not NULL; an error is a panic. -/
def applyCells : IcebergTransform → List (DataType × Cell) → Except String Value
  | _, [] => .ok .null
  | .identity, (t, c) :: _ => .ok <| match t, c with
    | .int32, .int i | .int64, .int i => .int i
    | .utf8, .string s | .largeUtf8, .string s | .utf8View, .string s => .string s
    | .date32, .temporal _ i | .timestamp .microsecond, .temporal _ i => .int i
    | _, _ => .null
  | .bucket n, cells =>
    let hash := cells.foldl (fun seed tc => fieldHash lib seed tc.1 tc.2) 0
    if n = 0 then .error "attempt to calculate the remainder with a divisor of zero"
    else .ok (.int ((hash % 2 ^ 31 % n : ℕ) : ℤ))
  | .truncate w, (t, c) :: _ => match t, c with
    | .utf8, .string s | .largeUtf8, .string s | .utf8View, .string s =>
      (fun p => .string (String.ofList p)) <$> byteSlice w s.toList
    | .int32, .int i => truncateInt 32 (wrapSigned 32 w) i
    | .int64, .int i => truncateInt 64 w i
    | _, _ => .ok .null
  | .year, (t, c) :: _ => .ok <| match yearMonth lib t c with
    | some (y, _) => .int (y - 1970)
    | none => .null
  | .month, (t, c) :: _ => .ok <| match yearMonth lib t c with
    | some (y, m) => .int ((y - 1970) * 12 + m - 1)
    | none => .null
  | .day, (t, c) :: _ => .ok <| match t, c with
    | .date32, .temporal _ i => .int i
    | .timestamp .microsecond, .temporal _ i => .int (i.tdiv (1000000 * 60 * 60 * 24))
    | _, _ => .null
  | .hour, (t, c) :: _ => .ok <| match t, c with
    | .timestamp .microsecond, .temporal _ i => .int (i.tdiv (1000000 * 60 * 60))
    | _, _ => .null
  | .void, _ => .ok .null

/-- `apply_multi`: NULL if one of the values is NULL. -/
def applyMulti (tr : IcebergTransform) (values : List (DataType × Option Cell)) :
    Except String Value :=
  if values.any (·.2.isNone) then .ok .null
  else tr.applyCells lib (values.filterMap fun tv => tv.2.map (tv.1, ·))

@[simp]
lemma applyMulti_singleton (tr : IcebergTransform) (t : DataType) (c : Cell) :
    tr.applyMulti lib [(t, some c)] = tr.applyCells lib [(t, c)] := rfl

end IcebergTransform

/-! ### Splitting a batch -/

/-- `get_source_ids` -/
def PartitionField.getSourceIds (field : PartitionField) : List ℤ :=
  if field.sourceIds.isEmpty then field.sourceId.toList else field.sourceIds

/-- The columns of a partition field: the one of its name, or else those of its source ids. -/
def PartitionField.sourceColumns (field : PartitionField) (cols : List BatchField) :
    List BatchField :=
  match cols.find? (·.name == field.name) with
  | some col => [col]
  | none => field.getSourceIds.filterMap fun id => cols.find? (·.icebergId == some id)

/-- The partition value of a row for one field. -/
def PartitionField.keyOf (lib : TransformLib) (cols : List BatchField) (row : Row)
    (field : PartitionField) : Except String Value :=
  let source := field.sourceColumns cols
  if source.isEmpty then
    .error ("Cannot find source column for partition field '" ++ field.name ++
      "'. Ensure the column exists in the batch or is named correctly.")
  else (IcebergTransform.parse field.transform).applyMulti lib
    (source.map fun col => (col.type, row col.name))

namespace PartitionSpec

/-- The partition key of a row. -/
def keyOf (lib : TransformLib) (cols : List BatchField) (row : Row) :
    List PartitionField → Except String (List Value)
  | [] => .ok []
  | field :: fields => do
    let v ← field.keyOf lib cols row
    let vs ← keyOf lib cols row fields
    .ok (v :: vs)

/-- The rows with their keys. -/
def keyed (spec : PartitionSpec) (lib : TransformLib) (cols : List BatchField) :
    List Row → Except String (List (List Value × Row))
  | [] => .ok []
  | row :: rows => do
    let key ← keyOf lib cols row spec.fields
    let rest ← keyed spec lib cols rows
    .ok ((key, row) :: rest)

/-- The partition values of a key; of two fields with one name the later counts. -/
def valuesOf (fields : List PartitionField) (key : List Value) : PartitionValues :=
  (fields.zip key).foldl (fun m fv => m.insert fv.1.name fv.2) ∅

/-- `partition_batch`: the groups come in the order of a hash map, here in one such order. -/
def partitionBatch (spec : PartitionSpec) (lib : TransformLib) (batch : Batch) :
    Except String (List (PartitionValues × List Row)) :=
  if spec.fields.isEmpty then .ok [(∅, batch.rows)]
  else do
    let rows ← spec.keyed lib batch.fields batch.rows
    .ok ((rows.map Prod.fst).dedup.map fun key =>
      (valuesOf spec.fields key, (rows.filter (·.1 == key)).map Prod.snd))

variable {lib : TransformLib} {cols : List BatchField} {spec : PartitionSpec}

lemma keyOf_cons_eq_ok {row : Row} {field : PartitionField} {fields : List PartitionField}
    {key : List Value} : keyOf lib cols row (field :: fields) = .ok key ↔
      ∃ v vs, field.keyOf lib cols row = .ok v ∧ keyOf lib cols row fields = .ok vs ∧
        v :: vs = key := by
  cases hv : field.keyOf lib cols row with
  | error msg => simp [keyOf, hv, bind, Except.bind]
  | ok v => cases hvs : keyOf lib cols row fields <;> simp [keyOf, hv, hvs, bind, Except.bind]

lemma keyed_cons_eq_ok {row : Row} {rows : List Row} {pairs : List (List Value × Row)} :
    spec.keyed lib cols (row :: rows) = .ok pairs ↔
      ∃ key rest, keyOf lib cols row spec.fields = .ok key ∧
        spec.keyed lib cols rows = .ok rest ∧ (key, row) :: rest = pairs := by
  cases hkey : keyOf lib cols row spec.fields with
  | error msg => simp [keyed, hkey, bind, Except.bind]
  | ok key =>
    cases hrest : spec.keyed lib cols rows <;> simp [keyed, hkey, hrest, bind, Except.bind]

/-- Each value of a key is the one of the field at its place. -/
lemma keyOf_of_mem_zip {row : Row} {fields : List PartitionField} {key : List Value}
    (h : keyOf lib cols row fields = .ok key) {field : PartitionField} {v : Value}
    (hmem : (field, v) ∈ fields.zip key) : field.keyOf lib cols row = .ok v := by
  induction fields generalizing key with
  | nil => simp at hmem
  | cons field' fields ih =>
    obtain ⟨v', vs, hv, hvs, rfl⟩ := keyOf_cons_eq_ok.1 h
    rcases List.mem_cons.1 (List.zip_cons_cons ▸ hmem) with heq | hmem
    · obtain ⟨rfl, rfl⟩ := Prod.mk.inj heq
      exact hv
    · exact ih hvs hmem

lemma keyOf_of_mem_keyed {rows : List Row} {pairs : List (List Value × Row)}
    (h : spec.keyed lib cols rows = .ok pairs) {key : List Value} {row : Row}
    (hmem : (key, row) ∈ pairs) : row ∈ rows ∧ keyOf lib cols row spec.fields = .ok key := by
  induction rows generalizing pairs with
  | nil =>
    obtain rfl : [] = pairs := by simpa [keyed] using h
    simp at hmem
  | cons row' rows ih =>
    obtain ⟨key', rest, hkey, hrest, rfl⟩ := keyed_cons_eq_ok.1 h
    rcases List.mem_cons.1 hmem with heq | hmem
    · obtain ⟨rfl, rfl⟩ := Prod.mk.inj heq
      exact ⟨List.mem_cons_self, hkey⟩
    · obtain ⟨hrow, hk⟩ := ih hrest hmem
      exact ⟨List.mem_cons_of_mem _ hrow, hk⟩

/-- A stored partition value is the one of a field with that name. -/
lemma mem_zip_of_lookup_valuesOf {fields : List PartitionField} {key : List Value} {name : String}
    {v : Value} (h : (valuesOf fields key).lookup name = some v) :
    ∃ field, (field, v) ∈ fields.zip key ∧ field.name = name := by
  -- The fold inserts from the left, so the induction is on the list from its end.
  suffices hfold : ∀ (pairs : List (PartitionField × Value)),
      (pairs.foldl (fun m fv => m.insert fv.1.name fv.2) (∅ : PartitionValues)).lookup name =
        some v → ∃ field, (field, v) ∈ pairs ∧ field.name = name by
    exact hfold _ h
  intro pairs
  induction pairs using List.reverseRecOn with
  | nil => simp
  | append_singleton pairs p ih =>
    rw [List.foldl_append, List.foldl_cons, List.foldl_nil]
    by_cases hname : p.1.name = name
    · rw [← hname, Finmap.lookup_insert, Option.some.injEq]
      rintro rfl
      exact ⟨p.1, by simp, rfl⟩
    · rw [Finmap.lookup_insert_of_ne _ (Ne.symm hname)]
      intro hlookup
      obtain ⟨field, hmem, hfield⟩ := ih hlookup
      exact ⟨field, by simp [hmem], hfield⟩

lemma mem_valuesOf {fields : List PartitionField} {key : List Value}
    (hlength : key.length = fields.length) {name : String} :
    name ∈ valuesOf fields key ↔ name ∈ fields.map PartitionField.name := by
  have hfold : ∀ pairs : List (PartitionField × Value),
      name ∈ pairs.foldl (fun m fv => m.insert fv.1.name fv.2) (∅ : PartitionValues) ↔
        name ∈ (pairs.map Prod.fst).map PartitionField.name := by
    intro pairs
    induction pairs using List.reverseRecOn with
    | nil => simp [Finmap.notMem_empty]
    | append_singleton pairs p ih =>
      rw [List.foldl_append, List.foldl_cons, List.foldl_nil, Finmap.mem_insert, ih]
      simp [or_comm]
  rw [valuesOf, hfold, List.map_fst_zip hlength.ge]

/-- What a file of the split says about its rows: a partition value is the transform of each. -/
lemma keyOf_of_partitionBatch {batch : Batch} {files : List (PartitionValues × List Row)}
    (h : spec.partitionBatch lib batch = .ok files) {file : PartitionValues × List Row}
    (hfile : file ∈ files) {row : Row} (hrow : row ∈ file.2) :
    row ∈ batch.rows ∧ ∀ name v, file.1.lookup name = some v →
      ∃ field ∈ spec.fields, field.name = name ∧ field.keyOf lib batch.fields row = .ok v := by
  by_cases hempty : spec.fields.isEmpty = true
  · obtain rfl : [(∅, batch.rows)] = files := by simpa [partitionBatch, hempty] using h
    obtain rfl := List.mem_singleton.1 hfile
    exact ⟨hrow, by simp⟩
  · cases hpairs : spec.keyed lib batch.fields batch.rows with
    | error msg => simp [partitionBatch, hempty, hpairs, bind, Except.bind] at h
    | ok pairs =>
      have hfiles : (pairs.map Prod.fst).dedup.map (fun key =>
          (valuesOf spec.fields key, (pairs.filter (·.1 == key)).map Prod.snd)) = files := by
        simpa [partitionBatch, hempty, hpairs, bind, Except.bind] using h
      rw [← hfiles] at hfile
      obtain ⟨key, -, rfl⟩ := List.mem_map.1 hfile
      obtain ⟨⟨key', row'⟩, hpair, rfl⟩ := List.mem_map.1 hrow
      obtain ⟨hmem, hkey⟩ := List.mem_filter.1 hpair
      obtain rfl : key' = key := by simpa using hkey
      obtain ⟨hrow', hk⟩ := keyOf_of_mem_keyed hpairs hmem
      refine ⟨hrow', ?_⟩
      intro name v hv
      obtain ⟨field, hzip, hname⟩ := mem_zip_of_lookup_valuesOf hv
      exact ⟨field, (List.of_mem_zip hzip).1, hname, keyOf_of_mem_zip hk hzip⟩

end PartitionSpec

/-! ### Filters -/

namespace QueryFilter

variable {S : Semantics} {f : QueryFilter} {row : Row}

variable (S f)

/-- Each bound of the filter is met, as JSON, by what is on the far side of an accepted value. -/
structure FaithfulOn (t : DataType) : Prop where
  min : f.values = none → ∀ m, f.min = some m →
    KeptAbove t (f.Accepts S) (fun _ d x => x = d.toJson) (·.compareValues m) f.minInclusive
  max : f.values = none → ∀ m, f.max = some m →
    KeptBelow t (f.Accepts S) (fun _ d x => x = d.toJson) (·.compareValues m) f.maxInclusive
  /-- The bounds are implied by the list of values. -/
  values : ∀ vs, f.values = some vs → ∀ v ∈ vs,
    SameForm t (f.sqlCompare S v) v ∧ f.below v = false ∧ f.above v = false

/-- The transform gives the value itself, or one that is only moved away from the bounds that the
filter has. -/
def Aligned (lib : TransformLib) (tr : IcebergTransform) (t : DataType) : Prop :=
  ∀ c, t.Holds c → ∀ v, tr.applyCells lib [(t, c)] = .ok v → ∃ d, t.Holds d ∧ v = d.toJson ∧
    (f.min.isSome → c.Le d) ∧ (f.max.isSome → d.Le c) ∧ (f.values.isSome → d = c)

/-- The transform gives values of another kind than the bounds, which are never compared. -/
def Incomparable (lib : TransformLib) (tr : IcebergTransform) (t : DataType) : Prop :=
  f.values = none ∧ ∀ c, t.Holds c → ∀ v, tr.applyCells lib [(t, c)] = .ok v →
    (∀ m, f.min = some m → v.compareValues m = none) ∧
      ∀ m, f.max = some m → v.compareValues m = none

/-- Every partition field with the name of the filter's column is harmless. -/
def KeepsPartitions (lib : TransformLib) (spec : PartitionSpec) (cols : List BatchField) : Prop :=
  f.negated = true ∨ ∀ field ∈ spec.fields, field.name = f.column →
    ∀ col ∈ cols, col.name = f.column →
      (f.FaithfulOn S col.type ∧ f.Aligned lib (.parse field.transform) col.type) ∨
        f.Incomparable lib (.parse field.transform) col.type

variable {S f} {lib : TransformLib} {tr : IcebergTransform} {t : DataType} {c : Cell} {v : Value}

/-- A value that the filter accepts passes the check with its transform. -/
lemma partitionCheck_of_aligned (hfaithful : f.FaithfulOn S t) (haligned : f.Aligned lib tr t)
    (hneg : f.negated = false) (hc : row f.column = some c) (htype : t.Holds c)
    (hv : tr.applyCells lib [(t, c)] = .ok v) (hsat : S.Satisfies row f.toExpr) :
    f.partitionCheck v = none := by
  obtain ⟨d, hd, rfl, hmin, hmax, hvalues⟩ := haligned c htype v hv
  cases hvs : f.values with
  | some vs =>
    obtain rfl : d = c := hvalues (by simp [hvs])
    obtain ⟨w, hw, c', hc', heq⟩ := exists_eq_of_satisfies hneg hvs hsat
    obtain rfl : d = c' := by simpa [hc] using hc'
    obtain ⟨hform, hbelow, habove⟩ := hfaithful.values vs hvs w hw
    rw [hform htype heq]
    refine partitionCheck_eq_none_iff.2 ⟨hbelow, habove, ?_⟩
    intro vs' hvs'
    obtain rfl : vs = vs' := by simpa [hvs] using hvs'
    exact hw
  | none =>
    have haccepts : f.Accepts S c := accepts_of_satisfies hc hsat
    refine partitionCheck_eq_none_iff.2 ⟨?_, ?_, by simp [hvs]⟩
    · cases hm : f.min with
      | none => exact below_of_none hm
      | some m =>
        exact (below_eq_false hm).2 (hfaithful.min hvs m hm c d _ htype haccepts hd
          (hmin (by simp [hm])) rfl)
    · cases hm : f.max with
      | none => exact above_of_none hm
      | some m =>
        exact (above_eq_false hm).2 (hfaithful.max hvs m hm c d _ htype haccepts hd
          (hmax (by simp [hm])) rfl)

lemma partitionCheck_of_incomparable (h : f.Incomparable lib tr t) (htype : t.Holds c)
    (hv : tr.applyCells lib [(t, c)] = .ok v) : f.partitionCheck v = none := by
  obtain ⟨hvs, hnone⟩ := h
  obtain ⟨hmin, hmax⟩ := hnone c htype v hv
  refine partitionCheck_eq_none_iff.2 ⟨?_, ?_, by simp [hvs]⟩
  · cases hm : f.min with
    | none => exact below_of_none hm
    | some m => simp [below, hm, hmin m hm]
  · cases hm : f.max with
    | none => exact above_of_none hm
    | some m => simp [above, hm, hmax m hm]

/-- A filter that a row with NULL satisfies has nothing to check. -/
lemma partitionCheck_of_null (hneg : f.negated = false) (hc : row f.column = none)
    (hsat : S.Satisfies row f.toExpr) : f.partitionCheck v = none := by
  cases hvs : f.values with
  | some vs =>
    obtain ⟨w, hw, c', hc', -⟩ := exists_eq_of_satisfies hneg hvs hsat
    simp [hc] at hc'
  | none =>
    obtain ⟨hlow, hhigh⟩ := bounds_of_satisfies hneg hvs hsat
    have hmin : f.min = none := by
      by_contra hsome
      obtain ⟨m, hm⟩ := Option.ne_none_iff_exists'.1 hsome
      obtain ⟨c', hc', -⟩ := hlow m hm
      simp [hc] at hc'
    have hmax : f.max = none := by
      by_contra hsome
      obtain ⟨m, hm⟩ := Option.ne_none_iff_exists'.1 hsome
      obtain ⟨c', hc', -⟩ := hhigh m hm
      simp [hc] at hc'
    exact partitionCheck_eq_none_iff.2 ⟨below_of_none hmin, above_of_none hmax, by simp [hvs]⟩

end QueryFilter

/-- The reason comes from the statistics of the file, not from its partition values. -/
def PruneReason.isStats : PruneReason → Bool
  | .partitionBelowMin | .partitionAboveMax | .partitionNotInList => false
  | .statsAllNull | .statsBelowMin | .statsAboveMax | .statsNotInList => true

lemma QueryFilter.isStats_of_statsCheck {f : QueryFilter} {s : ColumnStats} {n : ℤ}
    {reason : PruneReason} (h : f.statsCheck s n = some reason) : reason.isStats = true := by
  by_cases hnull : s.nullCount = n
  · obtain rfl : PruneReason.statsAllNull = reason := by simpa [statsCheck, hnull] using h
    rfl
  by_cases hbelow : (s.max.any fun m => f.below m.toJsonValue) = true
  · obtain rfl : PruneReason.statsBelowMin = reason := by simpa [statsCheck, hnull, hbelow] using h
    rfl
  by_cases habove : (s.min.any fun m => f.above m.toJsonValue) = true
  · obtain rfl : PruneReason.statsAboveMax = reason := by
      simpa [statsCheck, hnull, hbelow, habove] using h
    rfl
  simp only [statsCheck, hnull, hbelow, habove, if_false] at h
  cases hvs : f.values with
  | none => simp [hvs] at h
  | some vs =>
    simp only [hvs] at h
    split_ifs at h
    all_goals
      cases h
      rfl

/-- The partition check is the only source of the other reasons. -/
lemma isStats_of_classifyCondition {entry : ScanEntry} {f : QueryFilter} {reason : PruneReason}
    (hcheck : (entry.partitionValues.lookup f.column).bind f.partitionCheck = none)
    (h : classifyCondition entry f = some reason) : reason.isStats = true := by
  by_cases hneg : f.negated = true
  · simp [classifyCondition, hneg] at h
  · rw [classifyCondition, if_neg hneg, hcheck, Option.none_or] at h
    obtain ⟨s, -, hs⟩ := Option.bind_eq_some_iff.1 h
    exact QueryFilter.isStats_of_statsCheck hs

/-- A file with a row that satisfies the filter is not pruned by its partition values. -/
theorem isStats_of_satisfies (S : Semantics) (lib : TransformLib) (spec : PartitionSpec)
    (batch : Batch) (files : List (PartitionValues × List Row))
    (hsplit : spec.partitionBatch lib batch = .ok files) (f : QueryFilter)
    (hkeeps : f.KeepsPartitions S lib spec batch.fields) (file : PartitionValues × List Row)
    (hfile : file ∈ files) (row : Row) (hrow : row ∈ file.2) (hsat : S.Satisfies row f.toExpr)
    (entry : ScanEntry) (hentry : entry.partitionValues = file.1) (reason : PruneReason)
    (hreason : classifyCondition entry f = some reason) : reason.isStats = true := by
  cases hneg : f.negated with
  | true => simp [classifyCondition, hneg] at hreason
  | false =>
    apply isStats_of_classifyCondition _ hreason
    rw [hentry, Option.bind_eq_none_iff]
    intro v hv
    obtain ⟨hbatch, hfields⟩ := PartitionSpec.keyOf_of_partitionBatch hsplit hfile hrow
    obtain ⟨field, hfield, hname, hkey⟩ := hfields _ v hv
    cases hc : row f.column with
    | none => exact QueryFilter.partitionCheck_of_null hneg hc hsat
    | some c =>
      -- The row has a value for the column, so the field finds its source by name.
      have hfind : (batch.fields.find? (·.name == field.name)).isSome := by
        by_contra hnone
        have hclosed := batch.closed row hbatch f.column (by simpa [hname] using hnone)
        simp [hclosed] at hc
      obtain ⟨col, hcol⟩ := Option.isSome_iff_exists.1 hfind
      have hmem := List.mem_of_find?_eq_some hcol
      have hcolname : col.name = f.column := by
        have := List.find?_some hcol
        simpa [hname] using this
      have htype : col.type.Holds c := batch.typed row hbatch col hmem c (by rw [hcolname, hc])
      have happly : (IcebergTransform.parse field.transform).applyCells lib [(col.type, c)] =
          .ok v := by
        simpa [PartitionField.keyOf, PartitionField.sourceColumns, hcol, hcolname, hc] using hkey
      rcases (hkeeps.resolve_left (by simp [hneg])) field hfield hname col hmem hcolname with
        ⟨hfaithful, haligned⟩ | hinc
      · exact QueryFilter.partitionCheck_of_aligned hfaithful haligned hneg hc htype happly hsat
      · exact QueryFilter.partitionCheck_of_incomparable hinc htype happly

/-! ### Examples -/

/-- A batch with the one row `category = 'a'`. -/
def categoryRow : Row
  | "category" => some (.string "a")
  | _ => none

lemma eq_of_categoryRow {name : String} {c : Cell} (h : categoryRow name = some c) :
    name = "category" ∧ c = .string "a" := by
  by_cases hname : name = "category"
  · subst hname
    exact ⟨rfl, by simpa [categoryRow, eq_comm] using h⟩
  · simp [categoryRow] at h

def categoryBatch : Batch where
  fields := [{ name := "category", type := .utf8 }]
  rows := [categoryRow]
  distinct := by simp
  typed := by
    intro row hrow col hcol c hc
    obtain rfl := List.mem_singleton.1 hrow
    obtain rfl := List.mem_singleton.1 hcol
    obtain ⟨-, rfl⟩ := eq_of_categoryRow hc
    trivial
  closed := by
    intro row hrow name hname
    obtain rfl := List.mem_singleton.1 hrow
    by_contra hsome
    obtain ⟨c, hc⟩ := Option.ne_none_iff_exists'.1 hsome
    exact hname _ List.mem_cons_self (eq_of_categoryRow hc).1.symm

/-- Partitioned by `category`, under the given transform. -/
def categorySpec (transform : String) : PartitionSpec where
  fields := [⟨[1], none, none, "category", transform⟩]

/-- `category = 'a'` -/
def categoryFilter : QueryFilter := .ofComparison "category" .eq (.string "a")

lemma partitionBatch_categorySpec (lib : TransformLib) (transform : String) {v : Value}
    (h : (IcebergTransform.parse transform).applyCells lib [(.utf8, .string "a")] = .ok v) :
    (categorySpec transform).partitionBatch lib categoryBatch =
      .ok [((∅ : PartitionValues).insert "category" v, [categoryRow])] := by
  have hkey : PartitionSpec.keyOf lib categoryBatch.fields categoryRow
      (categorySpec transform).fields = .ok [v] := by
    simp [PartitionSpec.keyOf, PartitionField.keyOf, PartitionField.sourceColumns, categoryBatch,
      categorySpec, categoryRow, h, bind, Except.bind]
  simp [PartitionSpec.partitionBatch, PartitionSpec.keyed, PartitionSpec.valuesOf, categorySpec,
    categoryBatch] at hkey ⊢
  simp [hkey, bind, Except.bind]

lemma categoryFilter_keepsPartitions (lib : TransformLib) :
    categoryFilter.KeepsPartitions numericSemantics lib (categorySpec "identity")
      categoryBatch.fields := by
  have hstring (c : Cell) (hc : DataType.utf8.Holds c) : ∃ r, c = .string r := by
    cases c <;> simp_all [DataType.Holds]
  right
  intro field hfield hname col hcol hcolname
  obtain rfl := List.mem_singleton.1 hfield
  obtain rfl := List.mem_singleton.1 hcol
  left
  constructor
  · constructor
    · intro hvs
      cases hvs
    · intro hvs
      cases hvs
    · rintro vs ⟨⟩ v hv
      obtain rfl := List.mem_singleton.1 hv
      exact ⟨SameForm.of_string numericCast "a" hstring, by decide, by decide⟩
  · intro c hc v hv
    obtain ⟨r, rfl⟩ := hstring c hc
    have hparse : IcebergTransform.parse "identity" = .identity := by decide
    obtain rfl : Value.string r = v := by
      simpa [hparse, IcebergTransform.applyCells] using hv
    exact ⟨.string r, trivial, rfl, fun _ => .refl _, fun _ => .refl _, fun _ => rfl⟩

theorem isStats_categoryFilter :
    numericSemantics.Satisfies categoryRow categoryFilter.toExpr ∧
      ∀ lib : TransformLib,
        (categorySpec "identity").partitionBatch lib categoryBatch =
          .ok [((∅ : PartitionValues).insert "category" (.string "a"), [categoryRow])] ∧
        ∀ (entry : ScanEntry) (reason : PruneReason),
          entry.partitionValues = (∅ : PartitionValues).insert "category" (.string "a") →
            classifyCondition entry categoryFilter = some reason → reason.isStats = true := by
  refine ⟨by decide, ?_⟩
  intro lib
  have hparse : IcebergTransform.parse "identity" = .identity := by decide
  have hsplit := partitionBatch_categorySpec lib "identity" (by rw [hparse]; rfl)
  refine ⟨hsplit, ?_⟩
  intro entry reason hentry hreason
  exact isStats_of_satisfies numericSemantics lib (categorySpec "identity") categoryBatch _ hsplit
    categoryFilter (categoryFilter_keepsPartitions lib) _ List.mem_cons_self categoryRow
    List.mem_cons_self (by decide) entry hentry reason hreason

/-- With buckets the stored value is a number, which the list `['a']` does not have: the only file
is pruned, whatever the hash is. -/
theorem categoryFilter_pruned :
    numericSemantics.Satisfies categoryRow categoryFilter.toExpr ∧
      ∀ lib : TransformLib, ∃ values : PartitionValues,
        (categorySpec "bucket[8]").partitionBatch lib categoryBatch =
          .ok [(values, [categoryRow])] ∧
        ∀ entry : ScanEntry, entry.partitionValues = values →
          classifyCondition entry categoryFilter = some .partitionNotInList := by
  refine ⟨by decide, ?_⟩
  intro lib
  have hparse : IcebergTransform.parse "bucket[8]" = .bucket 8 := by decide
  refine ⟨_, partitionBatch_categorySpec lib _ (by rw [hparse]; rfl), ?_⟩
  intro entry hentry
  rw [classifyCondition, hentry]
  simp [categoryFilter, QueryFilter.ofComparison, QueryFilter.partitionCheck, QueryFilter.below,
    QueryFilter.above, Value.compareValues]

end BenoStreamDB

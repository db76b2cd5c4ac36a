import BenoStreamDB.Foundations.Failing
import BenoStreamDB.Query.Partitioning
import BenoStreamDB.Table.Curves
import Mathlib.Data.Rat.Floor

/-!
# Clustering in a compaction

`compact_bin` (`compaction.rs`) sorts the rows of each partition by their position on a curve and
records on the new entry the scores of a first and of a last row. The scores are those of the rows
before they are sorted, so they bound the file only if the rows came in such an order:
`boundsScores_iff`.

A coordinate is the place of a value between the least and the greatest value of its column, as an
integer of `64 / n` bits for `n` columns. With one column this is as wide as a word, and the largest
coordinate is computed with a shift by the word size, which fails in builds with overflow checks.

The merged batch of a bin is given; writing the new files, their indexes and statistics is left out.
-/

namespace BenoStreamDB

open Word64

/-! ### Normalization -/

/-- How a compaction fails: with an error, or by an arithmetic operation that overflows. -/
inductive ClusterFault where
  | error (message : String)
  | overflow
  deriving DecidableEq

/-- The arithmetic of `f64`, and what arrow does. -/
structure ClusterLib where
  sub : Double → Double → Double
  div : Double → Double → Double
  mul : Double → Double → Double
  /-- `u64 as f64` -/
  ofU64 : ℕ → Double
  /-- `f64 as u64` -/
  toU64 : Double → ℕ
  /-- `sort_to_indices` -/
  sortToIndices : List ℕ → List ℕ
  perm_sortToIndices : ∀ scores, (sortToIndices scores).Perm (List.range scores.length)
  /-- The error of `index_of`. -/
  unknownField : String → String
  /-- The text of a type. -/
  debugType : DataType → String

/-- `<` of numbers of one type. -/
def Cell.numLt : Cell → Cell → Bool
  | .int i, .int j => i < j
  | .float x, .float y => x.ieeeLt y
  | _, _ => false

/-- `as f64` -/
def Cell.toF64 : Cell → Double
  | .int i => .ofInt i
  | .float x => x
  | _ => .num 0

/-- `MAX` and `MIN` of the types that have coordinates. -/
def DataType.extremes : DataType → Option (Cell × Cell)
  | .int32 => some (.int (2 ^ 31 - 1), .int (-2 ^ 31))
  | .int64 => some (.int (2 ^ 63 - 1), .int (-2 ^ 63))
  | .float32 =>
    some (.float (.num ((2 ^ 24 - 1) * 2 ^ 104)), .float (.num (-((2 ^ 24 - 1) * 2 ^ 104))))
  | .float64 =>
    some (.float (.num ((2 ^ 53 - 1) * 2 ^ 971)), .float (.num (-((2 ^ 53 - 1) * 2 ^ 971))))
  | _ => none

/-- The least value of a column, and `MAX` if there is none. -/
def columnMin (top : Cell) (values : List (Option Cell)) : Cell :=
  values.reduceOption.foldl (fun min v => if v.numLt min then v else min) top

/-- The greatest value of a column, and `MIN` if there is none. -/
def columnMax (bottom : Cell) (values : List (Option Cell)) : Cell :=
  values.reduceOption.foldl (fun max v => if max.numLt v then v else max) bottom

/-- The coordinate of a value between `min` and `max`. -/
def coordinate (L : ClusterLib) (maxVal : ℕ) (min max : Cell) : Option Cell → ℕ
  | some v =>
    let range := L.sub max.toF64 min.toF64
    if (Double.num 0).ieeeLt range then
      L.toU64 (L.mul (L.div (L.sub v.toF64 min.toF64) range) (L.ofU64 maxVal))
    else 0
  | none => 0

/-- The result of arithmetic that may overflow. -/
def orOverflow {α : Type} : Option α → Except ClusterFault α
  | some a => .ok a
  | none => .error .overflow

/-- `normalize_to_u64` -/
def normalizeToU64 (L : ClusterLib) (type : DataType) (values : List (Option Cell)) (bits : ℕ) :
    Except ClusterFault (List ℕ × Cell × Cell) := do
  let maxVal ← orOverflow ((shl 1 bits).bind (Word64.sub · 1))
  match type.extremes with
  | some (top, bottom) =>
    let min := columnMin top values
    let max := columnMax bottom values
    .ok (values.map (coordinate L maxVal min max), min, max)
  | none => .error (.error ("Unsupported type for clustering: " ++ L.debugType type))

/-! ### Scores -/

/-- The rows of a chunk, with the columns of the batch. -/
structure Chunk where
  fields : List BatchField
  rows : List Row

namespace Chunk

variable (L : ClusterLib) (chunk : Chunk)

/-- The normalized values of a column. -/
def normalizeColumn (bits : ℕ) (name : String) : Except ClusterFault (List ℕ × Cell × Cell) :=
  match chunk.fields.find? (·.name == name) with
  | some field => normalizeToU64 L field.type (chunk.rows.map fun row => row name) bits
  | none => .error (.error (L.unknownField name))

/-- The scores of the rows, with the bounds of the columns. -/
def computeScores (curve : Curve) (columns : List String) :
    Except ClusterFault (List ℕ × List Cell × List Cell) :=
  if columns.isEmpty then .ok (chunk.rows.map fun _ => 0, [], [])
  else do
    let bitsPerCol := 64 / columns.length
    let normalized ← columns.mapM (chunk.normalizeColumn L bitsPerCol)
    let scores ← (List.range chunk.rows.length).mapM fun i =>
      orOverflow (curve.score bitsPerCol (normalized.map fun col => col.1.getD i 0))
    .ok (scores, normalized.map fun col => col.2.1, normalized.map fun col => col.2.2)

/-- `compute_zorder_scores` -/
def computeZorderScores (columns : List String) := chunk.computeScores L .zorder columns

/-- `compute_hilbert_scores` -/
def computeHilbertScores (columns : List String) := chunk.computeScores L .hilbert columns

/-- The rows in the order of scores. -/
def applyScores (compute : List String → Except ClusterFault (List ℕ × List Cell × List Cell))
    (columns : List String) : Except ClusterFault (List Row) :=
  if columns.isEmpty then .ok chunk.rows
  else do
    let (scores, _, _) ← compute columns
    .ok ((L.sortToIndices scores).filterMap fun i => chunk.rows[i]?)

/-- `apply_zorder` -/
def applyZorder (columns : List String) := chunk.applyScores L (chunk.computeZorderScores L) columns

/-- `apply_hilbert` -/
def applyHilbert (columns : List String) :=
  chunk.applyScores L (chunk.computeHilbertScores L) columns

end Chunk

/-! ### The compaction of a bin -/

structure ClusteringOptions where
  columns : List String
  strategy : String

/-- A new file: its rows, and what the entry says about clustering. -/
structure ClusteredFile where
  rows : List Row
  clusteringStrategy : Option String
  clusteringColumns : Option (List String)
  minClusteringScore : Option ℕ
  maxClusteringScore : Option ℕ
  /-- Stored as JSON values. -/
  normalizationMins : Option (List Cell)
  normalizationMaxs : Option (List Cell)

/-- The file of a chunk whose rows have the scores and are then sorted. -/
def ClusteredFile.record (clustering : ClusteringOptions)
    (scored : List ℕ × List Cell × List Cell) (rows : List Row) : ClusteredFile where
  rows := rows
  clusteringStrategy := some clustering.strategy
  clusteringColumns := some clustering.columns
  minClusteringScore := scored.1.head?
  maxClusteringScore := scored.1.getLast?
  normalizationMins := if scored.1.isEmpty then none else some scored.2.1
  normalizationMaxs := if scored.1.isEmpty then none else some scored.2.2

/-- The clustering of a chunk. -/
def Chunk.cluster (L : ClusterLib) (clustering : Option ClusteringOptions) (chunk : Chunk) :
    Except ClusterFault ClusteredFile :=
  match clustering with
  | none => .ok ⟨chunk.rows, none, none, none, none, none, none⟩
  | some c =>
    if c.strategy = "zorder" then do
      let scored ← chunk.computeZorderScores L c.columns
      let rows ← chunk.applyZorder L c.columns
      .ok (.record c scored rows)
    else if c.strategy = "hilbert" then do
      let scored ← chunk.computeHilbertScores L c.columns
      let rows ← chunk.applyHilbert L c.columns
      .ok (.record c scored rows)
    else .ok ⟨chunk.rows, some c.strategy, some c.columns, none, none, none, none⟩

/-- `compact_bin`, from the merged batch of the bin. -/
def compactBin (L : ClusterLib) (lib : TransformLib) (spec : PartitionSpec)
    (clustering : Option ClusteringOptions) (merged : Batch) :
    Except ClusterFault (List (PartitionValues × ClusteredFile)) :=
  match spec.partitionBatch lib merged with
  | .error message => .error (.error message)
  | .ok chunks => chunks.mapM fun chunk => do
    let file ← Chunk.cluster L clustering ⟨merged.fields, chunk.2⟩
    .ok (chunk.1, file)

/-! ### Bounds of scores -/

def Curve.name : Curve → String
  | .zorder => "zorder"
  | .hilbert => "hilbert"

/-- The coordinates of a row between the bounds of the columns. -/
def coordinates (L : ClusterLib) (columns : List String) (mins maxs : List Cell) (row : Row) :
    List ℕ :=
  List.zipWith (fun name bounds =>
    coordinate L (2 ^ (64 / columns.length) - 1) bounds.1 bounds.2 (row name)) columns
    (mins.zip maxs)

/-- The scores that an entry records bound the scores of all rows of its file. -/
def ClusteredFile.Bounded (L : ClusterLib) (curve : Curve) (columns : List String)
    (file : ClusteredFile) : Prop :=
  ∀ row ∈ file.rows, ∃ min max mins maxs score,
    file.minClusteringScore = some min ∧ file.maxClusteringScore = some max ∧
    file.normalizationMins = some mins ∧ file.normalizationMaxs = some maxs ∧
    curve.score (64 / columns.length) (coordinates L columns mins maxs row) = some score ∧
    min ≤ score ∧ score ≤ max

/-- A compaction does not overflow, and its entries bound the scores of their files. -/
def BoundsScores (L : ClusterLib) (lib : TransformLib) (spec : PartitionSpec) (curve : Curve)
    (columns : List String) (merged : Batch) : Prop :=
  compactBin L lib spec (some ⟨columns, curve.name⟩) merged ≠ .error .overflow ∧
  ∀ files, compactBin L lib spec (some ⟨columns, curve.name⟩) merged = .ok files →
    ∀ file ∈ files, file.2.Bounded L curve columns

namespace Chunk

variable (L : ClusterLib) (chunk : Chunk)

/-- `MAX` and `MIN` of the type of a column, if it has coordinates. -/
def extremes (name : String) : Option (Cell × Cell) :=
  (chunk.fields.find? (·.name == name)).bind (·.type.extremes)

/-- The least and the greatest value of a column. -/
def bounds (name : String) : Cell × Cell :=
  let (top, bottom) := (chunk.extremes name).getD (.int 0, .int 0)
  let values := chunk.rows.map fun row => row name
  (columnMin top values, columnMax bottom values)

/-- The coordinates of a row among the rows of the chunk. -/
def coords (columns : List String) (row : Row) : List ℕ :=
  columns.map fun name => coordinate L (2 ^ (64 / columns.length) - 1) (chunk.bounds name).1
    (chunk.bounds name).2 (row name)

/-- A row comes before another on the curve, or is at the same place. -/
def Precedes (curve : Curve) (columns : List String) (row row' : Row) : Prop :=
  curve.key (64 / columns.length) (chunk.coords L columns row) ≤
    curve.key (64 / columns.length) (chunk.coords L columns row')

instance (curve : Curve) (columns : List String) (row row' : Row) :
    Decidable (chunk.Precedes L curve columns row row') :=
  inferInstanceAs (Decidable (_ ≤ _))

/-- All columns have coordinates. -/
def Scored (columns : List String) : Prop := ∀ name ∈ columns, (chunk.extremes name).isSome

instance (columns : List String) : Decidable (chunk.Scored columns) :=
  inferInstanceAs (Decidable (∀ name ∈ columns, _))

/-- No row comes before the first one or after the last one on the curve. -/
def Enclosed (curve : Curve) (columns : List String) : Prop :=
  ∀ first ∈ chunk.rows.head?, ∀ last ∈ chunk.rows.getLast?, ∀ row ∈ chunk.rows,
    chunk.Precedes L curve columns first row ∧ chunk.Precedes L curve columns row last

/-- There is more than one column, or it is missing; fewer than 64 columns for the curve with Gray
codes, or no rows; and the rows come between the first and the last one. -/
structure Safe (curve : Curve) (columns : List String) : Prop where
  one : ∀ name, columns = [name] → chunk.fields.find? (·.name == name) = none
  fits : 2 ≤ columns.length → chunk.Scored columns → curve.Fits columns.length ∨ chunk.rows = []
  enclosed : 2 ≤ columns.length → chunk.Scored columns → chunk.Enclosed L curve columns

variable {L chunk} {curve : Curve} {columns : List String} {bits : ℕ} {name : String}

lemma maxVal_eq (hbits : bits < 64) :
    (shl 1 bits).bind (Word64.sub · 1) = some (2 ^ bits - 1) := by
  have hlt : 2 ^ bits < 2 ^ 64 := Nat.pow_lt_pow_right (by decide) hbits
  rw [shl, if_pos hbits, Nat.one_mul, Nat.mod_eq_of_lt hlt, Option.bind_some, Word64.sub,
    if_pos Nat.one_le_two_pow]

/-- The normalized values of a column with coordinates. -/
def normalized (L : ClusterLib) (chunk : Chunk) (bits : ℕ) (name : String) : List ℕ × Cell × Cell :=
  (chunk.rows.map fun row =>
    coordinate L (2 ^ bits - 1) (chunk.bounds name).1 (chunk.bounds name).2 (row name),
    chunk.bounds name)

lemma normalizeColumn_eq_ok (hbits : bits < 64) (h : (chunk.extremes name).isSome) :
    chunk.normalizeColumn L bits name = .ok (chunk.normalized L bits name) := by
  obtain ⟨⟨top, bottom⟩, hextremes⟩ := Option.isSome_iff_exists.1 h
  obtain ⟨field, hfield, htype⟩ := Option.bind_eq_some_iff.1 hextremes
  simp [normalizeColumn, hfield, normalizeToU64, maxVal_eq hbits, htype, orOverflow, normalized,
    bounds, hextremes, bind, Except.bind]

lemma normalizeColumn_eq_error (hbits : bits < 64) (h : chunk.extremes name = none) :
    ∃ message, chunk.normalizeColumn L bits name = .error (.error message) := by
  cases hfield : chunk.fields.find? (·.name == name) with
  | none => exact ⟨_, by rw [normalizeColumn, hfield]⟩
  | some field =>
    have htype : field.type.extremes = none := by simpa [extremes, hfield] using h
    refine ⟨"Unsupported type for clustering: " ++ L.debugType field.type, ?_⟩
    simp [normalizeColumn, hfield, normalizeToU64, maxVal_eq hbits, htype, orOverflow, bind,
      Except.bind]

/-- The largest coordinate of 64 bits is not computed. -/
lemma normalizeColumn_overflow {field : BatchField}
    (hfield : chunk.fields.find? (·.name == name) = some field) :
    chunk.normalizeColumn L 64 name = .error .overflow := by
  simp [normalizeColumn, hfield, normalizeToU64, shl, orOverflow, bind, Except.bind]

lemma div_length_lt (h : 2 ≤ columns.length) : 64 / columns.length < 64 :=
  Nat.div_lt_self (by decide) h

/-- The scores of the rows are their positions on the curve. -/
def positions (L : ClusterLib) (chunk : Chunk) (curve : Curve) (columns : List String) : List ℕ :=
  chunk.rows.map fun row => curve.position (64 / columns.length) (chunk.coords L columns row)

lemma length_coords (row : Row) : (chunk.coords L columns row).length = columns.length :=
  List.length_map _

lemma coords_eq {i : ℕ} {row : Row} (hrow : chunk.rows[i]? = some row) :
    (columns.map (chunk.normalized L (64 / columns.length))).map (fun col => col.1.getD i 0) =
      chunk.coords L columns row := by
  rw [List.map_map, coords]
  refine List.map_congr_left fun name _ => ?_
  simp [normalized, hrow]

lemma score_coords (h : 2 ≤ columns.length) (hfits : curve.Fits columns.length) (row : Row) :
    curve.score (64 / columns.length) (chunk.coords L columns row) =
      some (curve.position (64 / columns.length) (chunk.coords L columns row)) := by
  have hlength := @length_coords L chunk columns row
  rw [← hlength] at h hfits ⊢
  exact Curve.score_eq (by omega) hfits

lemma isEmpty_eq_false (h : 2 ≤ columns.length) : columns.isEmpty = false := by
  cases columns <;> simp at h ⊢

/-- The scores of rows whose columns all have coordinates. -/
lemma computeScores_scored (h : 2 ≤ columns.length) (hscored : chunk.Scored columns) :
    chunk.computeScores L curve columns =
      ((List.range chunk.rows.length).mapM fun i => orOverflow (curve.score (64 / columns.length)
        ((columns.map (chunk.normalized L (64 / columns.length))).map fun col =>
          col.1.getD i 0))).map fun scores =>
        (scores, columns.map fun name => (chunk.bounds name).1,
          columns.map fun name => (chunk.bounds name).2) := by
  have hnormalized : columns.mapM (chunk.normalizeColumn L (64 / columns.length)) =
      .ok (columns.map (chunk.normalized L (64 / columns.length))) :=
    Failing.mapM_eq_ok fun name hname =>
      normalizeColumn_eq_ok (div_length_lt h) (hscored name hname)
  simp only [computeScores, isEmpty_eq_false h, Bool.false_eq_true, if_false, hnormalized, bind,
    Except.bind]
  cases (List.range chunk.rows.length).mapM fun i => orOverflow (curve.score (64 / columns.length)
      ((columns.map (chunk.normalized L (64 / columns.length))).map fun col => col.1.getD i 0)) <;>
    simp [Except.map, normalized, Function.comp_def]

lemma computeScores_eq (h : 2 ≤ columns.length) (hscored : chunk.Scored columns)
    (hfits : curve.Fits columns.length ∨ chunk.rows = []) :
    chunk.computeScores L curve columns = .ok (chunk.positions L curve columns,
      columns.map fun name => (chunk.bounds name).1,
      columns.map fun name => (chunk.bounds name).2) := by
  have hrange : chunk.positions L curve columns =
      (List.range chunk.rows.length).map ((chunk.positions L curve columns).getD · 0) := by
    refine List.ext_getElem (by simp [positions]) fun i hi _ => ?_
    simp [List.getElem?_eq_getElem hi]
  rw [computeScores_scored h hscored, Failing.mapM_eq_ok (g := ((chunk.positions L curve
    columns).getD · 0)), ← hrange, Except.map]
  intro i hi
  have hlt : i < chunk.rows.length := List.mem_range.1 hi
  have hfits : curve.Fits columns.length := hfits.resolve_right fun hnil => by simp [hnil] at hlt
  have hrow : chunk.rows[i]? = some chunk.rows[i] := List.getElem?_eq_getElem hlt
  rw [coords_eq hrow, score_coords h hfits]
  simp [positions, orOverflow, hrow]

/-- A column without coordinates is an error. -/
lemma computeScores_eq_error (h : 2 ≤ columns.length) (hscored : ¬ chunk.Scored columns) :
    ∃ message, chunk.computeScores L curve columns = .error (.error message) := by
  cases hnormalized : columns.mapM (chunk.normalizeColumn L (64 / columns.length)) with
  | error e =>
    obtain ⟨name, -, hname⟩ := Failing.exists_of_mapM_eq_error hnormalized
    cases hextremes : chunk.extremes name with
    | some extremes =>
      rw [normalizeColumn_eq_ok (div_length_lt h) (by simp [hextremes])] at hname
      cases hname
    | none =>
      obtain ⟨message, hmessage⟩ :=
        @normalizeColumn_eq_error L chunk _ name (div_length_lt h) hextremes
      obtain rfl : ClusterFault.error message = e := Except.error.inj (hmessage.symm.trans hname)
      exact ⟨message, by simp [computeScores, isEmpty_eq_false h, hnormalized, bind, Except.bind]⟩
  | ok normalized =>
    refine absurd (fun name hname => ?_) hscored
    obtain ⟨col, hcol⟩ := Failing.exists_ok_of_mem hnormalized hname
    cases hextremes : chunk.extremes name with
    | some extremes => rfl
    | none =>
      obtain ⟨message, hmessage⟩ :=
        @normalizeColumn_eq_error L chunk _ name (div_length_lt h) hextremes
      rw [hmessage] at hcol
      cases hcol

/-- A level that is as wide as a word overflows. -/
lemma computeScores_overflow (h : 2 ≤ columns.length) (hscored : chunk.Scored columns)
    (hfits : ¬ curve.Fits columns.length) (hrows : chunk.rows ≠ []) :
    chunk.computeScores L curve columns = .error .overflow := by
  obtain ⟨rfl, hlength⟩ : curve = .hilbert ∧ 64 ≤ columns.length := by
    simpa [Curve.Fits] using hfits
  obtain ⟨row, rows, hcons⟩ := List.exists_cons_of_ne_nil hrows
  have hrow : chunk.rows[0]? = some row := by simp [hcons]
  have hcoords := @length_coords L chunk columns row
  rw [computeScores_scored h hscored, Failing.mapM_eq_error (e := .overflow) (a := 0), Except.map]
  · simp [hcons]
  · rw [coords_eq hrow, ← hcoords, Curve.hilbert_overflow (hcoords ▸ hlength), orOverflow]
  · intro i _ e he
    revert he
    cases Curve.hilbert.score _ _ with
    | some score => intro he; cases he
    | none => intro he; cases he; rfl

/-- One column: it is missing, or its largest coordinate overflows. -/
lemma computeScores_one {field : BatchField}
    (hfield : chunk.fields.find? (·.name == name) = some field) :
    chunk.computeScores L curve [name] = .error .overflow := by
  simp [computeScores, normalizeColumn_overflow hfield, bind, Except.bind]

/-- The file of a chunk. -/
def file (L : ClusterLib) (chunk : Chunk) (curve : Curve) (columns : List String) : ClusteredFile :=
  .record ⟨columns, curve.name⟩ (chunk.positions L curve columns,
    columns.map fun name => (chunk.bounds name).1, columns.map fun name => (chunk.bounds name).2)
    ((L.sortToIndices (chunk.positions L curve columns)).filterMap fun i => chunk.rows[i]?)

lemma cluster_eq_map (hcolumns : columns ≠ []) :
    chunk.cluster L (some ⟨columns, curve.name⟩) =
      (chunk.computeScores L curve columns).map fun scored =>
        .record ⟨columns, curve.name⟩ scored
          ((L.sortToIndices scored.1).filterMap fun i => chunk.rows[i]?) := by
  cases curve <;> simp only [cluster, Curve.name, computeZorderScores, applyZorder,
    computeHilbertScores, applyHilbert, applyScores, List.isEmpty_iff, hcolumns, if_true, if_false,
    String.reduceEq]
  · cases chunk.computeScores L .zorder columns <;> rfl
  · cases chunk.computeScores L .hilbert columns <;> rfl

/-- What the clustering of a chunk can do. -/
lemma cluster_cases (hcolumns : columns ≠ []) :
    (∃ message, chunk.cluster L (some ⟨columns, curve.name⟩) = .error (.error message)) ∧
        (∀ name, columns = [name] → chunk.fields.find? (·.name == name) = none) ∧
        ¬ (2 ≤ columns.length ∧ chunk.Scored columns) ∨
      chunk.cluster L (some ⟨columns, curve.name⟩) = .error .overflow ∧
        ((∃ name, columns = [name] ∧ chunk.fields.find? (·.name == name) ≠ none) ∨
          2 ≤ columns.length ∧ chunk.Scored columns ∧ ¬ curve.Fits columns.length ∧
            chunk.rows ≠ []) ∨
      chunk.cluster L (some ⟨columns, curve.name⟩) = .ok (chunk.file L curve columns) ∧
        2 ≤ columns.length ∧ chunk.Scored columns ∧
          (curve.Fits columns.length ∨ chunk.rows = []) := by
  rw [cluster_eq_map hcolumns]
  match columns, hcolumns with
  | [name], _ =>
    cases hfield : chunk.fields.find? (·.name == name) with
    | none =>
      refine .inl ⟨⟨L.unknownField name, ?_⟩, ?_, by simp⟩
      · simp [computeScores, normalizeColumn, hfield, bind, Except.bind, Except.map]
      · intro name' hname
        obtain rfl : name = name' := (List.cons.inj hname).1
        exact hfield
    | some field =>
      refine .inr (.inl ⟨?_, .inl ⟨name, rfl, by simp [hfield]⟩⟩)
      rw [computeScores_one hfield, Except.map]
  | name :: name' :: names, _ =>
    have htwo : 2 ≤ (name :: name' :: names).length := by simp
    generalize name :: name' :: names = columns at htwo
    by_cases hscored : chunk.Scored columns
    · by_cases hfits : curve.Fits columns.length ∨ chunk.rows = []
      · refine .inr (.inr ⟨?_, htwo, hscored, hfits⟩)
        rw [computeScores_eq htwo hscored hfits, Except.map, file]
      · obtain ⟨hfits, hrows⟩ := not_or.1 hfits
        refine .inr (.inl ⟨?_, .inr ⟨htwo, hscored, hfits, hrows⟩⟩)
        rw [computeScores_overflow htwo hscored hfits hrows, Except.map]
    · obtain ⟨message, hmessage⟩ := @computeScores_eq_error L chunk curve columns htwo hscored
      refine .inl ⟨⟨message, by rw [hmessage, Except.map]⟩, ?_, by simp [hscored]⟩
      rintro name rfl
      simp at htwo

lemma length_positions : (chunk.positions L curve columns).length = chunk.rows.length :=
  List.length_map _

/-- Sorting keeps the rows. -/
lemma mem_rows_file {row : Row} : row ∈ (chunk.file L curve columns).rows ↔ row ∈ chunk.rows := by
  have hperm := L.perm_sortToIndices (chunk.positions L curve columns)
  rw [length_positions] at hperm
  simp only [file, ClusteredFile.record, List.mem_filterMap, hperm.mem_iff, List.mem_range]
  constructor
  · rintro ⟨i, -, hi⟩
    exact List.mem_of_getElem? hi
  · intro hrow
    obtain ⟨i, hi⟩ := List.mem_iff_getElem?.1 hrow
    exact ⟨i, (List.getElem?_eq_some_iff.1 hi).1, hi⟩

lemma coordinates_bounds (row : Row) :
    coordinates L columns (columns.map fun name => (chunk.bounds name).1)
      (columns.map fun name => (chunk.bounds name).2) row = chunk.coords L columns row := by
  rw [coordinates, coords]
  generalize 2 ^ (64 / columns.length) - 1 = maxVal
  induction columns with
  | nil => rfl
  | cons name columns ih =>
    simp only [List.map_cons, List.zip_cons_cons, List.zipWith_cons_cons, ih]

/-- The entry of a chunk bounds its scores exactly if the rows come between the first and the last
one. -/
lemma bounded_file_iff (h : 2 ≤ columns.length)
    (hfits : curve.Fits columns.length ∨ chunk.rows = []) :
    (chunk.file L curve columns).Bounded L curve columns ↔ chunk.Enclosed L curve columns := by
  have hle (row row' : Row) : curve.position (64 / columns.length) (chunk.coords L columns row) ≤
      curve.position (64 / columns.length) (chunk.coords L columns row') ↔
        chunk.Precedes L curve columns row row' :=
    Curve.position_le_position (by simp [length_coords])
  by_cases hnil : chunk.rows = []
  · constructor
    · intro _ first hfirst
      simp [hnil] at hfirst
    · intro _ row hrow
      simp [mem_rows_file, hnil] at hrow
  · obtain ⟨first, hfirst⟩ := Option.isSome_iff_exists.1 (List.isSome_head?.2 hnil)
    obtain ⟨last, hlast⟩ := Option.isSome_iff_exists.1 (List.getLast?_isSome.2 hnil)
    have hscore := @score_coords L chunk curve columns h (hfits.resolve_right hnil)
    have hmin : (chunk.file L curve columns).minClusteringScore =
        some (curve.position (64 / columns.length) (chunk.coords L columns first)) := by
      simp [file, ClusteredFile.record, positions, hfirst]
    have hmax : (chunk.file L curve columns).maxClusteringScore =
        some (curve.position (64 / columns.length) (chunk.coords L columns last)) := by
      simp [file, ClusteredFile.record, positions, hlast]
    have hmins : (chunk.file L curve columns).normalizationMins =
        some (columns.map fun name => (chunk.bounds name).1) := by
      simp [file, ClusteredFile.record, positions, hnil]
    have hmaxs : (chunk.file L curve columns).normalizationMaxs =
        some (columns.map fun name => (chunk.bounds name).2) := by
      simp [file, ClusteredFile.record, positions, hnil]
    simp only [ClusteredFile.Bounded, hmin, hmax, hmins, hmaxs, Option.some.injEq, mem_rows_file,
      Enclosed, hfirst, hlast, Option.mem_def, forall_eq', exists_and_left, exists_eq_left',
      coordinates_bounds, hscore, hle]

/-- A clustering that is safe does not overflow, and its file is bounded. -/
lemma Safe.of_cluster (h : chunk.Safe L curve columns) (hcolumns : columns ≠ []) :
    chunk.cluster L (some ⟨columns, curve.name⟩) ≠ .error .overflow ∧
      ∀ file, chunk.cluster L (some ⟨columns, curve.name⟩) = .ok file →
        file.Bounded L curve columns := by
  obtain ⟨⟨message, heq⟩, -, -⟩ | ⟨heq, ⟨name, hname, hfield⟩ | ⟨htwo, hscored, hfits, hrows⟩⟩ |
    ⟨heq, htwo, hscored, hfits⟩ := @cluster_cases L chunk curve columns hcolumns
  · simp [heq]
  · exact absurd (h.one name hname) hfield
  · exact absurd (h.fits htwo hscored) (by simp [hfits, hrows])
  · rw [heq]
    refine ⟨nofun, fun file hfile => ?_⟩
    obtain rfl := Except.ok.inj hfile
    exact (bounded_file_iff htwo hfits).2 (h.enclosed htwo hscored)

end Chunk

section Compaction

variable {L : ClusterLib} {lib : TransformLib} {spec : PartitionSpec} {curve : Curve}
  {columns : List String} {merged : Batch} {chunks : List (PartitionValues × List Row)}

/-- The clustering of a chunk of a bin. -/
def clusterPart (L : ClusterLib) (curve : Curve) (columns : List String) (fields : List BatchField)
    (part : PartitionValues × List Row) : Except ClusterFault (PartitionValues × ClusteredFile) :=
  (Chunk.cluster L (some ⟨columns, curve.name⟩) ⟨fields, part.2⟩).map fun file => (part.1, file)

lemma compactBin_eq_mapM (h : spec.partitionBatch lib merged = .ok chunks) :
    compactBin L lib spec (some ⟨columns, curve.name⟩) merged =
      chunks.mapM (clusterPart L curve columns merged.fields) := by
  rw [compactBin, h]
  refine congrArg (List.mapM · chunks) (funext fun part => ?_)
  rw [clusterPart]
  cases Chunk.cluster L (some ⟨columns, curve.name⟩) ⟨merged.fields, part.2⟩ <;> rfl

lemma clusterPart_eq_error {fields : List BatchField} {part : PartitionValues × List Row}
    {e : ClusterFault} : clusterPart L curve columns fields part = .error e ↔
      Chunk.cluster L (some ⟨columns, curve.name⟩) ⟨fields, part.2⟩ = .error e := by
  rw [clusterPart]
  cases Chunk.cluster L (some ⟨columns, curve.name⟩) ⟨fields, part.2⟩ <;> simp [Except.map]

lemma clusterPart_eq_ok {fields : List BatchField} {part : PartitionValues × List Row}
    {result : PartitionValues × ClusteredFile} :
    clusterPart L curve columns fields part = .ok result ↔
      Chunk.cluster L (some ⟨columns, curve.name⟩) ⟨fields, part.2⟩ = .ok result.2 ∧
        part.1 = result.1 := by
  rw [clusterPart]
  cases Chunk.cluster L (some ⟨columns, curve.name⟩) ⟨fields, part.2⟩ <;>
    simp [Except.map, Prod.ext_iff, and_comm]

lemma safe_of_boundsScores (hcolumns : columns ≠ [])
    (hbounds : BoundsScores L lib spec curve columns merged)
    (hchunks : spec.partitionBatch lib merged = .ok chunks) {part : PartitionValues × List Row}
    (hpart : part ∈ chunks) : Chunk.Safe L ⟨merged.fields, part.2⟩ curve columns := by
  obtain ⟨hoverflow, hfiles⟩ := hbounds
  rw [compactBin_eq_mapM hchunks] at hoverflow hfiles
  -- All chunks have the same columns, so a chunk that overflows is not preceded by an error.
  have hcases := fun part : PartitionValues × List Row =>
    @Chunk.cluster_cases L ⟨merged.fields, part.2⟩ curve columns hcolumns
  have hone : ∀ name, columns = [name] → merged.fields.find? (·.name == name) = none := by
    intro name hname
    by_contra hfield
    have hall (part : PartitionValues × List Row) :
        clusterPart L curve columns merged.fields part = .error .overflow := by
      obtain ⟨-, hmissing, -⟩ | ⟨heq, -⟩ | ⟨-, htwo, -⟩ := hcases part
      · exact absurd (hmissing name hname) hfield
      · exact clusterPart_eq_error.2 heq
      · simp [hname] at htwo
    refine hoverflow (Failing.mapM_eq_error hpart (hall part) fun part' _ e he => ?_)
    exact Except.error.inj (he.symm.trans (hall part'))
  have hfits : ∀ part ∈ chunks, 2 ≤ columns.length →
      Chunk.Scored ⟨merged.fields, part.2⟩ columns →
        curve.Fits columns.length ∨ part.2 = [] := by
    intro part hpart htwo hscored
    by_contra hfits
    have hfail : clusterPart L curve columns merged.fields part = .error .overflow := by
      obtain ⟨-, -, hnot⟩ | ⟨heq, -⟩ | ⟨-, -, -, hor⟩ := hcases part
      · exact absurd ⟨htwo, hscored⟩ hnot
      · exact clusterPart_eq_error.2 heq
      · exact absurd hor hfits
    refine hoverflow (Failing.mapM_eq_error hpart hfail fun part' _ e he => ?_)
    rw [clusterPart_eq_error] at he
    obtain ⟨-, -, hnot⟩ | ⟨heq, -⟩ | ⟨heq, -⟩ := hcases part'
    · exact absurd ⟨htwo, hscored⟩ hnot
    · exact Except.error.inj (he.symm.trans heq)
    · cases he.symm.trans heq
  refine ⟨hone, hfits part hpart, fun htwo hscored => ?_⟩
  have hok : chunks.mapM (clusterPart L curve columns merged.fields) =
      .ok (chunks.map fun part =>
        (part.1, Chunk.file L ⟨merged.fields, part.2⟩ curve columns)) := by
    refine Failing.mapM_eq_ok fun part hpart => clusterPart_eq_ok.2 ⟨?_, rfl⟩
    obtain ⟨-, -, hnot⟩ | ⟨-, ⟨name, rfl, -⟩ | ⟨-, -, hno, hrows⟩⟩ | ⟨heq, -⟩ := hcases part
    · exact absurd ⟨htwo, hscored⟩ hnot
    · simp at htwo
    · exact absurd (hfits part hpart htwo hscored) (by simp [hno, hrows])
    · exact heq
  exact (Chunk.bounded_file_iff htwo (hfits part hpart htwo hscored)).1
    (hfiles _ hok _ (List.mem_map_of_mem hpart))

end Compaction

/-- The entries of a compaction bound the scores of their files, and scores are computed without
overflow, exactly if there is more than one clustering column, fewer than 64 for the curve with Gray
codes, and each partition of the merged batch begins with a least and ends with a greatest row on
the curve. -/
theorem boundsScores_iff (L : ClusterLib) (lib : TransformLib) (spec : PartitionSpec)
    (curve : Curve) (column : String) (columns : List String) (merged : Batch) :
    BoundsScores L lib spec curve (column :: columns) merged ↔
      ∀ chunks, spec.partitionBatch lib merged = .ok chunks → ∀ part ∈ chunks,
        Chunk.Safe L ⟨merged.fields, part.2⟩ curve (column :: columns) := by
  have hcolumns : column :: columns ≠ [] := List.cons_ne_nil _ _
  constructor
  · intro hbounds chunks hchunks part hpart
    exact safe_of_boundsScores hcolumns hbounds hchunks hpart
  · intro hsafe
    cases hchunks : spec.partitionBatch lib merged with
    | error message => simp [BoundsScores, compactBin, hchunks]
    | ok chunks =>
      rw [BoundsScores, compactBin_eq_mapM hchunks]
      constructor
      · intro hoverflow
        obtain ⟨part, hpart, heq⟩ := Failing.exists_of_mapM_eq_error hoverflow
        exact ((hsafe chunks hchunks part hpart).of_cluster hcolumns).1
          (clusterPart_eq_error.1 heq)
      · intro files hfiles file hfile
        obtain ⟨part, hpart, heq⟩ := Failing.exists_of_mapM_eq_ok hfiles hfile
        exact ((hsafe chunks hchunks part hpart).of_cluster hcolumns).2 _
          (clusterPart_eq_ok.1 heq).1

/-! ### Examples -/

/-- Arithmetic without rounding. -/
def exactLib : ClusterLib where
  sub
    | .num a, .num b => .num (a - b)
    | _, _ => .nan false
  div
    | .num a, .num b => .num (a / b)
    | _, _ => .nan false
  mul
    | .num a, .num b => .num (a * b)
    | _, _ => .nan false
  ofU64 n := .num n
  toU64
    | .num q => min (2 ^ 64 - 1) ⌊q⌋.toNat
    | _ => 0
  sortToIndices scores := (List.range scores.length).insertionSort fun i j =>
    scores.getD i 0 ≤ scores.getD j 0
  perm_sortToIndices _ := List.perm_insertionSort _ _
  unknownField name := "Unable to get field named " ++ name
  debugType _ := ""

/-- The row `a = i, b = i` -/
def twinRow (i : ℤ) (name : String) : Option Cell :=
  if name = "a" ∨ name = "b" then some (.int i) else none

lemma eq_of_twinRow {i : ℤ} {name : String} {c : Cell} (h : twinRow i name = some c) :
    (name = "a" ∨ name = "b") ∧ c = .int i := by
  rw [twinRow] at h
  split_ifs at h with hname
  exact ⟨hname, (Option.some.inj h).symm⟩

def twinFields : List BatchField := [⟨"a", .int64, none⟩, ⟨"b", .int64, none⟩]

lemma nodup_twinFields : (twinFields.map BatchField.name).Nodup := by decide

lemma typed_twinRow : ∀ row ∈ [twinRow 1, twinRow 0], ∀ col ∈ twinFields, ∀ c,
    row col.name = some c → col.type.Holds c := by
  intro row hrow col hcol c hc
  have htype : col.type = .int64 := by
    rcases List.mem_cons.1 hcol with rfl | hcol
    · rfl
    · rw [List.mem_singleton.1 hcol]
  rw [htype]
  rcases List.mem_cons.1 hrow with rfl | hrow
  · obtain ⟨-, rfl⟩ := eq_of_twinRow hc
    exact (by decide : IsSigned 64 1)
  · obtain rfl := List.mem_singleton.1 hrow
    obtain ⟨-, rfl⟩ := eq_of_twinRow hc
    exact (by decide : IsSigned 64 0)

lemma closed_twinRow : ∀ row ∈ [twinRow 1, twinRow 0], ∀ name,
    (∀ col ∈ twinFields, col.name ≠ name) → row name = none := by
  intro row hrow name hname
  have ha : name ≠ "a" := fun h => hname ⟨"a", .int64, none⟩ (by decide) h.symm
  have hb : name ≠ "b" := fun h => hname ⟨"b", .int64, none⟩ (by decide) h.symm
  rcases List.mem_cons.1 hrow with rfl | hrow
  · simp [twinRow, ha, hb]
  · obtain rfl := List.mem_singleton.1 hrow
    simp [twinRow, ha, hb]

/-- The rows `a = 1, b = 1` and `a = 0, b = 0` -/
def twinBatch : Batch where
  fields := twinFields
  rows := [twinRow 1, twinRow 0]
  distinct := nodup_twinFields
  typed := typed_twinRow
  closed := closed_twinRow

/-- The score of the first row is recorded as the least one, and with one column a shift is by the
size of a word. -/
theorem not_boundsScores :
    ¬ BoundsScores exactLib noDatesLib ⟨0, []⟩ .zorder ["a", "b"] twinBatch ∧
    ¬ BoundsScores exactLib noDatesLib ⟨0, []⟩ .zorder ["a"] twinBatch := by
  have hchunks : PartitionSpec.partitionBatch ⟨0, []⟩ noDatesLib twinBatch =
      .ok [(∅, [twinRow 1, twinRow 0])] := rfl
  constructor
  · intro hbounds
    have hsafe := safe_of_boundsScores (by decide) hbounds hchunks (List.mem_singleton.2 rfl)
    have hfirst := (hsafe.enclosed (by decide) (by decide) (twinRow 1) rfl (twinRow 0) rfl
      (twinRow 0) (by simp)).1
    exact absurd hfirst (by decide +kernel)
  · intro hbounds
    have hsafe := safe_of_boundsScores (by decide) hbounds hchunks (List.mem_singleton.2 rfl)
    exact absurd (hsafe.one "a" rfl) (by decide)

end BenoStreamDB

import BenoStreamDB.Query.Expr

/-!
# File pruning

`classify_condition` and `might_match_df_expr` of `planner.rs`: whether a data file can be skipped
for a filter, from the partition values and the column statistics of its manifest entry.

The planner compares everything as JSON values, so a file with a row that satisfies a filter can
be lost. `QueryFilter.Kept` says when it is not: each bound of the filter is met, as JSON, by
whatever can stand for a satisfying value in the entry of its file (`KeptAbove`, `KeptBelow`), and
each list of values as well. Nothing less is enough (`QueryFilter.Kept.of_checks`).
-/

namespace BenoStreamDB

/-- A manifest entry with the statistics of its columns. -/
structure ScanEntry extends ManifestEntry where
  columnStats : Finmap (fun _ : String => ColumnStats) := ∅

inductive PruneReason where
  | partitionBelowMin
  | partitionAboveMax
  | partitionNotInList
  | statsAllNull
  | statsBelowMin
  | statsAboveMax
  | statsNotInList
  deriving DecidableEq

/-! ### The checks -/

namespace QueryFilter

variable (f : QueryFilter)

/-- The value, and everything below it, is too small for the filter. -/
def below (v : Value) : Bool :=
  match f.min with
  | none => false
  | some m =>
    if f.minInclusive then v.compareValues m == some .lt
    else v.compareValues m == some .lt || v.compareValues m == some .eq

/-- The value, and everything above it, is too large for the filter. -/
def above (v : Value) : Bool :=
  match f.max with
  | none => false
  | some m =>
    if f.maxInclusive then v.compareValues m == some .gt
    else v.compareValues m == some .gt || v.compareValues m == some .eq

/-- The partition part of `classify_condition`. -/
def partitionCheck (entryVal : Value) : Option PruneReason :=
  if f.below entryVal then some .partitionBelowMin
  else if f.above entryVal then some .partitionAboveMax
  else match f.values with
    | some vs => if vs.contains entryVal then none else some .partitionNotInList
    | none => none

/-- A value of an IN list is not outside of the statistics. -/
def inRange (stats : ColumnStats) (v : Value) : Bool :=
  !(stats.min.any fun m => v.compareValues m.toJsonValue == some .lt) &&
    !(stats.max.any fun m => v.compareValues m.toJsonValue == some .gt)

/-- The statistics part of `classify_condition`. -/
def statsCheck (stats : ColumnStats) (recordCount : ℤ) : Option PruneReason :=
  if stats.nullCount = recordCount then some .statsAllNull
  else if stats.max.any fun m => f.below m.toJsonValue then some .statsBelowMin
  else if stats.min.any fun m => f.above m.toJsonValue then some .statsAboveMax
  else match f.values with
    | some vs =>
      if stats.min.isNone && stats.max.isNone then none
      else if vs.any (inRange stats) then none
      else some .statsNotInList
    | none => none

end QueryFilter

/-- `classify_condition` -/
def classifyCondition (entry : ScanEntry) (f : QueryFilter) : Option PruneReason :=
  if f.negated then none
  else
    ((entry.partitionValues.lookup f.column).bind f.partitionCheck).or
      ((entry.columnStats.lookup f.column).bind fun s => f.statsCheck s entry.recordCount)

/-- `might_match_condition` -/
def mightMatchCondition (entry : ScanEntry) (f : QueryFilter) : Bool :=
  (classifyCondition entry f).isNone

/-- `might_match_df_expr` -/
def mightMatchDfExpr (entry : ScanEntry) : Expr → Bool
  | .and l r => mightMatchDfExpr entry l && mightMatchDfExpr entry r
  | .or l r => mightMatchDfExpr entry l || mightMatchDfExpr entry r
  | .binary l op r => (QueryFilter.ofBinary l op r).all (mightMatchCondition entry)
  | .inList e list negated => (QueryFilter.ofInList e list negated).all (mightMatchCondition entry)
  | .between e low high false => (QueryFilter.ofBetween e low high).all (mightMatchCondition entry)
  | _ => true

/-! ### Truthful entries -/

/-- The JSON form of a value, as the identity transform and the statistics give it. -/
def Cell.toJson : Cell → Value
  | .bool b => .bool b
  | .int i => .int i
  | .float x => .ofDouble x
  | .string s => .string s
  | .bytes _ => .null
  | .decimal u _ => .int u
  | .temporal _ i => .int i

lemma ManifestValue.toJsonValue_of_toCell {t : DataType} {m : ManifestValue} {c : Cell}
    (h : m.toCell t = some c) : m.toJsonValue = c.toJson := by
  cases m <;> cases t <;> simp_all [ManifestValue.toCell, ManifestValue.toJsonValue] <;>
    subst h <;> rfl

/-- The statistics bound the values of a column and count its NULLs. -/
structure ColumnStats.Truthful (t : DataType) (s : ColumnStats) (cells : List (Option Cell)) :
    Prop where
  min : ∀ m ∈ s.min, ∃ d, m.toCell t = some d ∧ t.Holds d ∧ ∀ c, some c ∈ cells → d.Le c
  max : ∀ m ∈ s.max, ∃ d, m.toCell t = some d ∧ t.Holds d ∧ ∀ c, some c ∈ cells → c.Le d
  nullCount : s.nullCount = cells.count none

/-- The entry describes the rows of its file; partition values are those of the identity. -/
structure ScanEntry.Truthful (types : String → DataType) (entry : ScanEntry) (rows : List Row) :
    Prop where
  recordCount : entry.recordCount = rows.length
  typed : ∀ row ∈ rows, ∀ col c, row col = some c → (types col).Holds c
  stats : ∀ col s, entry.columnStats.lookup col = some s →
    s.Truthful (types col) (rows.map fun row => row col)
  partition : ∀ col v, entry.partitionValues.lookup col = some v →
    ∀ row ∈ rows, ∀ c, row col = some c → v = c.toJson

/-! ### Bounds that pruning may trust

What is known of a file is compared with a literal in another type `α` than that of the column: as
JSON here, as doubles or texts for row groups. In this section `sat` are the values that satisfy
the filter, `stands c d x` says that `x` can stand for `d` in the metadata of a file with a row of
value `c`, and `cmp x` is the comparison of `x` with the literal. -/

section Bounds

variable {α : Type} (t : DataType) (sat : Cell → Prop) (stands : Cell → Cell → α → Prop)
  (cmp : α → Option Ordering) (inclusive : Bool)

/-- What stands for a value at or above a satisfying one does not compare below the literal, nor
equal to it if the bound is exclusive. -/
def KeptAbove : Prop :=
  ∀ c d x, t.Holds c → sat c → t.Holds d → c.Le d → stands c d x →
    cmp x ≠ some .lt ∧ (inclusive = false → cmp x ≠ some .eq)

/-- What stands for a value at or below a satisfying one does not compare above the literal, nor
equal to it if the bound is exclusive. -/
def KeptBelow : Prop :=
  ∀ c d x, t.Holds c → sat c → t.Holds d → d.Le c → stands c d x →
    cmp x ≠ some .gt ∧ (inclusive = false → cmp x ≠ some .eq)

variable {t sat stands cmp inclusive} {β γ : Type} [LinearOrder β] [LinearOrder γ]

/-- SQL compares by a key, and the metadata by a monotone image of it. For an exclusive bound the
image has to tell the literal from everything above it. -/
lemma KeptAbove.of_key (key : Cell → β) (y : β) (g : β → γ)
    (hsat : ∀ c, t.Holds c → sat c → y < key c ∨ inclusive = true ∧ y = key c)
    (hkey : ∀ c d, t.Holds c → t.Holds d → c.Le d → key c ≤ key d) (hg : Monotone g)
    (hcmp : ∀ c d x, t.Holds c → sat c → t.Holds d → c.Le d → stands c d x →
      cmp x = some (compare (g (key d)) (g y)) ∨ cmp x = none)
    (hne : inclusive = false → ∀ z, y < z → g z ≠ g y) :
    KeptAbove t sat stands cmp inclusive := by
  intro c d x hc hsatc hd hle hx
  have hkeys := hkey c d hc hd hle
  rcases hcmp c d x hc hsatc hd hle hx with h | h
  · rw [h, Ne, Ne, Option.some.injEq, Option.some.injEq, compare_lt_iff_lt, compare_eq_iff_eq,
      not_lt]
    rcases hsat c hc hsatc with hlt | ⟨hincl, heq⟩
    · exact ⟨hg (hlt.le.trans hkeys), fun hexcl => hne hexcl _ (hlt.trans_le hkeys)⟩
    · exact ⟨hg (heq.le.trans hkeys), fun hexcl => by simp [hincl] at hexcl⟩
  · simp [h]

/-- The same for an upper bound. -/
lemma KeptBelow.of_key (key : Cell → β) (y : β) (g : β → γ)
    (hsat : ∀ c, t.Holds c → sat c → key c < y ∨ inclusive = true ∧ key c = y)
    (hkey : ∀ c d, t.Holds c → t.Holds d → c.Le d → key c ≤ key d) (hg : Monotone g)
    (hcmp : ∀ c d x, t.Holds c → sat c → t.Holds d → d.Le c → stands c d x →
      cmp x = some (compare (g (key d)) (g y)) ∨ cmp x = none)
    (hne : inclusive = false → ∀ z, z < y → g z ≠ g y) :
    KeptBelow t sat stands cmp inclusive := by
  intro c d x hc hsatc hd hle hx
  have hkeys := hkey d c hd hc hle
  rcases hcmp c d x hc hsatc hd hle hx with h | h
  · rw [h, Ne, Ne, Option.some.injEq, Option.some.injEq, compare_gt_iff_gt, compare_eq_iff_eq,
      not_lt]
    rcases hsat c hc hsatc with hlt | ⟨hincl, heq⟩
    · exact ⟨hg (hkeys.trans hlt.le), fun hexcl => hne hexcl _ (hkeys.trans_lt hlt)⟩
    · exact ⟨hg (hkeys.trans heq.le), fun hexcl => by simp [hincl] at hexcl⟩
  · simp [h]

end Bounds

namespace Cell

/-- The key by which integer cells compare. -/
def intKey : Cell → ℤ
  | .int i => i
  | _ => 0

/-- The key by which floating-point cells compare. -/
def doubleKey : Cell → Double
  | .float x => x
  | _ => .num 0

lemma Le.refl (c : Cell) : c.Le c := by
  cases c <;> simp [Cell.Le]

end Cell

/-- A value that equals the literal has its JSON form. -/
def SameForm (t : DataType) (sql : Cell → Option Ordering) (v : Value) : Prop :=
  ∀ {c}, t.Holds c → sql c = some .eq → c.toJson = v

lemma SameForm.of_string {t : DataType} (cast : CastFn) (s : String)
    (ht : ∀ c, t.Holds c → ∃ r, c = .string r) :
    SameForm t (fun c => c.compare cast (.string s)) (.string s) := by
  intro c hc heq
  obtain ⟨r, rfl⟩ := ht c hc
  have heq' : some (compare r s) = some .eq := heq
  rw [Option.some.injEq, compare_eq_iff_eq] at heq'
  rw [heq', Cell.toJson]

lemma Value.compareValues_swap (v w : Value) :
    w.compareValues v = (v.compareValues w).map Ordering.swap := by
  cases v <;> cases w <;> simp only [Value.compareValues, Option.map_none]
  case bool.bool a b => exact congrArg some Std.OrientedOrd.eq_swap
  case string.string s t => exact congrArg some Std.OrientedOrd.eq_swap
  case int.int i j =>
    by_cases h : IsSigned 64 i ∧ IsSigned 64 j
    · rw [if_pos h, if_pos h.symm, Option.map_some]
      exact congrArg some Std.OrientedOrd.eq_swap
    · rw [if_neg h, if_neg fun h' => h h'.symm]
      exact Double.partialCmp_swap _ _
  all_goals exact Double.partialCmp_swap _ _

lemma Value.compareValues_eq_lt {v w : Value} :
    v.compareValues w = some .lt ↔ w.compareValues v = some .gt := by
  rw [compareValues_swap v w]
  rcases v.compareValues w with _ | _ | _ | _ <;> simp

lemma Value.compareValues_eq_gt {v w : Value} :
    v.compareValues w = some .gt ↔ w.compareValues v = some .lt := compareValues_eq_lt.symm

/-! ### The checks of one filter -/

/-- Statistics of a column that has the value `c`. -/
structure ColumnStats.Around (t : DataType) (s : ColumnStats) (c : Cell) : Prop where
  min : ∀ m ∈ s.min, ∃ d, m.toCell t = some d ∧ t.Holds d ∧ d.Le c
  max : ∀ m ∈ s.max, ∃ d, m.toCell t = some d ∧ t.Holds d ∧ c.Le d

/-- `v` can stand for `d` in the entry of a file with a row of value `c`: as a bound of the
statistics or, where files have partition values, as that of `c` itself. -/
def DataType.Stands (t : DataType) (partitioned : Prop) (c d : Cell) (v : Value) : Prop :=
  v = d.toJson ∧ ((∃ m : ManifestValue, m.toCell t = some d) ∨ partitioned ∧ d = c)

namespace QueryFilter

/-- The filter keeps the files of all values in `sat`. -/
structure Kept (t : DataType) (partitioned : Prop) (sat : Cell → Prop) (f : QueryFilter) :
    Prop where
  min : ∀ m, f.min = some m →
    KeptAbove t sat (t.Stands partitioned) (·.compareValues m) f.minInclusive
  max : ∀ m, f.max = some m →
    KeptBelow t sat (t.Stands partitioned) (·.compareValues m) f.maxInclusive
  /-- Whatever bounds the file has, one of the listed values is not outside of them. -/
  values : ∀ vs, f.values = some vs → ∀ c, t.Holds c → sat c → ∀ s : ColumnStats, s.Around t c →
    (s.min.isSome ∨ s.max.isSome) → ∃ v ∈ vs, inRange s v = true
  sameForm : ∀ vs, f.values = some vs → partitioned → ∀ c, t.Holds c → sat c → c.toJson ∈ vs

variable {t : DataType} {partitioned : Prop} {sat : Cell → Prop} {f : QueryFilter} {c : Cell}
  {v m : Value}

lemma below_eq_false (hmin : f.min = some m) : f.below v = false ↔
    v.compareValues m ≠ some .lt ∧ (f.minInclusive = false → v.compareValues m ≠ some .eq) := by
  cases hincl : f.minInclusive <;> simp [below, hmin, hincl]

lemma above_eq_false (hmax : f.max = some m) : f.above v = false ↔
    v.compareValues m ≠ some .gt ∧ (f.maxInclusive = false → v.compareValues m ≠ some .eq) := by
  cases hincl : f.maxInclusive <;> simp [above, hmax, hincl]

lemma below_of_none (hmin : f.min = none) : f.below v = false := by simp [below, hmin]

lemma above_of_none (hmax : f.max = none) : f.above v = false := by simp [above, hmax]

lemma partitionCheck_eq_none_iff : f.partitionCheck v = none ↔
    f.below v = false ∧ f.above v = false ∧ ∀ vs, f.values = some vs → v ∈ vs := by
  cases hbelow : f.below v <;> cases habove : f.above v <;> cases hvs : f.values <;>
    simp [partitionCheck, hbelow, habove, hvs]

lemma statsCheck_eq_none_iff {s : ColumnStats} {n : ℤ} (hnull : s.nullCount ≠ n) :
    f.statsCheck s n = none ↔ (∀ p ∈ s.max, f.below p.toJsonValue = false) ∧
      (∀ p ∈ s.min, f.above p.toJsonValue = false) ∧
        ∀ vs, f.values = some vs → (s.min.isSome ∨ s.max.isSome) →
          ∃ w ∈ vs, inRange s w = true := by
  have hmax : (s.max.any fun p => f.below p.toJsonValue) = false ↔
      ∀ p ∈ s.max, f.below p.toJsonValue = false := by
    cases s.max <;> simp
  have hmin : (s.min.any fun p => f.above p.toJsonValue) = false ↔
      ∀ p ∈ s.min, f.above p.toJsonValue = false := by
    cases s.min <;> simp
  rw [← hmax, ← hmin]
  simp only [statsCheck, hnull, if_false]
  cases s.max.any fun p => f.below p.toJsonValue with
  | true => simp
  | false =>
    cases s.min.any fun p => f.above p.toJsonValue with
    | true => simp
    | false =>
      cases f.values with
      | none => simp
      | some vs => cases s.min <;> cases s.max <;> simp

lemma Kept.below (h : f.Kept t partitioned sat) (hc : t.Holds c) (hsat : sat c) {d : Cell}
    (hd : t.Holds d) (hle : c.Le d) (hv : t.Stands partitioned c d v) : f.below v = false := by
  cases hmin : f.min with
  | none => exact below_of_none hmin
  | some m => exact (below_eq_false hmin).2 (h.min m hmin c d v hc hsat hd hle hv)

lemma Kept.above (h : f.Kept t partitioned sat) (hc : t.Holds c) (hsat : sat c) {d : Cell}
    (hd : t.Holds d) (hle : d.Le c) (hv : t.Stands partitioned c d v) : f.above v = false := by
  cases hmax : f.max with
  | none => exact above_of_none hmax
  | some m => exact (above_eq_false hmax).2 (h.max m hmax c d v hc hsat hd hle hv)

lemma Kept.partitionCheck (h : f.Kept t partitioned sat) (hpart : partitioned) (hc : t.Holds c)
    (hsat : sat c) : f.partitionCheck c.toJson = none :=
  have hv : t.Stands partitioned c c c.toJson := ⟨rfl, Or.inr ⟨hpart, rfl⟩⟩
  partitionCheck_eq_none_iff.2 ⟨h.below hc hsat hc (.refl c) hv, h.above hc hsat hc (.refl c) hv,
    fun vs hvs => h.sameForm vs hvs hpart c hc hsat⟩

lemma Kept.statsCheck (h : f.Kept t partitioned sat) (hc : t.Holds c) (hsat : sat c)
    {s : ColumnStats} {n : ℤ} (hs : s.Around t c) (hnull : s.nullCount ≠ n) :
    f.statsCheck s n = none := by
  refine (statsCheck_eq_none_iff hnull).2
    ⟨?_, ?_, fun vs hvs hsome => h.values vs hvs c hc hsat s hs hsome⟩
  · intro p hp
    obtain ⟨d, hd, hdt, hle⟩ := hs.max p hp
    exact h.below hc hsat hdt hle ⟨ManifestValue.toJsonValue_of_toCell hd, Or.inl ⟨p, hd⟩⟩
  · intro p hp
    obtain ⟨d, hd, hdt, hle⟩ := hs.min p hp
    exact h.above hc hsat hdt hle ⟨ManifestValue.toJsonValue_of_toCell hd, Or.inl ⟨p, hd⟩⟩

/-- The checks keep every satisfying value only for a kept filter. -/
lemma Kept.of_checks
    (hstats : ∀ c, t.Holds c → sat c → ∀ s : ColumnStats, s.Around t c → s.nullCount = 0 →
      f.statsCheck s 1 = none)
    (hpart : partitioned → ∀ c, t.Holds c → sat c → f.partitionCheck c.toJson = none) :
    f.Kept t partitioned sat where
  min m hmin := by
    rintro c d x hc hsat hd hle ⟨rfl, ⟨p, hp⟩ | ⟨hpartitioned, rfl⟩⟩
    · have haround : ColumnStats.Around t { max := some p } c :=
        ⟨fun q hq => by simp at hq, fun q hq => by
          obtain rfl : p = q := by simpa using hq
          exact ⟨d, hp, hd, hle⟩⟩
      have hnone := (statsCheck_eq_none_iff (by simp)).1 (hstats c hc hsat _ haround rfl)
      have hbelow := hnone.1 p rfl
      rw [ManifestValue.toJsonValue_of_toCell hp] at hbelow
      exact (below_eq_false hmin).1 hbelow
    · exact (below_eq_false hmin).1 (partitionCheck_eq_none_iff.1 (hpart hpartitioned _ hc hsat)).1
  max m hmax := by
    rintro c d x hc hsat hd hle ⟨rfl, ⟨p, hp⟩ | ⟨hpartitioned, rfl⟩⟩
    · have haround : ColumnStats.Around t { min := some p } c :=
        ⟨fun q hq => by
          obtain rfl : p = q := by simpa using hq
          exact ⟨d, hp, hd, hle⟩, fun q hq => by simp at hq⟩
      have hnone := (statsCheck_eq_none_iff (by simp)).1 (hstats c hc hsat _ haround rfl)
      have habove := hnone.2.1 p rfl
      rw [ManifestValue.toJsonValue_of_toCell hp] at habove
      exact (above_eq_false hmax).1 habove
    · exact (above_eq_false hmax).1
        (partitionCheck_eq_none_iff.1 (hpart hpartitioned _ hc hsat)).2.1
  values vs hvs c hc hsat s hs hsome := by
    have haround : ColumnStats.Around t { s with nullCount := 0 } c := ⟨hs.min, hs.max⟩
    have hnone := (statsCheck_eq_none_iff (by simp)).1 (hstats c hc hsat _ haround rfl)
    exact hnone.2.2 vs hvs hsome
  sameForm vs hvs hpartitioned c hc hsat :=
    (partitionCheck_eq_none_iff.1 (hpart hpartitioned c hc hsat)).2.2 vs hvs

end QueryFilter

/-! ### The files of a filter -/

section Files

variable {types : String → DataType} {partitioned : Prop} {sat : Cell → Prop} {f : QueryFilter}
  {c : Cell}

lemma ScanEntry.Truthful.around {entry : ScanEntry} {rows : List Row} {row : Row} {column : String}
    {s : ColumnStats} (htruth : entry.Truthful types rows) (hrow : row ∈ rows)
    (hc : row column = some c) (hs : entry.columnStats.lookup column = some s) :
    s.Around (types column) c ∧ s.nullCount ≠ entry.recordCount := by
  have hstats := htruth.stats _ s hs
  have hcell : some c ∈ rows.map fun row => row column := List.mem_map.2 ⟨row, hrow, hc⟩
  refine ⟨⟨?_, ?_⟩, ?_⟩
  · intro m hm
    obtain ⟨d, hd, hdt, hle⟩ := hstats.min m hm
    exact ⟨d, hd, hdt, hle c hcell⟩
  · intro m hm
    obtain ⟨d, hd, hdt, hle⟩ := hstats.max m hm
    exact ⟨d, hd, hdt, hle c hcell⟩
  · rw [hstats.nullCount, htruth.recordCount]
    intro heq
    have hall := List.count_eq_length.1
      (show (rows.map fun row => row column).count none = _ by simpa using heq)
    exact absurd (hall _ hcell) (by simp)

/-- A kept filter does not lose a file with a satisfying value. -/
lemma classifyCondition_eq_none {entry : ScanEntry} {rows : List Row} {row : Row}
    (htruth : entry.Truthful types rows) (hrow : row ∈ rows) (hc : row f.column = some c)
    (hpart : (entry.partitionValues.lookup f.column).isSome → partitioned) (hsat : sat c)
    (hkept : f.negated = false → f.Kept (types f.column) partitioned sat) :
    classifyCondition entry f = none := by
  have htype : (types f.column).Holds c := htruth.typed row hrow _ c hc
  cases hneg : f.negated with
  | true => simp [classifyCondition, hneg]
  | false =>
    simp only [classifyCondition, hneg, Bool.false_eq_true, if_false, Option.or_eq_none_iff,
      Option.bind_eq_none_iff]
    constructor
    · intro v hv
      rw [htruth.partition _ v hv row hrow c hc]
      exact (hkept hneg).partitionCheck (hpart (by simp [hv])) htype hsat
    · intro s hs
      obtain ⟨haround, hnull⟩ := htruth.around hrow hc hs
      exact (hkept hneg).statsCheck htype hsat haround hnull

/-- A file of one row, with statistics of one column. -/
def statsEntry (column : String) (s : ColumnStats) : ScanEntry where
  filePath := []
  recordCount := 1
  columnStats := Finmap.singleton column s

/-- A file of one row, with the partition value of one column. -/
def partitionEntry (column : String) (v : Value) : ScanEntry where
  filePath := []
  recordCount := 1
  partitionValues := Finmap.singleton column v

lemma eq_of_lookup_singleton {α : Type} {k k' : String} {a b : α}
    (h : (Finmap.singleton k a : Finmap fun _ : String => α).lookup k' = some b) :
    k' = k ∧ a = b := by
  have hk : k' = k := by
    have hmem : k' ∈ (Finmap.singleton k a : Finmap fun _ : String => α) :=
      Finmap.mem_of_lookup_eq_some h
    simpa using hmem
  subst hk
  simpa using h

/-- The values of a row are of the types of their columns. -/
def Row.Typed (types : String → DataType) (row : Row) : Prop :=
  ∀ col c, row col = some c → (types col).Holds c

lemma statsEntry_truthful {row : Row} {column : String} {s : ColumnStats}
    (hrow : row.Typed types) (hc : row column = some c) (hs : s.Around (types column) c)
    (hnull : s.nullCount = 0) : (statsEntry column s).Truthful types [row] where
  recordCount := rfl
  typed := by
    intro row' hrow'
    rwa [List.mem_singleton.1 hrow']
  stats := by
    intro col s' hs'
    obtain ⟨rfl, rfl⟩ := eq_of_lookup_singleton hs'
    have hcell : ∀ c', some c' ∈ [row].map (fun row => row col) → c' = c := by
      intro c' hc'
      simpa [hc] using hc'
    constructor
    · intro m hm
      obtain ⟨d, hd, hdt, hle⟩ := hs.min m hm
      exact ⟨d, hd, hdt, fun c' hc' => hcell c' hc' ▸ hle⟩
    · intro m hm
      obtain ⟨d, hd, hdt, hle⟩ := hs.max m hm
      exact ⟨d, hd, hdt, fun c' hc' => hcell c' hc' ▸ hle⟩
    · simp [hnull, hc]
  partition := by
    intro col v hv
    simp [statsEntry] at hv

lemma partitionEntry_truthful {row : Row} {column : String} (hrow : row.Typed types)
    (hc : row column = some c) : (partitionEntry column c.toJson).Truthful types [row] where
  recordCount := rfl
  typed := by
    intro row' hrow'
    rwa [List.mem_singleton.1 hrow']
  stats := by
    intro col s hs
    simp [partitionEntry] at hs
  partition := by
    intro col v hv row' hrow' c' hc'
    obtain ⟨rfl, rfl⟩ := eq_of_lookup_singleton hv
    obtain rfl := List.mem_singleton.1 hrow'
    rw [Option.some.inj (hc.symm.trans hc')]

lemma statsCheck_of_classifyCondition {s : ColumnStats} (hneg : f.negated = false)
    (h : classifyCondition (statsEntry f.column s) f = none) : f.statsCheck s 1 = none := by
  simpa [classifyCondition, hneg, statsEntry] using h

lemma partitionCheck_of_classifyCondition {v : Value} (hneg : f.negated = false)
    (h : classifyCondition (partitionEntry f.column v) f = none) : f.partitionCheck v = none := by
  simpa [classifyCondition, hneg, partitionEntry] using h

end Files

/-! ### Columns and literals of one kind -/

/-- The bounds of a comparison, where SQL compares by a key and the metadata, on either side, by a
monotone image of it. For `>` the image tells the literal from what is above it, and for `<` from
what is below. -/
lemma QueryFilter.keptBounds_of_key {α β γ : Type} [LinearOrder β] [LinearOrder γ] {t : DataType}
    {sat : Cell → Prop} {lower upper : Cell → Cell → α → Prop} {cmp : α → Option Ordering}
    {column : String} {op : Operator} {v : Value} (key : Cell → β) (y : β) (g : β → γ)
    (hop : op ≠ .notEq) (hsat : ∀ c, t.Holds c → sat c → op.holds (compare (key c) y) = true)
    (hkey : ∀ c d, t.Holds c → t.Holds d → c.Le d → key c ≤ key d) (hg : Monotone g)
    (hcmp : ∀ c d x, t.Holds d → lower c d x ∨ upper c d x →
      cmp x = some (compare (g (key d)) (g y)) ∨ cmp x = none)
    (hgt : op = .gt → ∀ z, y < z → g z ≠ g y) (hlt : op = .lt → ∀ z, z < y → g z ≠ g y) :
    (∀ m, (ofComparison column op v).min = some m →
      KeptAbove t sat upper cmp (ofComparison column op v).minInclusive) ∧
    ∀ m, (ofComparison column op v).max = some m →
      KeptBelow t sat lower cmp (ofComparison column op v).maxInclusive := by
  have hle (h : op = .eq ∨ op = .ltEq) (c : Cell) (hc : t.Holds c) (hs : sat c) :
      key c < y ∨ true = true ∧ key c = y := by
    have hnot : ¬ y < key c := by
      intro hlt
      have hholds := hsat c hc hs
      rw [compare_gt_iff_gt.2 hlt] at hholds
      rcases h with rfl | rfl <;> exact absurd hholds (by decide)
    exact (lt_or_eq_of_le (not_lt.1 hnot)).imp_right fun h => ⟨rfl, h⟩
  have hge (h : op = .eq ∨ op = .gtEq) (c : Cell) (hc : t.Holds c) (hs : sat c) :
      y < key c ∨ true = true ∧ y = key c := by
    have hnot : ¬ key c < y := by
      intro hlt
      have hholds := hsat c hc hs
      rw [compare_lt_iff_lt.2 hlt] at hholds
      rcases h with rfl | rfl <;> exact absurd hholds (by decide)
    exact (lt_or_eq_of_le (not_lt.1 hnot)).imp_right fun h => ⟨rfl, h⟩
  have hupper (c d : Cell) (x : α) (_ : t.Holds c) (_ : sat c) (hd : t.Holds d) (_ : c.Le d)
      (hx : upper c d x) : cmp x = some (compare (g (key d)) (g y)) ∨ cmp x = none :=
    hcmp c d x hd (Or.inr hx)
  have hlower (c d : Cell) (x : α) (_ : t.Holds c) (_ : sat c) (hd : t.Holds d) (_ : d.Le c)
      (hx : lower c d x) : cmp x = some (compare (g (key d)) (g y)) ∨ cmp x = none :=
    hcmp c d x hd (Or.inl hx)
  cases op with
  | notEq => exact absurd rfl hop
  | eq =>
    constructor
    · rintro m -
      exact KeptAbove.of_key key y g (hge (Or.inl rfl)) hkey hg hupper fun h => by cases h
    · rintro m -
      exact KeptBelow.of_key key y g (hle (Or.inl rfl)) hkey hg hlower fun h => by cases h
  | gt =>
    refine ⟨fun m _ => ?_, fun m hm => (by cases hm)⟩
    refine KeptAbove.of_key key y g (fun c hc hs => Or.inl ?_) hkey hg hupper fun _ => hgt rfl
    simpa [Operator.holds, compare_gt_iff_gt] using hsat c hc hs
  | gtEq =>
    refine ⟨fun m _ => ?_, fun m hm => (by cases hm)⟩
    exact KeptAbove.of_key key y g (hge (Or.inr rfl)) hkey hg hupper fun h => by cases h
  | lt =>
    refine ⟨fun m hm => (by cases hm), fun m _ => ?_⟩
    refine KeptBelow.of_key key y g (fun c hc hs => Or.inl ?_) hkey hg hlower fun _ => hlt rfl
    simpa [Operator.holds, compare_lt_iff_lt] using hsat c hc hs
  | ltEq =>
    refine ⟨fun m hm => (by cases hm), fun m _ => ?_⟩
    exact KeptBelow.of_key key y g (hle (Or.inr rfl)) hkey hg hlower fun h => by cases h

namespace QueryFilter.Kept

variable {t : DataType} {partitioned : Prop} {sat : Cell → Prop} {column : String} {op : Operator}
  {v : Value}

/-- A value is in the range of statistics none of which compares beyond it. -/
lemma inRange_of_around {s : ColumnStats} {c : Cell} (haround : s.Around t c)
    (hmin : ∀ m d, ManifestValue.toCell t m = some d → t.Holds d → d.Le c →
      v.compareValues d.toJson ≠ some .lt)
    (hmax : ∀ m d, ManifestValue.toCell t m = some d → t.Holds d → c.Le d →
      v.compareValues d.toJson ≠ some .gt) : inRange s v = true := by
  rw [inRange, Bool.and_eq_true, Bool.not_eq_true', Bool.not_eq_true']
  constructor
  · cases hm : s.min with
    | none => rfl
    | some m =>
      obtain ⟨d, hd, hdt, hle⟩ := haround.min m hm
      simpa [ManifestValue.toJsonValue_of_toCell hd] using hmin m d hd hdt hle
  · cases hm : s.max with
    | none => rfl
    | some m =>
      obtain ⟨d, hd, hdt, hle⟩ := haround.max m hm
      simpa [ManifestValue.toJsonValue_of_toCell hd] using hmax m d hd hdt hle

/-- A comparison whose bounds are kept; the value of an equality has one JSON form. -/
lemma of_bounds
    (hmin : ∀ m, (ofComparison column op v).min = some m →
      KeptAbove t sat (t.Stands partitioned) (·.compareValues v)
        (ofComparison column op v).minInclusive)
    (hmax : ∀ m, (ofComparison column op v).max = some m →
      KeptBelow t sat (t.Stands partitioned) (·.compareValues v)
        (ofComparison column op v).maxInclusive)
    (hform : op = .eq → partitioned → ∀ c, t.Holds c → sat c → c.toJson = v)
    (hop : op ≠ .notEq) : (ofComparison column op v).Kept t partitioned sat where
  min m hm := by
    obtain rfl : v = m := by cases op <;> cases hm <;> rfl
    exact hmin v hm
  max m hm := by
    obtain rfl : v = m := by cases op <;> cases hm <;> rfl
    exact hmax v hm
  values vs hvs c hc hs s haround _ := by
    obtain rfl : op = .eq := by
      cases op <;> first | rfl | exact absurd rfl hop | cases hvs
    obtain rfl : [v] = vs := Option.some.inj hvs
    refine ⟨v, by simp, inRange_of_around haround (fun m d hd hdt hle => ?_)
      fun m d hd hdt hle => ?_⟩
    · rw [ne_eq, Value.compareValues_eq_lt]
      exact (hmax v rfl c d _ hc hs hdt hle ⟨rfl, Or.inl ⟨m, hd⟩⟩).1
    · rw [ne_eq, Value.compareValues_eq_gt]
      exact (hmin v rfl c d _ hc hs hdt hle ⟨rfl, Or.inl ⟨m, hd⟩⟩).1
  sameForm vs hvs hpart c hc hs := by
    obtain rfl : op = .eq := by
      cases op <;> first | rfl | exact absurd rfl hop | cases hvs
    obtain rfl : [v] = vs := Option.some.inj hvs
    simpa using hform rfl hpart c hc hs

/-- A comparison with a literal, where SQL compares by a key and JSON by a monotone image of it. -/
lemma of_key {β γ : Type} [LinearOrder β] [LinearOrder γ] (key : Cell → β) (y : β) (g : β → γ)
    (hop : op ≠ .notEq) (hsat : ∀ c, t.Holds c → sat c → op.holds (compare (key c) y) = true)
    (hkey : ∀ c d, t.Holds c → t.Holds d → c.Le d → key c ≤ key d) (hg : Monotone g)
    (hjson : ∀ d, t.Holds d → d.toJson.compareValues v = some (compare (g (key d)) (g y)) ∨
      d.toJson.compareValues v = none)
    (hgt : op = .gt → ∀ z, y < z → g z ≠ g y) (hlt : op = .lt → ∀ z, z < y → g z ≠ g y)
    (hform : op = .eq → partitioned → ∀ c, t.Holds c → key c = y → c.toJson = v) :
    (ofComparison column op v).Kept t partitioned sat := by
  have hcmp (c d : Cell) (x : Value) (hd : t.Holds d)
      (hx : t.Stands partitioned c d x ∨ t.Stands partitioned c d x) :
      x.compareValues v = some (compare (g (key d)) (g y)) ∨ x.compareValues v = none := by
    obtain rfl : x = d.toJson := hx.elim And.left And.left
    exact hjson d hd
  obtain ⟨hmin, hmax⟩ := keptBounds_of_key key y g hop hsat hkey hg hcmp hgt hlt
  refine of_bounds hmin hmax ?_ hop
  rintro rfl hpart c hc hs
  exact hform rfl hpart c hc (by simpa [Operator.holds] using hsat c hc hs)

/-- A list of values that has the JSON form of every satisfying value. -/
lemma of_values {vs : List Value} {negated : Bool}
    (hmem : ∀ c, t.Holds c → sat c → c.toJson ∈ vs)
    (hmono : ∀ c d, t.Holds c → t.Holds d → c.Le d → c.toJson.compareValues d.toJson ≠ some .gt) :
    (ofValues column vs negated).Kept t partitioned sat := by
  refine ⟨fun x hx => (by cases hx), fun x hx => (by cases hx), ?_, ?_⟩
  · rintro vs ⟨⟩ c hc hs s haround -
    refine ⟨c.toJson, hmem c hc hs, inRange_of_around haround (fun _ d _ hdt hle => ?_)
      fun _ d _ hdt hle => hmono c d hc hdt hle⟩
    rw [ne_eq, Value.compareValues_eq_lt]
    exact hmono d c hdt hc hle
  · rintro vs ⟨⟩ - c hc hs
    exact hmem c hc hs

end QueryFilter.Kept

end BenoStreamDB

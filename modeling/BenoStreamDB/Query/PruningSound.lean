import BenoStreamDB.Query.Pruning

/-!
# Soundness of file pruning

From the filters to whole expressions: the planner strips the casts of a column and of a literal
and drops the elements of an IN list that it cannot convert, so an expression is required to be
`Convertible`: each filter that the planner makes of one of its parts keeps the files of all rows
that satisfy the expression. Then no file with such a row is lost.
-/

namespace BenoStreamDB

/-! ### Expressions -/

namespace Semantics

variable (S : Semantics)

/-- The value of a column under casts, where the column has the value `c`. -/
def castColumn : Operand → Cell → Option Cell
  | .column _, c => some c
  | .cast e t, c | .tryCast e t, c => (castColumn e c).bind (S.cast t)
  | _, _ => none

/-- The value of a literal under casts. -/
def literalValue : Operand → Option Cell
  | .literal s => s.value
  | .cast e t | .tryCast e t => (literalValue e).bind (S.cast t)
  | _ => none

/-- The comparison of a column with a literal, where the column has the value `c`. -/
def compareColumn (column literal : Operand) (c : Cell) : Option Ordering :=
  (S.castColumn column c).bind fun a => (S.literalValue literal).bind fun b => a.compare S.cast b

/-- The same with the literal on the left. -/
def compareLiteral (literal column : Operand) (c : Cell) : Option Ordering :=
  (S.literalValue literal).bind fun a =>
    (S.castColumn column c).bind fun b => (a.compare S.cast b).map Ordering.swap

variable {S} {row : Row} {e : Operand}

lemma evalOperand_of_columnName {column : String} (h : e.columnName = some column) :
    S.evalOperand row e = (row column).bind (S.castColumn e) := by
  induction e with
  | column name =>
    obtain rfl : name = column := by simpa [Operand.columnName] using h
    simp [evalOperand, castColumn]
  | cast e t ih => simp [evalOperand, castColumn, ih h, Option.bind_assoc]
  | tryCast e t ih => simp [evalOperand, castColumn, ih h, Option.bind_assoc]
  | literal s => simp [Operand.columnName] at h
  | other id columns => simp [Operand.columnName] at h

lemma evalOperand_of_literalJson {v : Value} (h : e.literalJson = some v) :
    S.evalOperand row e = S.literalValue e := by
  induction e with
  | literal s => rfl
  | cast e t ih => simp [evalOperand, literalValue, ih h]
  | tryCast e t ih => simp [evalOperand, literalValue, ih h]
  | column name => simp [Operand.literalJson] at h
  | other id columns => simp [Operand.literalJson] at h

/-- A comparison of a column with a literal is made on the value of the column. -/
lemma compareOperands_columnLiteral {left right : Operand} {op : Operator} {column : String}
    {v : Value} (hcolumn : left.columnName = some column) (hliteral : right.literalJson = some v) :
    S.compareOperands row left op right =
      (row column).bind fun c => (S.compareColumn left right c).map op.holds := by
  rw [compareOperands, evalOperand_of_columnName hcolumn, evalOperand_of_literalJson hliteral,
    Option.bind_assoc]
  cases row column with
  | none => rfl
  | some c =>
    simp only [Option.bind_some, compareColumn]
    cases S.castColumn left c <;> cases S.literalValue right <;> simp

lemma compareOperands_literalColumn {left right : Operand} {op : Operator} {column : String}
    {v : Value} (hliteral : left.literalJson = some v) (hcolumn : right.columnName = some column) :
    S.compareOperands row left op right =
      (row column).bind fun c => (S.compareLiteral left right c).map op.swap.holds := by
  rw [compareOperands, evalOperand_of_columnName hcolumn, evalOperand_of_literalJson hliteral]
  cases row column with
  | none => cases S.literalValue left <;> simp
  | some c =>
    simp only [Option.bind_some, compareLiteral]
    cases ha : S.literalValue left with
    | none => simp
    | some a =>
      cases hb : S.castColumn right c with
      | none => simp
      | some b => simp [Function.comp_def, Operator.holds_swap]

end Semantics

section Expressions

variable (S : Semantics) (types : String → DataType) (parts : String → Prop)

/-- The values that a column has in the typed rows of `P`. -/
def valuesAt (P : Row → Prop) (column : String) (c : Cell) : Prop :=
  ∃ row : Row, row.Typed types ∧ row column = some c ∧ P row

/-- The filter keeps the files of all rows of `P`. -/
def QueryFilter.KeptFor (P : Row → Prop) (f : QueryFilter) : Prop :=
  f.negated = false → f.Kept (types f.column) (parts f.column) (valuesAt types P f.column)

/-- The filters that the planner makes of the parts of the expression keep the files of the rows of
`P`; of a disjunction, each side only those of the rows that satisfy it. -/
def Expr.Convertible : Expr → (Row → Prop) → Prop
  | .and l r, P => l.Convertible P ∧ r.Convertible P
  | .or l r, P =>
    l.Convertible (fun row => P row ∧ S.Satisfies row l) ∧
      r.Convertible (fun row => P row ∧ S.Satisfies row r)
  | .binary l op r, P => ∀ f, QueryFilter.ofBinary l op r = some f → f.KeptFor types parts P
  | .inList e list negated, P =>
    ∀ f, QueryFilter.ofInList e list negated = some f → f.KeptFor types parts P
  | .between e low high false, P =>
    ∀ f, QueryFilter.ofBetween e low high = some f → f.KeptFor types parts P
  | _, _ => True

/-- No truthful file that has a row of `P` is pruned. -/
def Expr.KeepsFiles (e : Expr) (P : Row → Prop) : Prop :=
  ∀ (entry : ScanEntry) (rows : List Row), entry.Truthful types rows →
    (∀ col, (entry.partitionValues.lookup col).isSome → parts col) →
      ∀ row ∈ rows, P row → mightMatchDfExpr entry e = true

/-- The expression is a conjunction of parts, without OR between them. -/
def Expr.orFree : Expr → Bool
  | .and l r => l.orFree && r.orFree
  | .or _ _ => false
  | _ => true

variable {S types parts} {P : Row → Prop} {e : Expr} {f : QueryFilter} {row : Row}

/-- The column of a filter is not NULL in a row that satisfies the comparison. -/
lemma exists_of_ofBinary {left right : Operand} {op : Operator}
    (hf : QueryFilter.ofBinary left op right = some f)
    (hsat : S.Satisfies row (.binary left op right)) : ∃ c, row f.column = some c := by
  have hsat' : S.compareOperands row left op right = some true := hsat
  cases hleft : left.columnName with
  | some column =>
    simp only [QueryFilter.ofBinary, hleft, Option.map_eq_some_iff] at hf
    obtain ⟨v, hv, rfl⟩ := hf
    rw [Semantics.compareOperands_columnLiteral hleft hv] at hsat'
    obtain ⟨c, hc, -⟩ := Option.bind_eq_some_iff.1 hsat'
    exact ⟨c, by cases op <;> exact hc⟩
  | none =>
    cases hright : right.columnName with
    | none => simp [QueryFilter.ofBinary, hleft, hright] at hf
    | some column =>
      simp only [QueryFilter.ofBinary, hleft, hright, Option.map_eq_some_iff] at hf
      obtain ⟨v, hv, rfl⟩ := hf
      rw [Semantics.compareOperands_literalColumn hv hright] at hsat'
      obtain ⟨c, hc, -⟩ := Option.bind_eq_some_iff.1 hsat'
      exact ⟨c, by cases op <;> exact hc⟩

lemma exists_of_ofInList {e : Operand} {list : List Operand} {negated : Bool}
    (hf : QueryFilter.ofInList e list negated = some f) (hneg : f.negated = false)
    (hsat : S.Satisfies row (.inList e list negated)) : ∃ c, row f.column = some c := by
  cases e with
  | column column =>
    by_cases hempty : (list.filterMap QueryFilter.listValue).isEmpty
    · simp [QueryFilter.ofInList, hempty] at hf
    · obtain rfl : QueryFilter.ofValues column (list.filterMap QueryFilter.listValue) negated = f :=
        by simpa [QueryFilter.ofInList, hempty] using hf
      obtain rfl : negated = false := hneg
      obtain ⟨x, -, heq⟩ := S.satisfies_inList.1 hsat
      obtain ⟨c, hc, -⟩ := Option.bind_eq_some_iff.1 heq
      exact ⟨c, hc⟩
  | literal s => cases hf
  | cast e t => cases hf
  | tryCast e t => cases hf
  | other id columns => cases hf

lemma exists_of_ofBetween {e low high : Operand}
    (hf : QueryFilter.ofBetween e low high = some f)
    (hsat : S.Satisfies row (.between e low high false)) : ∃ c, row f.column = some c := by
  cases hcolumn : e.columnName with
  | none => simp [QueryFilter.ofBetween, hcolumn] at hf
  | some column =>
    cases hlo : low.literalJson with
    | none => simp [QueryFilter.ofBetween, hcolumn, hlo] at hf
    | some lo =>
      cases hhi : high.literalJson with
      | none => simp [QueryFilter.ofBetween, hcolumn, hlo, hhi] at hf
      | some hi =>
        obtain rfl : QueryFilter.ofRange column lo hi = f := by
          simpa [QueryFilter.ofBetween, hcolumn, hlo, hhi] using hf
        have hboth : S.compareOperands row e .gtEq low = some true ∧
            S.compareOperands row e .ltEq high = some true := by
          simpa [Semantics.Satisfies, Semantics.eval] using hsat
        rw [Semantics.compareOperands_columnLiteral hcolumn hlo] at hboth
        obtain ⟨c, hc, -⟩ := Option.bind_eq_some_iff.1 hboth.1
        exact ⟨c, hc⟩

/-- A kept filter does not lose a file with a row of `P`. -/
lemma mightMatchCondition_of_keptFor {entry : ScanEntry} {rows : List Row}
    (htruth : entry.Truthful types rows)
    (hparts : ∀ col, (entry.partitionValues.lookup col).isSome → parts col) (hrow : row ∈ rows)
    (hP : P row) (hc : f.negated = false → ∃ c, row f.column = some c)
    (hkept : f.KeptFor types parts P) : mightMatchCondition entry f = true := by
  cases hneg : f.negated with
  | true => simp [mightMatchCondition, classifyCondition, hneg]
  | false =>
    obtain ⟨c, hc⟩ := hc hneg
    have hnone := classifyCondition_eq_none htruth hrow hc (hparts f.column)
      ⟨row, htruth.typed row hrow, hc, hP⟩ hkept
    simp [mightMatchCondition, hnone]

/-- If a filter decides about a part and loses none of its files, then it is kept. -/
lemma keptFor_of_keepsFiles (hf : ∀ entry, mightMatchDfExpr entry e = mightMatchCondition entry f)
    (hkeeps : e.KeepsFiles types parts P) : f.KeptFor types parts P := by
  intro hneg
  have hnone {entry : ScanEntry} {row : Row} (htruth : entry.Truthful types [row])
      (hparts : ∀ col, (entry.partitionValues.lookup col).isSome → parts col)
      (hP : P row) : classifyCondition entry f = none := by
    have h := hkeeps entry [row] htruth hparts row List.mem_cons_self hP
    rwa [hf, mightMatchCondition, Option.isNone_iff_eq_none] at h
  apply QueryFilter.Kept.of_checks
  · rintro c hc ⟨row, hrow, hcell, hP⟩ s hs hnull
    apply statsCheck_of_classifyCondition hneg
    refine hnone (statsEntry_truthful hrow hcell hs hnull) ?_ hP
    intro col hcol
    simp [statsEntry] at hcol
  · rintro hpart c hc ⟨row, hrow, hcell, hP⟩
    apply partitionCheck_of_classifyCondition hneg
    refine hnone (partitionEntry_truthful hrow hcell) ?_ hP
    intro col hcol
    obtain ⟨v, hv⟩ := Option.isSome_iff_exists.1 hcol
    rw [(eq_of_lookup_singleton hv).1]
    exact hpart

/-- The files of the rows of `P` are kept, if these rows satisfy the expression. -/
lemma Expr.Convertible.keepsFiles (hconv : e.Convertible S types parts P)
    (hP : ∀ row, P row → S.Satisfies row e) : e.KeepsFiles types parts P := by
  intro entry rows htruth hparts row hrow hrowP
  have hsat := hP row hrowP
  induction e generalizing P with
  | and l r ihl ihr =>
    have hboth (row : Row) (h : P row) := sqlAnd_eq_true.1 (hP row h)
    have hl := ihl hconv.1 (fun row h => (hboth row h).1) hrowP (hboth row hrowP).1
    have hr := ihr hconv.2 (fun row h => (hboth row h).2) hrowP (hboth row hrowP).2
    simp [mightMatchDfExpr, hl, hr]
  | or l r ihl ihr =>
    rcases sqlOr_eq_true.1 hsat with hl | hr
    · simp [mightMatchDfExpr, ihl hconv.1 (fun row h => h.2) ⟨hrowP, hl⟩ hl]
    · simp [mightMatchDfExpr, ihr hconv.2 (fun row h => h.2) ⟨hrowP, hr⟩ hr]
  | binary l op r =>
    rw [mightMatchDfExpr, Option.all_eq_true]
    intro f hf
    exact mightMatchCondition_of_keptFor htruth hparts hrow hrowP
      (fun _ => exists_of_ofBinary hf hsat) (hconv f hf)
  | inList e list negated =>
    rw [mightMatchDfExpr, Option.all_eq_true]
    intro f hf
    exact mightMatchCondition_of_keptFor htruth hparts hrow hrowP
      (fun hneg => exists_of_ofInList hf hneg hsat) (hconv f hf)
  | between e low high negated =>
    cases negated with
    | true => rfl
    | false =>
      rw [mightMatchDfExpr, Option.all_eq_true]
      intro f hf
      exact mightMatchCondition_of_keptFor htruth hparts hrow hrowP
        (fun _ => exists_of_ofBetween hf hsat) (hconv f hf)
  | literal b => rfl
  | not e => rfl
  | isNull e => rfl
  | isNotNull e => rfl
  | json p => rfl
  | other id columns => rfl

/-- A conjunction whose files are all kept is convertible: each part alone can lose a file. -/
lemma Expr.convertible_of_keepsFiles (hfree : e.orFree = true)
    (hkeeps : e.KeepsFiles types parts P) : e.Convertible S types parts P := by
  induction e with
  | and l r ihl ihr =>
    obtain ⟨hl, hr⟩ := (Bool.and_eq_true _ _).mp hfree
    have hboth (entry : ScanEntry) (h : mightMatchDfExpr entry (.and l r) = true) :
        mightMatchDfExpr entry l = true ∧ mightMatchDfExpr entry r = true :=
      (Bool.and_eq_true _ _).mp h
    constructor
    · refine ihl hl fun entry rows htruth hparts row hrow hP => ?_
      exact (hboth entry (hkeeps entry rows htruth hparts row hrow hP)).1
    · refine ihr hr fun entry rows htruth hparts row hrow hP => ?_
      exact (hboth entry (hkeeps entry rows htruth hparts row hrow hP)).2
  | or l r => cases hfree
  | binary l op r =>
    intro f hf
    exact keptFor_of_keepsFiles (fun entry => by simp [mightMatchDfExpr, hf]) hkeeps
  | inList e list negated =>
    intro f hf
    exact keptFor_of_keepsFiles (fun entry => by simp [mightMatchDfExpr, hf]) hkeeps
  | between e low high negated =>
    cases negated with
    | true => trivial
    | false =>
      intro f hf
      exact keptFor_of_keepsFiles (fun entry => by simp [mightMatchDfExpr, hf]) hkeeps
  | literal b => trivial
  | not e => trivial
  | isNull e => trivial
  | isNotNull e => trivial
  | json p => trivial
  | other id columns => trivial

/-- The values that satisfy the comparison of a column with a literal. -/
lemma compare_of_valuesAt {column : String} {op : Operator} {s : Scalar} {a c : Cell}
    (hP : ∀ row, P row → S.Satisfies row (.binary (.column column) op (.literal s)))
    (hs : s.value = some a) (h : valuesAt types P column c) :
    ∃ o, c.compare S.cast a = some o ∧ op.holds o = true := by
  obtain ⟨row, -, hc, hrow⟩ := h
  simpa [Semantics.Satisfies, Semantics.eval, Semantics.compareOperands, Semantics.evalOperand, hc,
    hs] using hP row hrow

lemma QueryFilter.keptFor_ofComparison {column : String} {op : Operator} {v : Value}
    (h : op ≠ .notEq → (ofComparison column op v).Kept (types column) (parts column)
      (valuesAt types P column)) : (ofComparison column op v).KeptFor types parts P := by
  intro hneg
  cases op with
  | notEq => cases hneg
  | eq => exact h (by decide)
  | lt => exact h (by decide)
  | ltEq => exact h (by decide)
  | gt => exact h (by decide)
  | gtEq => exact h (by decide)

/-- A column of signed integers and an integer literal of 64 bits, with any operator. -/
lemma keptFor_int {column : String} (op : Operator) {type : DataType} {j : ℤ} (hj : IsSigned 64 j)
    (ht : ∀ c, (types column).Holds c → ∃ i, c = .int i ∧ IsSigned 64 i)
    (hP : ∀ row, P row →
      S.Satisfies row (.binary (.column column) op (.literal ⟨type, some (.int j)⟩))) :
    (QueryFilter.ofComparison column op (.int j)).KeptFor types parts P := by
  refine QueryFilter.keptFor_ofComparison fun hop => ?_
  refine QueryFilter.Kept.of_key Cell.intKey j id hop ?_ ?_ monotone_id ?_
    (fun _ z hz => hz.ne') (fun _ z hz => hz.ne) ?_
  · intro c hc hsat
    obtain ⟨i, rfl, -⟩ := ht c hc
    obtain ⟨o, ho, hholds⟩ := compare_of_valuesAt hP rfl hsat
    obtain rfl : compare i j = o := Option.some.inj ho
    exact hholds
  · intro c d hc hd hle
    obtain ⟨i, rfl, -⟩ := ht c hc
    obtain ⟨k, rfl, -⟩ := ht d hd
    exact hle
  · intro d hd
    obtain ⟨i, rfl, hi⟩ := ht d hd
    left
    simp [Cell.toJson, Value.compareValues, Cell.intKey, hi, hj]
  · rintro - - c hc heq
    obtain ⟨i, rfl, -⟩ := ht c hc
    rw [show i = j from heq, Cell.toJson]

/-- A column of doubles and a number. As JSON the two zeros are equal and in SQL they are not, so
`< 0.0` is the one comparison that loses a file. -/
lemma keptFor_real {column : String} {op : Operator} {type : DataType} {q : ℚ}
    (hop : op = .lt → q ≠ 0) (ht : ∀ c, (types column).Holds c → ∃ x, c = .float x)
    (hP : ∀ row, P row →
      S.Satisfies row (.binary (.column column) op (.literal ⟨type, some (.float (.num q))⟩))) :
    (QueryFilter.ofComparison column op (.real q)).KeptFor types parts P := by
  refine QueryFilter.keptFor_ofComparison fun hne => ?_
  refine QueryFilter.Kept.of_key Cell.doubleKey (.num q) Double.ieeeKey hne ?_ ?_
    (fun x y => Double.ieeeKey_le_of_le) ?_ ?_ ?_ ?_
  · intro c hc hsat
    obtain ⟨x, rfl⟩ := ht c hc
    obtain ⟨o, ho, hholds⟩ := compare_of_valuesAt hP rfl hsat
    obtain rfl : compare x (.num q) = o := Option.some.inj ho
    exact hholds
  · intro c d hc hd hle
    obtain ⟨x, rfl⟩ := ht c hc
    obtain ⟨y, rfl⟩ := ht d hd
    exact hle
  · intro d hd
    obtain ⟨x, rfl⟩ := ht d hd
    cases x with
    | nan n => exact Or.inr rfl
    | inf n => exact Or.inr rfl
    | negZero => exact Or.inl rfl
    | num r => exact Or.inl rfl
  · rintro - z hz
    exact (Double.ieeeKey_lt_of_lt hz (by simp)).ne'
  · intro hlt z hz
    refine (Double.ieeeKey_lt_of_lt hz ?_).ne
    rintro ⟨-, hq⟩
    exact hop hlt (by simpa using hq)
  · rintro - - c hc heq
    obtain ⟨x, rfl⟩ := ht c hc
    rw [show x = .num q from heq]
    rfl

/-- A column of texts and a list of texts. -/
lemma keptFor_texts {column : String} (texts : List String) {type : DataType}
    (ht : ∀ c, (types column).Holds c → ∃ r, c = .string r)
    (hP : ∀ row, P row → S.Satisfies row
      (.inList (.column column) (texts.map fun s => .literal ⟨type, some (.string s)⟩) false)) :
    (QueryFilter.ofValues column (texts.map .string) false).KeptFor types parts P := by
  intro _
  apply QueryFilter.Kept.of_values
  · rintro c hc ⟨row, -, hcell, hrow⟩
    obtain ⟨r, rfl⟩ := ht c hc
    obtain ⟨x, hx, heq⟩ := S.satisfies_inList.1 (hP row hrow)
    obtain ⟨s, hs, rfl⟩ := List.mem_map.1 hx
    have hcell' : row column = some (.string r) := hcell
    rw [Semantics.compareOperands, Semantics.evalOperand, hcell'] at heq
    obtain rfl : r = s := by
      have hcmp : some (compare r s == .eq) = some true := heq
      simpa using hcmp
    exact List.mem_map_of_mem hs
  · intro c d hc hd hle
    obtain ⟨r, rfl⟩ := ht c hc
    obtain ⟨s, rfl⟩ := ht d hd
    rw [Cell.toJson, Cell.toJson, Value.compareValues, Ne, Option.some.injEq, compare_gt_iff_gt,
      not_lt]
    exact hle

end Expressions

/-! ### Examples -/

/-- Conversions between 64-bit integers and doubles: a double is truncated. -/
def numericCast : CastFn
  | .int64, .int i => some (.int i)
  | .int64, .float (.num q) => some (.int (q.num.tdiv q.den))
  | .float64, .int i => some (.float (Double.ofInt i))
  | .float64, .float x => some (.float x)
  | _, _ => none

/-- Semantics with no opaque expressions. -/
def numericSemantics : Semantics where
  cast := numericCast
  operand _ _ := none
  json _ _ := none
  predicate _ _ := none

/-- The rows `x, y, s = 'a'` -/
def measureRow (x : ℤ) (y : Double) : Row
  | "x" => some (.int x)
  | "y" => some (.float y)
  | "s" => some (.string "a")
  | _ => none

def measureRows : List Row := [measureRow 3 .negZero, measureRow 7 (.num (3 / 2))]

/-- The file with the rows `x = 3, y = -0.0` and `x = 7, y = 1.5`, partitioned by `s`. -/
def measureEntry : ScanEntry where
  filePath := ['a']
  recordCount := 2
  partitionValues := Finmap.singleton "s" (.string "a")
  columnStats :=
    (Finmap.singleton "x" { min := some (.int64 3), max := some (.int64 7) }).insert "y"
      { min := some (.float64 .negZero), max := some (.float64 (.num (3 / 2))) }

def measureTypes : String → DataType
  | "x" => .int64
  | "y" => .float64
  | _ => .utf8

/-- `x > 5 AND y > 0.0 AND s IN ('a', 'b')` -/
def measureExpr : Expr :=
  .and (.and (.binary (.column "x") .gt (.literal ⟨.int64, some (.int 5)⟩))
      (.binary (.column "y") .gt (.literal ⟨.float64, some (.float (.num 0))⟩)))
    (.inList (.column "s") [.literal ⟨.utf8, some (.string "a")⟩,
      .literal ⟨.utf8, some (.string "b")⟩] false)

lemma measureRow_typed {x : ℤ} (hx : IsSigned 64 x) (y : Double) :
    (measureRow x y).Typed measureTypes := by
  intro col c hc
  by_cases hcolx : col = "x"
  · subst hcolx
    obtain rfl : c = .int x := by simpa [measureRow, eq_comm] using hc
    exact hx
  by_cases hcoly : col = "y"
  · subst hcoly
    obtain rfl : c = .float y := by simpa [measureRow, eq_comm] using hc
    trivial
  by_cases hcols : col = "s"
  · subst hcols
    obtain rfl : c = .string "a" := by simpa [measureRow, eq_comm] using hc
    trivial
  · simp [measureRow] at hc

lemma mem_measureRows {row : Row} (h : row ∈ measureRows) :
    row = measureRow 3 .negZero ∨ row = measureRow 7 (.num (3 / 2)) := by
  simpa [measureRows] using h

lemma measureEntry_truthful : measureEntry.Truthful measureTypes measureRows where
  recordCount := rfl
  typed := by
    intro row hrow
    rcases mem_measureRows hrow with rfl | rfl
    · exact measureRow_typed (by decide) _
    · exact measureRow_typed (by decide) _
  stats := by
    intro col s hs
    by_cases hcol : col = "y"
    · subst hcol
      rw [measureEntry, Finmap.lookup_insert, Option.some.injEq] at hs
      subst hs
      have hcells (c : Cell) (hc : some c ∈ measureRows.map fun row => row "y") :
          (Cell.float .negZero).Le c ∧ c.Le (.float (.num (3 / 2))) := by
        have hle : Double.negZero ≤ .num (3 / 2) := by decide +kernel
        obtain ⟨row, hrow, hcell⟩ := List.mem_map.1 hc
        rcases mem_measureRows hrow with rfl | rfl
        · obtain rfl : Cell.float .negZero = c := by simpa [measureRow] using hcell
          exact ⟨.refl _, hle⟩
        · obtain rfl : Cell.float (.num (3 / 2)) = c := by simpa [measureRow] using hcell
          exact ⟨hle, .refl _⟩
      refine ⟨?_, ?_, by decide⟩
      · rintro m ⟨⟩
        exact ⟨_, rfl, trivial, fun c hc => (hcells c hc).1⟩
      · rintro m ⟨⟩
        exact ⟨_, rfl, trivial, fun c hc => (hcells c hc).2⟩
    · rw [measureEntry, Finmap.lookup_insert_of_ne _ hcol] at hs
      obtain ⟨rfl, rfl⟩ := eq_of_lookup_singleton hs
      have hcells (c : Cell) (hc : some c ∈ measureRows.map fun row => row "x") :
          (Cell.int 3).Le c ∧ c.Le (.int 7) := by
        have hle : (3 : ℤ) ≤ 7 := by decide
        obtain ⟨row, hrow, hcell⟩ := List.mem_map.1 hc
        rcases mem_measureRows hrow with rfl | rfl
        · obtain rfl : Cell.int 3 = c := by simpa [measureRow] using hcell
          exact ⟨.refl _, hle⟩
        · obtain rfl : Cell.int 7 = c := by simpa [measureRow] using hcell
          exact ⟨hle, .refl _⟩
      refine ⟨?_, ?_, by decide⟩
      · rintro m ⟨⟩
        exact ⟨_, rfl, ⟨by decide, by decide⟩, fun c hc => (hcells c hc).1⟩
      · rintro m ⟨⟩
        exact ⟨_, rfl, ⟨by decide, by decide⟩, fun c hc => (hcells c hc).2⟩
  partition := by
    intro col v hv row hrow c hc
    obtain ⟨rfl, rfl⟩ := eq_of_lookup_singleton hv
    rcases mem_measureRows hrow with rfl | rfl <;>
      · obtain rfl : c = .string "a" := by simpa [measureRow, eq_comm] using hc
        rfl

lemma measureExpr_convertible (parts : String → Prop) :
    measureExpr.Convertible numericSemantics measureTypes parts
      (numericSemantics.Satisfies · measureExpr) := by
  refine ⟨⟨?_, ?_⟩, ?_⟩
  · rintro f ⟨⟩
    refine keptFor_int .gt (by decide) ?_ fun row h => (sqlAnd_eq_true.1 (sqlAnd_eq_true.1 h).1).1
    intro c hc
    cases c <;> simp_all [DataType.Holds, measureTypes]
  · rintro f ⟨⟩
    refine keptFor_real (by decide) ?_ fun row h => (sqlAnd_eq_true.1 (sqlAnd_eq_true.1 h).1).2
    intro c hc
    cases c <;> simp_all [DataType.Holds, measureTypes]
  · rintro f ⟨⟩
    refine keptFor_texts ["a", "b"] ?_ fun row h => (sqlAnd_eq_true.1 h).2
    intro c hc
    cases c <;> simp_all [DataType.Holds, measureTypes]

/-- The file with the one row `f = 2.5`. -/
def fractionEntry : ScanEntry where
  filePath := ['a']
  recordCount := 1
  columnStats := Finmap.singleton "f"
    { min := some (.float64 (.num (5 / 2))), max := some (.float64 (.num (5 / 2))) }

def fractionRow : Row
  | "f" => some (.float (.num (5 / 2)))
  | _ => none

/-- `CAST(f AS BIGINT) = 2` -/
def fractionExpr : Expr :=
  .binary (.cast (.column "f") .int64) .eq (.literal ⟨.int64, some (.int 2)⟩)

lemma fractionEntry_truthful : fractionEntry.Truthful (fun _ => .float64) [fractionRow] where
  recordCount := rfl
  typed := by
    intro row hrow col c hc
    obtain rfl : row = fractionRow := by simpa using hrow
    by_cases hf : col = "f"
    · subst hf
      obtain rfl : c = .float (.num (5 / 2)) := by simpa [fractionRow, eq_comm] using hc
      trivial
    · simp [fractionRow] at hc
  stats := by
    intro col s hs
    obtain ⟨rfl, rfl⟩ := eq_of_lookup_singleton hs
    have hcell : ∀ c, some c ∈ [fractionRow].map (fun row => row "f") →
        c = .float (.num (5 / 2)) := by
      intro c hc
      simpa [fractionRow] using hc
    have hbound : ∀ m, m ∈ some (ManifestValue.float64 (.num (5 / 2))) →
        m = .float64 (.num (5 / 2)) := by
      intro m hm
      simpa [eq_comm] using hm
    constructor
    · intro m hm
      rw [hbound m hm]
      exact ⟨_, rfl, trivial, fun c hc => hcell c hc ▸ .refl _⟩
    · intro m hm
      rw [hbound m hm]
      exact ⟨_, rfl, trivial, fun c hc => hcell c hc ▸ .refl _⟩
    · decide
  partition := by
    intro col v hv
    simp [fractionEntry] at hv

end BenoStreamDB

import BenoStreamDB.Foundations.Failing
import BenoStreamDB.Query.Filters

/-!
# Filter masks

`evaluate_condition` of `planner.rs` computes the rows of a batch that a `QueryFilter` selects, with
Arrow's kernels and values that are converted to the type of the column (`evaluateCondition`, for
one row). `to_expr` is the filter as an expression of SQL.

The conversion rounds, wraps and clamps numbers, gives NULL for a value of another kind, and the
kernels tell the two zeros apart; a NULL makes every conjunction and disjunction NULL. Both select
the same rows if the values of the filter are values of the column's type
(`evaluateCondition_agrees`).
-/

namespace BenoStreamDB

/-! ### The mask -/

/-- The conversions of numbers: `as i32` and `as i64` of a double, by the number of bits, and
`as f32`. -/
structure NumberCasts where
  toInt : ℕ → Double → ℤ
  toFloat32 : Double → Double

section Condition

variable (N : NumberCasts)

/-- `json_value_to_scalar`: the value in the type of a column, or NULL. -/
def jsonValueToScalar (v : Value) : DataType → Except String (Option Cell)
  | .int64 => .ok ((v.asI64.or (v.asF64.map (N.toInt 64))).map .int)
  | .int32 => .ok (((v.asI64.map (wrapSigned 32)).or (v.asF64.map (N.toInt 32))).map .int)
  | .float64 => .ok (v.asF64.map .float)
  | .float32 => .ok (v.asF64.map fun x => .float (N.toFloat32 x))
  | .utf8 | .largeUtf8 => .ok (v.asStr.map .string)
  | .boolean => .ok (v.asBool.map .bool)
  | _ => .error "Unsupported type for filter"

/-- A comparison kernel of Arrow. The values of a filter on a column of large texts are texts, and
the kernel fails. -/
def compareKernel (type : DataType) (op : Operator) (a b : Option Cell) :
    Except String (Option Bool) :=
  if type = .largeUtf8 then .error "Invalid comparison operation: LargeUtf8 and Utf8"
  else .ok (a.bind fun a => b.bind fun b => (a.compare (fun _ _ => none) b).map op.holds)

/-- `boolean::and`, `boolean::or`: NULL if one side is NULL. -/
def strictBool (f : Bool → Bool → Bool) (a b : Option Bool) : Option Bool :=
  a.bind fun a => b.map fun b => f a b

/-- The comparison with a bound; without a bound it is TRUE. -/
def boundMask (type : DataType) (op : Operator) (c : Option Cell) :
    Option Value → Except String (Option Bool)
  | none => .ok (some true)
  | some v => do compareKernel type op c (← jsonValueToScalar N v type)

/-- The comparison with the values of a list; without a list it is TRUE. -/
def valuesMask (type : DataType) (c : Option Cell) : Option (List Value) →
    Except String (Option Bool)
  | none => .ok (some true)
  | some vs => vs.foldlM (fun acc v => do
      return strictBool or acc (← compareKernel type .eq c (← jsonValueToScalar N v type)))
      (some false)

/-- `evaluate_condition` for one row. Whether it fails does not depend on the row. -/
def evaluateCondition (type : DataType) (f : QueryFilter) (c : Option Cell) :
    Except String (Option Bool) := do
  let lower ← boundMask N type (if f.minInclusive then .gtEq else .gt) c f.min
  let upper ← boundMask N type (if f.maxInclusive then .ltEq else .lt) c f.max
  let listed ← valuesMask N type c f.values
  let mask := strictBool and (strictBool and lower upper) listed
  return if f.negated then sqlNot mask else mask

end Condition

/-- The casts of Rust; the rounding to single precision is left open. -/
def rustCasts (toFloat32 : Double → Double) : NumberCasts where
  toInt := Double.toSigned
  toFloat32 := toFloat32

/-! ### Comparison by exact value -/

/-- Numbers compare by their values. How values of different kinds compare is left open. -/
def Cell.exactCompare (mixed : Cell → Cell → Option Ordering) : Cell → Cell → Option Ordering
  | .bool a, .bool b => some (Ord.compare a b)
  | .int i, .int j => some (Ord.compare i j)
  | .int i, .float y => some (Ord.compare (Double.num i).ieeeKey y.ieeeKey)
  | .float x, .int j => some (Ord.compare x.ieeeKey (Double.num j).ieeeKey)
  | .float x, .float y => some (Ord.compare x.ieeeKey y.ieeeKey)
  | .string s, .string t => some (Ord.compare s t)
  | a, b => mixed a b

section

variable (S : Semantics) (mixed : Cell → Cell → Option Ordering) (row : Row)

def exactCompareOperands (left : Operand) (op : Operator) (right : Operand) : Option Bool :=
  ((S.evalOperand row left).bind fun a =>
    (S.evalOperand row right).bind fun b => a.exactCompare mixed b).map op.holds

/-- The value of an expression where numbers compare by their values. -/
def exactEval : Expr → Option Bool
  | .literal b => b
  | .binary l op r => exactCompareOperands S mixed row l op r
  | .and l r => sqlAnd (exactEval l) (exactEval r)
  | .or l r => sqlOr (exactEval l) (exactEval r)
  | .not e => sqlNot (exactEval e)
  | .isNull e => some (S.evalOperand row e).isNone
  | .isNotNull e => some (S.evalOperand row e).isSome
  | .inList e list negated =>
    let found :=
      list.foldr (fun x b => sqlOr (exactCompareOperands S mixed row e .eq x) b) (some false)
    if negated then sqlNot found else found
  | .between e low high negated =>
    let inside := sqlAnd (exactCompareOperands S mixed row e .gtEq low)
      (exactCompareOperands S mixed row e .ltEq high)
    if negated then sqlNot inside else inside
  | .json p => S.json p row
  | .other id _ => S.predicate id row

end

/-! ### One row -/

namespace QueryFilter

variable (f : QueryFilter)

/-- The values of a filter. -/
def literals : List Value := f.min.toList ++ f.max.toList ++ f.values.getD []

/-- A range, an equality, or a list of values; equality is also written as a range. -/
def Planned : Prop :=
  f.values = none ∨ (f.min = none ∧ f.max = none) ∨
    ∃ v, f.min = some v ∧ f.max = some v ∧ f.minInclusive = true ∧ f.maxInclusive = true ∧
      f.values = some [v]

/-- The comparison with a bound, where `ord` compares the row with the values of the filter. -/
def rowBound (ord : Value → Option Ordering) (op : Operator) : Option Value → Option Bool
  | none => some true
  | some v => (ord v).map op.holds

def rowValues (ord : Value → Option Ordering) : Option (List Value) → Option Bool
  | none => some true
  | some vs => vs.foldl (fun b v => strictBool or b ((ord v).map Operator.eq.holds)) (some false)

/-- The value of the mask in a row. -/
def rowMask (ord : Value → Option Ordering) : Option Bool :=
  let mask := strictBool and
    (strictBool and (rowBound ord (if f.minInclusive then .gtEq else .gt) f.min)
      (rowBound ord (if f.maxInclusive then .ltEq else .lt) f.max))
    (rowValues ord f.values)
  if f.negated then sqlNot mask else mask

variable {f} {ord : Value → Option Ordering}

@[simp] lemma strictBool_some (g : Bool → Bool → Bool) (a b : Bool) :
    strictBool g (some a) (some b) = some (g a b) := rfl

@[simp] lemma strictBool_none_left (g : Bool → Bool → Bool) (b : Option Bool) :
    strictBool g none b = none := rfl

@[simp] lemma strictBool_none_right (g : Bool → Bool → Bool) (a : Option Bool) :
    strictBool g a none = none := by
  cases a <;> rfl

@[simp] lemma strictBool_and_true_left (b : Option Bool) : strictBool and (some true) b = b := by
  cases b <;> rfl

@[simp] lemma strictBool_and_true_right (a : Option Bool) : strictBool and a (some true) = a := by
  cases a <;> simp

@[simp] lemma sqlAnd_some (a b : Bool) : sqlAnd (some a) (some b) = some (a && b) := by
  cases a <;> cases b <;> rfl

@[simp] lemma sqlOr_some (a b : Bool) : sqlOr (some a) (some b) = some (a || b) := by
  cases a <;> cases b <;> rfl

/-- Without NULLs both disjunctions say whether one of the values is equal. -/
lemma rowValues_of_isSome {vs : List Value} (h : ∀ v ∈ vs, (ord v).isSome) :
    rowValues ord (some vs) =
      vs.foldr (fun v b => sqlOr ((ord v).map Operator.eq.holds) b) (some false) := by
  have hsql : vs.foldr (fun v b => sqlOr ((ord v).map Operator.eq.holds) b) (some false) =
      some (vs.any fun v => (ord v).any Operator.eq.holds) := by
    induction vs with
    | nil => rfl
    | cons v vs ih =>
      obtain ⟨o, ho⟩ := Option.isSome_iff_exists.1 (h v List.mem_cons_self)
      rw [List.foldr_cons, ih fun w hw => h w (List.mem_cons_of_mem _ hw)]
      simp [ho]
  have harrow (b : Bool) :
      vs.foldl (fun b v => strictBool or b ((ord v).map Operator.eq.holds)) (some b) =
        some (b || vs.any fun v => (ord v).any Operator.eq.holds) := by
    clear hsql
    induction vs generalizing b with
    | nil => simp
    | cons v vs ih =>
      obtain ⟨o, ho⟩ := Option.isSome_iff_exists.1 (h v List.mem_cons_self)
      rw [List.foldl_cons, ho, Option.map_some, strictBool_some,
        ih fun w hw => h w (List.mem_cons_of_mem _ hw)]
      simp [ho, Bool.or_assoc]
  rw [hsql, rowValues, harrow, Bool.false_or]

/-- With a NULL on one side of all comparisons both disjunctions are NULL. -/
lemma rowValues_of_none (v : Value) (vs : List Value) (h : ∀ v, ord v = none) :
    rowValues ord (some (v :: vs)) = none ∧
      (v :: vs).foldr (fun v b => sqlOr ((ord v).map Operator.eq.holds) b) (some false) = none := by
  constructor
  · have hnone :
        vs.foldl (fun b v => strictBool or b ((ord v).map Operator.eq.holds)) none = none := by
      induction vs with
      | nil => rfl
      | cons w vs ih => exact ih
    simpa [rowValues, h] using hnone
  · induction vs generalizing v with
    | nil => simp [h, sqlOr]
    | cons w vs ih =>
      rw [List.foldr_cons, ih]
      simp [h, sqlOr]

/-- The comparisons are all NULL, as the row has NULL, or none of them is. -/
def Uniform (f : QueryFilter) (ord : Value → Option Ordering) : Prop :=
  (∀ v ∈ f.literals, (ord v).isSome) ∨ ∀ v, ord v = none

variable {S : Semantics} {mixed : Cell → Cell → Option Ordering} {row : Row}

/-- How the row compares with a literal of the expression. -/
def rowCompare (mixed : Cell → Cell → Option Ordering) (cell : Option Cell) (v : Value) :
    Option Ordering :=
  cell.bind fun a => v.toScalar.value.bind fun b => a.exactCompare mixed b

lemma exactCompareOperands_literal (op : Operator) (v : Value) :
    exactCompareOperands S mixed row (.column f.column) op (.literal v.toScalar) =
      (rowCompare mixed (row f.column) v).map op.holds := rfl

/-- A range is the same for both. -/
lemma exactEval_range (hvalues : f.values = none)
    (huniform : f.Uniform (rowCompare mixed (row f.column))) :
    exactEval S mixed row f.toExpr = f.rowMask (rowCompare mixed (row f.column)) := by
  have hand (op op' : Operator) {v w : Value} (hv : v ∈ f.literals) (hw : w ∈ f.literals) :
      sqlAnd ((rowCompare mixed (row f.column) v).map op.holds)
          ((rowCompare mixed (row f.column) w).map op'.holds) =
        strictBool and ((rowCompare mixed (row f.column) v).map op.holds)
          ((rowCompare mixed (row f.column) w).map op'.holds) := by
    rcases huniform with hsome | hnone
    · obtain ⟨o, ho⟩ := Option.isSome_iff_exists.1 (hsome v hv)
      obtain ⟨o', ho'⟩ := Option.isSome_iff_exists.1 (hsome w hw)
      simp [ho, ho']
    · simp [hnone, sqlAnd]
  rcases hmin : f.min with _ | v <;> rcases hmax : f.max with _ | w
  · cases hneg : f.negated <;>
      simp [toExpr, rowMask, rowBound, rowValues, hvalues, hmin, hmax, hneg, exactEval]
  · cases hneg : f.negated <;>
      simp [toExpr, rowMask, rowBound, rowValues, hvalues, hmin, hmax, hneg, exactEval,
        exactCompareOperands_literal]
  · cases hneg : f.negated <;>
      simp [toExpr, rowMask, rowBound, rowValues, hvalues, hmin, hmax, hneg, exactEval,
        exactCompareOperands_literal]
  · have hv : v ∈ f.literals := by simp [literals, hmin]
    have hw : w ∈ f.literals := by simp [literals, hmax]
    cases hneg : f.negated <;>
      simp [toExpr, rowMask, rowBound, rowValues, hvalues, hmin, hmax, hneg, exactEval,
        exactCompareOperands_literal, hand _ _ hv hw]

/-- The expression of a list of values, of one value too. -/
lemma exactEval_values {vs : List Value} (hvalues : f.values = some vs) :
    exactEval S mixed row f.toExpr =
      let found := vs.foldr
        (fun v b => sqlOr ((rowCompare mixed (row f.column) v).map Operator.eq.holds) b)
        (some false)
      if f.negated then sqlNot found else found := by
  rcases vs with _ | ⟨v, _ | ⟨w, vs⟩⟩
  · simp [toExpr, hvalues, exactEval]
  · cases hneg : f.negated <;>
      rcases hord : rowCompare mixed (row f.column) v with _ | _ | _ | _ <;>
      simp [toExpr, hvalues, hneg, exactEval, exactCompareOperands_literal, hord, sqlOr, sqlNot,
        Operator.holds]
  · simp [toExpr, hvalues, exactEval, exactCompareOperands_literal, List.foldr_map]

lemma rowValues_eq_foldr {vs : List Value} (hvalues : f.values = some vs)
    (huniform : f.Uniform ord) : rowValues ord (some vs) =
      vs.foldr (fun v b => sqlOr ((ord v).map Operator.eq.holds) b) (some false) := by
  rcases huniform with hsome | hnone
  · exact rowValues_of_isSome fun v hv => hsome v (by simp [literals, hvalues, hv])
  · cases vs with
    | nil => rfl
    | cons v vs =>
      obtain ⟨harrow, hsql⟩ := rowValues_of_none v vs hnone
      rw [harrow, hsql]

/-- In a row whose comparisons are uniform, the mask is the value of the expression. -/
lemma Planned.exactEval_eq (h : f.Planned)
    (huniform : f.Uniform (rowCompare mixed (row f.column))) :
    exactEval S mixed row f.toExpr = f.rowMask (rowCompare mixed (row f.column)) := by
  rcases h with hvalues | ⟨hmin, hmax⟩ | ⟨v, hmin, hmax, hminIncl, hmaxIncl, hvalues⟩
  · exact exactEval_range hvalues huniform
  · rcases hvalues : f.values with _ | vs
    · exact exactEval_range hvalues huniform
    · rw [exactEval_values hvalues]
      simp only [rowMask, hmin, hmax, hvalues, rowBound, strictBool_and_true_left,
        rowValues_eq_foldr hvalues huniform]
  · -- The bounds say no more than the equality.
    have hboth : (Ordering.eq != .lt && Ordering.eq != .gt) = true := rfl
    rw [exactEval_values hvalues]
    rcases hord : rowCompare mixed (row f.column) v with _ | _ | _ | _ <;>
      simp [rowMask, rowBound, rowValues, hmin, hmax, hminIncl, hmaxIncl, hvalues, hord, sqlOr,
        Operator.holds, hboth]

end QueryFilter

/-! ### Values of the column's type -/

namespace Value

/-- The number that stands for the value in an expression. -/
def literalNumber : Value → Option Double
  | .int i => some (if IsSigned 64 i then .num i else Double.ofInt i)
  | .real q => some (.num q)
  | _ => none

/-- The value is one of the column's type. -/
def Fits (toFloat32 : Double → Double) : DataType → Value → Prop
  | .int64, v => ∃ i : ℤ, IsSigned 64 i ∧ v.literalNumber = some (.num i)
  | .int32, v => ∃ i : ℤ, IsSigned 32 i ∧ v.literalNumber = some (.num i)
  | .float64, v => v.literalNumber.isSome ∧ v.asF64 = v.literalNumber
  | .float32, v => v.literalNumber.isSome ∧ v.asF64.map toFloat32 = v.literalNumber
  | .utf8, v => ∃ s, v = .string s
  | .boolean, v => ∃ b, v = .bool b
  | _, _ => True

variable {toFloat32 : Double → Double} {mixed : Cell → Cell → Option Ordering} {v : Value}

/-- A number is an integer for both sides, or the same double for both. -/
lemma literalNumber_cases {y : Double} (h : v.literalNumber = some y) :
    (∃ i : ℤ, v = .int i ∧ IsSigned 64 i ∧ y = .num i) ∨
      (v.asI64 = none ∧ v.asF64 = some y ∧ v.toScalar = ⟨.float64, some (.float y)⟩ ∧
        ∃ q, y = .num q) := by
  cases v with
  | int i =>
    simp only [literalNumber, Option.some.injEq] at h
    subst h
    by_cases hi : IsSigned 64 i
    · exact Or.inl ⟨i, rfl, hi, by rw [if_pos hi]⟩
    · rw [if_neg hi]
      exact Or.inr ⟨by simp [asI64, hi], rfl, by simp [toScalar, hi], _, rfl⟩
  | real q =>
    obtain rfl : Double.num q = y := by simpa [literalNumber] using h
    exact Or.inr ⟨rfl, rfl, rfl, q, rfl⟩
  | string s => simp [literalNumber] at h
  | bool b => simp [literalNumber] at h
  | null => simp [literalNumber] at h

lemma literalNumber_eq_num {y : Double} (h : v.literalNumber = some y) : ∃ q, y = .num q := by
  rcases literalNumber_cases h with ⟨i, -, -, rfl⟩ | ⟨-, -, -, hnum⟩
  · exact ⟨i, rfl⟩
  · exact hnum

lemma exists_asF64 {y : Double} (h : v.literalNumber = some y) : ∃ x, v.asF64 = some x := by
  rcases literalNumber_cases h with ⟨i, rfl, -, -⟩ | ⟨-, hdouble, -, -⟩
  · exact ⟨_, rfl⟩
  · exact ⟨y, hdouble⟩

lemma exactCompare_int {y : Double} (h : v.literalNumber = some y) (a : ℤ) :
    (v.toScalar.value.bind fun b => (Cell.int a).exactCompare mixed b) =
      some (compare (Double.num a).ieeeKey y.ieeeKey) := by
  rcases literalNumber_cases h with ⟨i, rfl, hi, rfl⟩ | ⟨-, -, hscalar, -⟩
  · simp [toScalar, hi, Cell.exactCompare, Double.compare_ieeeKey_intCast]
  · simp [hscalar, Cell.exactCompare]

lemma exactCompare_float {y : Double} (h : v.literalNumber = some y) (x : Double) :
    (v.toScalar.value.bind fun b => (Cell.float x).exactCompare mixed b) =
      some (compare x.ieeeKey y.ieeeKey) := by
  rcases literalNumber_cases h with ⟨i, rfl, hi, rfl⟩ | ⟨-, -, hscalar, -⟩
  · simp [toScalar, hi, Cell.exactCompare]
  · simp [hscalar, Cell.exactCompare]

/-- The conversion to an integer type keeps the integers of the type. -/
lemma asI64_or_toSigned {i : ℤ} (hi : IsSigned 64 i) (h : v.literalNumber = some (.num i)) :
    v.asI64.or (v.asF64.map (Double.toSigned 64)) = some i := by
  rcases literalNumber_cases h with ⟨j, rfl, hj, heq⟩ | ⟨hint, hdouble, -, -⟩
  · obtain rfl : i = j := by simpa using heq
    simp [asI64, hj]
  · simp [hint, hdouble, Double.toSigned_num_intCast hi.1 hi.2]

lemma asI32_or_toSigned {i : ℤ} (hi : IsSigned 32 i) (h : v.literalNumber = some (.num i)) :
    (v.asI64.map (wrapSigned 32)).or (v.asF64.map (Double.toSigned 32)) = some i := by
  rcases literalNumber_cases h with ⟨j, rfl, hj, heq⟩ | ⟨hint, hdouble, -, -⟩
  · obtain rfl : i = j := by simpa using heq
    simp [asI64, hj, wrapSigned_of_isSigned hi]
  · simp [hint, hdouble, Double.toSigned_num_intCast hi.1 hi.2]

/-- A cell of the type compares with the value by its number. -/
lemma compare_int {i : ℤ} (h : v.literalNumber = some (.num i)) (a : ℤ) :
    (Cell.int a).compare (fun _ _ => none) (.int i) =
      v.toScalar.value.bind fun b => (Cell.int a).exactCompare mixed b := by
  rw [exactCompare_int h, Double.compare_ieeeKey_intCast]
  rfl

lemma compare_float {x y : Double} (h : v.literalNumber = some y)
    (hzero : y = .num 0 → x ≠ .negZero) :
    (Cell.float x).compare (fun _ _ => none) (.float y) =
      v.toScalar.value.bind fun b => (Cell.float x).exactCompare mixed b := by
  obtain ⟨q, rfl⟩ := literalNumber_eq_num h
  have hq : q = 0 → x ≠ .negZero := fun hq => hzero (by rw [hq])
  rw [exactCompare_float h, ← Double.compare_num_eq hq]
  rfl

/-- A value that fits compares with the cells of the column as its literal does. -/
lemma Fits.compare_eq (mixed : Cell → Cell → Option Ordering) {t : DataType} {c : Option Cell}
    {a : Cell} (h : v.Fits toFloat32 t) (hc : jsonValueToScalar (rustCasts toFloat32) v t = .ok c)
    (htype : t ≠ .largeUtf8) (ha : t.Holds a)
    (hzero : v.literalNumber = some (.num 0) → a ≠ .float .negZero) :
    (c.bind fun b => a.compare (fun _ _ => none) b) =
        (v.toScalar.value.bind fun b => a.exactCompare mixed b) ∧
      (c.bind fun b => a.compare (fun _ _ => none) b).isSome := by
  cases t with
  | int64 =>
    obtain ⟨i, hi, hnumber⟩ := h
    simp only [jsonValueToScalar, rustCasts, asI64_or_toSigned hi hnumber, Except.ok.injEq] at hc
    subst hc
    cases a <;> try exact ha.elim
    next a => exact ⟨compare_int hnumber a, rfl⟩
  | int32 =>
    obtain ⟨i, hi, hnumber⟩ := h
    simp only [jsonValueToScalar, rustCasts, asI32_or_toSigned hi hnumber, Except.ok.injEq] at hc
    subst hc
    cases a <;> try exact ha.elim
    next a => exact ⟨compare_int hnumber a, rfl⟩
  | float64 =>
    obtain ⟨y, hy⟩ := Option.isSome_iff_exists.1 h.1
    simp only [jsonValueToScalar, h.2, hy, Except.ok.injEq] at hc
    subst hc
    cases a <;> try exact ha.elim
    next x => exact ⟨compare_float hy fun hq => by simpa [hy, hq] using hzero, rfl⟩
  | float32 =>
    obtain ⟨y, hy⟩ := Option.isSome_iff_exists.1 h.1
    have hround : v.asF64.map toFloat32 = some y := h.2.trans hy
    obtain ⟨x, hx, rfl⟩ := Option.map_eq_some_iff.1 hround
    simp only [jsonValueToScalar, rustCasts, hx, Except.ok.injEq] at hc
    subst hc
    cases a <;> try exact ha.elim
    next z => exact ⟨compare_float hy fun hq => by simpa [hy, hq] using hzero, rfl⟩
  | utf8 =>
    obtain ⟨s, rfl⟩ := h
    obtain rfl := Except.ok.inj hc
    cases a <;> try exact ha.elim
    exact ⟨rfl, rfl⟩
  | boolean =>
    obtain ⟨b, rfl⟩ := h
    obtain rfl := Except.ok.inj hc
    cases a <;> try exact ha.elim
    exact ⟨rfl, rfl⟩
  | largeUtf8 => exact absurd rfl htype
  | _ => simp [jsonValueToScalar] at hc

/-- The value fits, and if it is zero the cell is not the negative zero. -/
def Suits (toFloat32 : Double → Double) (t : DataType) (cell : Option Cell) (v : Value) : Prop :=
  v.Fits toFloat32 t ∧ (v.literalNumber = some (.num 0) → cell ≠ some (.float .negZero))

end Value

/-! ### The whole mask -/

section

open QueryFilter

variable {toFloat32 : Double → Double} (mixed : Cell → Cell → Option Ordering) {t : DataType}
  {cell : Option Cell}

lemma compareKernel_eq {op : Operator} {v : Value} {c : Option Cell} {b : Option Bool}
    (htyped : ∀ a ∈ cell, t.Holds a) (hv : v.Suits toFloat32 t cell)
    (hc : jsonValueToScalar (rustCasts toFloat32) v t = .ok c)
    (h : compareKernel t op cell c = .ok b) :
    b = (rowCompare mixed cell v).map op.holds ∧
      (cell.isSome → (rowCompare mixed cell v).isSome) := by
  unfold compareKernel at h
  split_ifs at h with htype
  obtain rfl := Except.ok.inj h
  cases cell with
  | none => simp [rowCompare]
  | some a =>
    obtain ⟨heq, hsome⟩ := hv.1.compare_eq mixed hc htype (htyped a rfl)
      fun hzero ha => hv.2 hzero (by rw [ha])
    rw [heq] at hsome
    refine ⟨?_, fun _ => hsome⟩
    simp only [rowCompare, Option.bind_some, ← heq, Option.map_bind]
    rfl

lemma boundMask_eq {op : Operator} {bound : Option Value} {b : Option Bool}
    (htyped : ∀ a ∈ cell, t.Holds a) (hbound : ∀ v ∈ bound, v.Suits toFloat32 t cell)
    (h : boundMask (rustCasts toFloat32) t op cell bound = .ok b) :
    b = rowBound (rowCompare mixed cell) op bound ∧
      ∀ v ∈ bound, cell.isSome → (rowCompare mixed cell v).isSome := by
  cases bound with
  | none =>
    obtain rfl := Except.ok.inj h
    simp [rowBound]
  | some v =>
    obtain ⟨c, hc, h⟩ := Failing.exists_of_bind_eq_ok h
    obtain ⟨rfl, hsome⟩ := compareKernel_eq mixed htyped (hbound v rfl) hc h
    refine ⟨rfl, ?_⟩
    rintro w ⟨⟩
    exact hsome

lemma valuesMask_eq {values : Option (List Value)} {b : Option Bool}
    (htyped : ∀ a ∈ cell, t.Holds a) (hvalues : ∀ v ∈ values.getD [], v.Suits toFloat32 t cell)
    (h : valuesMask (rustCasts toFloat32) t cell values = .ok b) :
    b = rowValues (rowCompare mixed cell) values ∧
      ∀ v ∈ values.getD [], cell.isSome → (rowCompare mixed cell v).isSome := by
  cases values with
  | none =>
    obtain rfl := Except.ok.inj h
    simp [rowValues]
  | some vs =>
    simp only [valuesMask, rowValues, Option.getD_some] at h hvalues ⊢
    generalize some false = acc at h ⊢
    induction vs generalizing acc with
    | nil =>
      obtain rfl := Except.ok.inj h
      simp
    | cons v vs ih =>
      rw [List.foldlM_cons] at h
      obtain ⟨next, hnext, h⟩ := Failing.exists_of_bind_eq_ok h
      obtain ⟨c, hc, hnext⟩ := Failing.exists_of_bind_eq_ok hnext
      obtain ⟨eq, heq, hnext⟩ := Failing.exists_of_bind_eq_ok hnext
      obtain rfl := Except.ok.inj hnext
      obtain ⟨rfl, hsome⟩ := compareKernel_eq mixed htyped (hvalues v List.mem_cons_self) hc heq
      obtain ⟨hmask, hrest⟩ := ih (fun w hw => hvalues w (List.mem_cons_of_mem _ hw)) _ h
      exact ⟨hmask, List.forall_mem_cons.2 ⟨hsome, hrest⟩⟩

/-- The mask has the value of `rowMask`, and the comparisons are uniform. -/
lemma evaluateCondition_eq {f : QueryFilter} {b : Option Bool} (htyped : ∀ a ∈ cell, t.Holds a)
    (hsuits : ∀ v ∈ f.literals, v.Suits toFloat32 t cell)
    (h : evaluateCondition (rustCasts toFloat32) t f cell = .ok b) :
    b = f.rowMask (rowCompare mixed cell) ∧ f.Uniform (rowCompare mixed cell) := by
  simp only [literals, List.mem_append, Option.mem_toList] at hsuits
  obtain ⟨lower, h₁, h⟩ := Failing.exists_of_bind_eq_ok h
  obtain ⟨rfl, hmin⟩ := boundMask_eq mixed htyped (fun v hv => hsuits v (Or.inl (Or.inl hv))) h₁
  obtain ⟨upper, h₂, h⟩ := Failing.exists_of_bind_eq_ok h
  obtain ⟨rfl, hmax⟩ := boundMask_eq mixed htyped (fun v hv => hsuits v (Or.inl (Or.inr hv))) h₂
  obtain ⟨listed, h₃, h⟩ := Failing.exists_of_bind_eq_ok h
  obtain ⟨rfl, hvalues⟩ := valuesMask_eq mixed htyped (fun v hv => hsuits v (Or.inr hv)) h₃
  refine ⟨(Except.ok.inj h).symm, ?_⟩
  cases cell with
  | none => exact Or.inr fun v => rfl
  | some c =>
    left
    intro v hv
    simp only [literals, List.mem_append, Option.mem_toList] at hv
    rcases hv with (hv | hv) | hv
    · exact hmin v hv rfl
    · exact hmax v hv rfl
    · exact hvalues v hv rfl

/-- The mask is TRUE in a row with the cell exactly if the expression is. -/
def MaskAgrees (toFloat32 : Double → Double) (S : Semantics) (mixed : Cell → Cell → Option Ordering)
    (f : QueryFilter) (t : DataType) (cell : Option Cell) : Prop :=
  ∀ mask row, evaluateCondition (rustCasts toFloat32) t f cell = .ok mask → row f.column = cell →
    (mask = some true ↔ exactEval S mixed row f.toExpr = some true)

lemma QueryFilter.Planned.maskAgrees {f : QueryFilter} (hplanned : f.Planned) (S : Semantics)
    (htyped : ∀ a ∈ cell, t.Holds a) (hsuits : ∀ v ∈ f.literals, v.Suits toFloat32 t cell) :
    MaskAgrees toFloat32 S mixed f t cell := by
  intro mask row hmask hrow
  obtain ⟨rfl, huniform⟩ := evaluateCondition_eq mixed htyped hsuits hmask
  rw [← hrow] at huniform
  rw [hplanned.exactEval_eq huniform, hrow]

/-! ### Equality with a number -/

/-- The four types of numbers that a mask is computed for. -/
def DataType.isMaskNumber (t : DataType) : Bool := t ∈ [.int32, .int64, .float32, .float64]

def DataType.isFloat (t : DataType) : Bool := t ∈ [.float32, .float64]

section Equality

variable {S : Semantics} {mixed : Cell → Cell → Option Ordering} {column : String} {v : Value}
  {y : Double}

/-- The scalar and the literal are both equal to a cell or both are not. -/
lemma MaskAgrees.eq_iff {a b : Cell} {o : Ordering}
    (h : MaskAgrees toFloat32 S mixed (.ofComparison column .eq v) t (some a))
    (hb : jsonValueToScalar (rustCasts toFloat32) v t = .ok (some b)) (ht : t ≠ .largeUtf8)
    (ho : a.compare (fun _ _ => none) b = some o) :
    o = .eq ↔ rowCompare mixed (some a) v = some .eq := by
  have hkernel (op : Operator) :
      compareKernel t op (some a) (some b) = .ok (some (op.holds o)) := by
    simp [compareKernel, ht, ho]
  have hbound (op : Operator) :
      boundMask (rustCasts toFloat32) t op (some a) (some v) = .ok (some (op.holds o)) := by
    rw [boundMask, hb]
    exact hkernel op
  have hvalues : valuesMask (rustCasts toFloat32) t (some a) (some [v]) =
      .ok (some (Operator.eq.holds o)) := by
    rw [valuesMask, List.foldlM_cons, hb]
    change Except.bind (Except.bind (compareKernel t .eq (some a) (some b)) _) _ = _
    rw [hkernel]
    rfl
  have hmask : evaluateCondition (rustCasts toFloat32) t (.ofComparison column .eq v) (some a) =
      .ok (some (o == .eq)) := by
    simp only [evaluateCondition, ofComparison, if_true, hbound, hvalues]
    cases o <;> rfl
  have hrow := h _ (fun _ => some a) hmask rfl
  have heval : exactEval S mixed (fun _ => some a) (ofComparison column .eq v).toExpr =
      (rowCompare mixed (some a) v).map Operator.eq.holds := rfl
  rw [heval] at hrow
  rcases o with _ | _ | _ <;> rcases hord : rowCompare mixed (some a) v with _ | _ | _ | _ <;>
    simp_all [Operator.holds]

variable (ht : t.isMaskNumber) (hagrees : ∀ cell, (∀ a ∈ cell, t.Holds a) →
  MaskAgrees toFloat32 S mixed (.ofComparison column .eq v) t cell)

include ht hagrees

lemma eq_iff_of_agrees {a b : Cell} {o : Ordering} (ha : t.Holds a)
    (hb : jsonValueToScalar (rustCasts toFloat32) v t = .ok (some b))
    (ho : a.compare (fun _ _ => none) b = some o) :
    o = .eq ↔ rowCompare mixed (some a) v = some .eq := by
  have htyped : ∀ c ∈ some a, t.Holds c := by
    rintro c ⟨⟩
    exact ha
  apply (hagrees _ htyped).eq_iff hb _ ho
  rintro rfl
  simp [DataType.isMaskNumber] at ht

lemma eq_intCast_of_agrees {c : ℤ} (hy : v.literalNumber = some y)
    (hb : jsonValueToScalar (rustCasts toFloat32) v t = .ok (some (.int c)))
    (hc : t.Holds (.int c)) : y = .num c := by
  have hself : (Cell.int c).compare (fun _ _ => none) (.int c) = some .eq := by
    simp [Cell.compare, Cell.compareWith]
  have heq := (eq_iff_of_agrees ht hagrees hc hb hself).1 rfl
  obtain ⟨q, rfl⟩ := Value.literalNumber_eq_num hy
  rw [rowCompare, Option.bind_some, Value.exactCompare_int hy, Option.some.injEq,
    compare_eq_iff_eq] at heq
  have hvalue : (c : ℚ) = q := by simpa [Double.ieeeKey, Double.rank, Double.value] using heq
  rw [hvalue]

lemma eq_and_ne_zero_of_agrees {x : Double} (hy : v.literalNumber = some y)
    (hb : jsonValueToScalar (rustCasts toFloat32) v t = .ok (some (.float x)))
    (hfloat : ∀ z, t.Holds (.float z)) : x = y ∧ y ≠ .num 0 := by
  have hiff (z : Double) : compare z x = .eq ↔ compare z.ieeeKey y.ieeeKey = .eq := by
    have hcompare : (Cell.float z).compare (fun _ _ => none) (.float x) = some (compare z x) := rfl
    have heq := eq_iff_of_agrees ht hagrees (hfloat z) hb hcompare
    rwa [rowCompare, Option.bind_some, Value.exactCompare_float hy, Option.some.injEq] at heq
  simp only [compare_eq_iff_eq] at hiff
  -- Both zeros equal a literal zero, but only one of them is the scalar.
  have hzero : y ≠ .num 0 := by
    rintro rfl
    have hpos := (hiff (.num 0)).2 rfl
    have hneg := (hiff .negZero).2 rfl
    rw [← hneg] at hpos
    simp at hpos
  exact ⟨((hiff y).2 rfl).symm, hzero⟩

/-- A number that is not one of the column's type is equal to a row for one side only. -/
lemma fits_of_agrees (hy : v.literalNumber = some y) :
    v.Fits toFloat32 t ∧ (t.isFloat → y ≠ .num 0) := by
  have hcases := ht
  simp only [DataType.isMaskNumber, List.mem_cons, List.not_mem_nil, or_false,
    decide_eq_true_eq] at hcases
  rcases hcases with rfl | rfl | rfl | rfl
  · refine ⟨?_, by simp [DataType.isFloat]⟩
    obtain ⟨c, hc, hconv⟩ : ∃ c, IsSigned 32 c ∧
        (v.asI64.map (wrapSigned 32)).or (v.asF64.map (Double.toSigned 32)) = some c := by
      rcases Value.literalNumber_cases hy with ⟨i, rfl, hi, -⟩ | ⟨hint, hdouble, -, -⟩
      · exact ⟨_, wrapSigned_isSigned i, by simp [Value.asI64, hi]⟩
      · exact ⟨_, Double.toSigned_bounds 32 y, by simp [hint, hdouble]⟩
    have hb : jsonValueToScalar (rustCasts toFloat32) v .int32 = .ok (some (.int c)) := by
      simp [jsonValueToScalar, rustCasts, hconv]
    exact ⟨c, hc, by rw [hy, eq_intCast_of_agrees ht hagrees hy hb hc]⟩
  · refine ⟨?_, by simp [DataType.isFloat]⟩
    obtain ⟨c, hc, hconv⟩ : ∃ c, IsSigned 64 c ∧
        v.asI64.or (v.asF64.map (Double.toSigned 64)) = some c := by
      rcases Value.literalNumber_cases hy with ⟨i, rfl, hi, -⟩ | ⟨hint, hdouble, -, -⟩
      · exact ⟨i, hi, by simp [Value.asI64, hi]⟩
      · exact ⟨_, Double.toSigned_bounds 64 y, by simp [hint, hdouble]⟩
    have hb : jsonValueToScalar (rustCasts toFloat32) v .int64 = .ok (some (.int c)) := by
      simp [jsonValueToScalar, rustCasts, hconv]
    exact ⟨c, hc, by rw [hy, eq_intCast_of_agrees ht hagrees hy hb hc]⟩
  · obtain ⟨x, hx⟩ := Value.exists_asF64 hy
    have hb : jsonValueToScalar (rustCasts toFloat32) v .float32 =
        .ok (some (.float (toFloat32 x))) := by
      simp [jsonValueToScalar, rustCasts, hx]
    obtain ⟨heq, hzero⟩ := eq_and_ne_zero_of_agrees ht hagrees hy hb fun _ => trivial
    exact ⟨⟨by simp [hy], by simp [hx, hy, heq]⟩, fun _ => hzero⟩
  · obtain ⟨x, hx⟩ := Value.exists_asF64 hy
    have hb : jsonValueToScalar (rustCasts toFloat32) v .float64 = .ok (some (.float x)) := by
      simp [jsonValueToScalar, hx]
    obtain ⟨heq, hzero⟩ := eq_and_ne_zero_of_agrees ht hagrees hy hb fun _ => trivial
    exact ⟨⟨by simp [hy], by simp [hx, hy, heq]⟩, fun _ => hzero⟩

end Equality

/-- A number that is one of the column's type, and not the zero of a column of floats. -/
lemma Value.Fits.suits {v : Value} (h : v.Fits toFloat32 t) (ht : t.isMaskNumber)
    (hzero : t.isFloat → v.literalNumber ≠ some (.num 0)) (htyped : ∀ a ∈ cell, t.Holds a) :
    v.Suits toFloat32 t cell := by
  refine ⟨h, fun hnumber hcell => ?_⟩
  have hholds := htyped _ hcell
  simp only [DataType.isMaskNumber, List.mem_cons, List.not_mem_nil, or_false,
    decide_eq_true_eq] at ht
  rcases ht with rfl | rfl | rfl | rfl
  · exact hholds
  · exact hholds
  · exact hzero rfl hnumber
  · exact hzero rfl hnumber

end

/-- A semantics in which only comparisons have values. -/
def comparisonsOnly : Semantics where
  cast _ _ := none
  operand _ _ := none
  json _ _ := none
  predicate _ _ := none

end BenoStreamDB

import BenoStreamDB.Query.Values

/-!
# Filter expressions

The part of DataFusion's expressions that `planner.rs` looks into, with the three-valued semantics
of SQL, and the planner's conversions between expressions and `QueryFilter`s.

An expression of another form (arithmetic, `LIKE`, a function call) is opaque: it has an identifier,
whose meaning `Semantics` gives, and the columns that `find_column_names` finds in it.
-/

namespace BenoStreamDB

/-- A row: the values of its columns, `none` for NULL. -/
abbrev Row := String → Option Cell

/-! ### Syntax -/

/-- A `ScalarValue`. -/
structure Scalar where
  type : DataType
  value : Option Cell
  deriving DecidableEq

inductive Operand where
  | column (name : String)
  | literal (s : Scalar)
  | cast (e : Operand) (type : DataType)
  | tryCast (e : Operand) (type : DataType)
  | other (id : ℕ) (columns : List String)

inductive Operator where
  | eq
  | notEq
  | lt
  | ltEq
  | gt
  | gtEq
  deriving DecidableEq

inductive JsonPathOp where
  | pathExists
  | exists
  | contains
  | equals
  deriving DecidableEq

/-- A predicate over a JSON column that the `json_path` overlay can answer. -/
structure JsonPathPredicate where
  column : String
  path : String
  value : Option String
  op : JsonPathOp
  deriving DecidableEq

inductive Expr where
  | literal (b : Option Bool)
  | binary (left : Operand) (op : Operator) (right : Operand)
  | and (left right : Expr)
  | or (left right : Expr)
  | not (e : Expr)
  | isNull (e : Operand)
  | isNotNull (e : Operand)
  | inList (e : Operand) (list : List Operand) (negated : Bool)
  | between (e low high : Operand) (negated : Bool)
  /-- A call of a `json_*` function that maps to a predicate of the overlay. -/
  | json (p : JsonPathPredicate)
  | other (id : ℕ) (columns : List String)

/-! ### Semantics -/

/-- What DataFusion gives to casts, functions and the forms that the planner does not look into. -/
structure Semantics where
  cast : CastFn
  operand : ℕ → Row → Option Cell
  json : JsonPathPredicate → Row → Option Bool
  predicate : ℕ → Row → Option Bool

def sqlAnd : Option Bool → Option Bool → Option Bool
  | some false, _ | _, some false => some false
  | some true, some true => some true
  | _, _ => none

def sqlOr : Option Bool → Option Bool → Option Bool
  | some true, _ | _, some true => some true
  | some false, some false => some false
  | _, _ => none

def sqlNot (b : Option Bool) : Option Bool := b.map (!·)

@[simp]
lemma sqlAnd_eq_true {a b : Option Bool} :
    sqlAnd a b = some true ↔ a = some true ∧ b = some true := by
  rcases a with _ | _ | _ <;> rcases b with _ | _ | _ <;> simp [sqlAnd]

@[simp]
lemma sqlOr_eq_true {a b : Option Bool} :
    sqlOr a b = some true ↔ a = some true ∨ b = some true := by
  rcases a with _ | _ | _ <;> rcases b with _ | _ | _ <;> simp [sqlOr]

namespace Operator

def holds : Operator → Ordering → Bool
  | .eq, o => o == .eq
  | .notEq, o => o != .eq
  | .lt, o => o == .lt
  | .ltEq, o => o != .gt
  | .gt, o => o == .gt
  | .gtEq, o => o != .lt

/-- The operator for swapped sides. -/
def swap : Operator → Operator
  | .eq => .eq
  | .notEq => .notEq
  | .lt => .gt
  | .ltEq => .gtEq
  | .gt => .lt
  | .gtEq => .ltEq

lemma holds_swap (op : Operator) (o : Ordering) : op.swap.holds o.swap = op.holds o := by
  cases op <;> cases o <;> rfl

end Operator

namespace Semantics

variable (S : Semantics)

def evalOperand (row : Row) : Operand → Option Cell
  | .column name => row name
  | .literal s => s.value
  | .cast e t | .tryCast e t => (evalOperand row e).bind (S.cast t)
  | .other id _ => S.operand id row

/-- A comparison; NULL if a side is NULL or the types do not compare. -/
def compareOperands (row : Row) (left : Operand) (op : Operator) (right : Operand) : Option Bool :=
  (S.evalOperand row left).bind fun a =>
    (S.evalOperand row right).bind fun b => (a.compare S.cast b).map op.holds

/-- The value of an expression in a row. -/
def eval (row : Row) : Expr → Option Bool
  | .literal b => b
  | .binary l op r => S.compareOperands row l op r
  | .and l r => sqlAnd (eval row l) (eval row r)
  | .or l r => sqlOr (eval row l) (eval row r)
  | .not e => sqlNot (eval row e)
  | .isNull e => some (S.evalOperand row e).isNone
  | .isNotNull e => some (S.evalOperand row e).isSome
  | .inList e list negated =>
    let found := list.foldr (fun x b => sqlOr (S.compareOperands row e .eq x) b) (some false)
    if negated then sqlNot found else found
  | .between e low high negated =>
    let inside := sqlAnd (S.compareOperands row e .gtEq low) (S.compareOperands row e .ltEq high)
    if negated then sqlNot inside else inside
  | .json p => S.json p row
  | .other id _ => S.predicate id row

/-- The expression is TRUE in the row. -/
def Satisfies (row : Row) (e : Expr) : Prop := S.eval row e = some true

instance (row : Row) (e : Expr) : Decidable (S.Satisfies row e) :=
  inferInstanceAs (Decidable (_ = _))

lemma satisfies_inList {row : Row} {e : Operand} {list : List Operand} :
    S.Satisfies row (.inList e list false) ↔
      ∃ x ∈ list, S.compareOperands row e .eq x = some true := by
  simp only [Satisfies, eval]
  induction list with
  | nil => simp
  | cons x list ih => simpa using or_congr Iff.rfl ih

end Semantics

/-! ### Query filters -/

structure QueryFilter where
  column : String
  min : Option Value
  minInclusive : Bool
  max : Option Value
  maxInclusive : Bool
  /-- Exact match against a list of values. -/
  values : Option (List Value)
  negated : Bool
  deriving DecidableEq

/-- `scalar_to_json_value` -/
def Scalar.toJsonValue : Scalar → Option Value
  | ⟨.int64, some (.int i)⟩ | ⟨.int32, some (.int i)⟩ | ⟨.int16, some (.int i)⟩
  | ⟨.int8, some (.int i)⟩ | ⟨.uint64, some (.int i)⟩ | ⟨.uint32, some (.int i)⟩ => some (.int i)
  | ⟨.float64, some (.float x)⟩ | ⟨.float32, some (.float x)⟩ => some (.ofDouble x)
  | ⟨.utf8, some (.string s)⟩ => some (.string s)
  | ⟨.boolean, some (.bool b)⟩ => some (.bool b)
  | _ => none

/-- `json_to_scalar` -/
def Value.toScalar (v : Value) : Scalar :=
  match v with
  | .int i => if IsSigned 64 i then ⟨.int64, some (.int i)⟩
      else ⟨.float64, some (.float (Double.ofInt i))⟩
  | .real q => ⟨.float64, some (.float (.num q))⟩
  | .string s => ⟨.utf8, some (.string s)⟩
  | .bool b => ⟨.boolean, some (.bool b)⟩
  | .null => ⟨.utf8, some (.string "null")⟩

namespace Operand

/-- `expr_column_name`, `get_col`: the column under any casts. -/
def columnName : Operand → Option String
  | .column name => some name
  | .cast e _ | .tryCast e _ => e.columnName
  | _ => none

/-- `expr_literal_json`, `get_lit`: the literal under any casts. -/
def literalJson : Operand → Option Value
  | .literal s => s.toJsonValue
  | .cast e _ | .tryCast e _ => e.literalJson
  | _ => none

end Operand

namespace QueryFilter

/-- The filter of `column op value`. -/
def ofComparison (column : String) (op : Operator) (v : Value) : QueryFilter :=
  match op with
  | .eq => ⟨column, some v, true, some v, true, some [v], false⟩
  | .notEq => ⟨column, some v, true, some v, true, some [v], true⟩
  | .gt => ⟨column, some v, false, none, true, none, false⟩
  | .gtEq => ⟨column, some v, true, none, true, none, false⟩
  | .lt => ⟨column, none, true, some v, false, none, false⟩
  | .ltEq => ⟨column, none, true, some v, true, none, false⟩

/-- The filter of `column BETWEEN low AND high`. -/
def ofRange (column : String) (low high : Value) : QueryFilter :=
  ⟨column, some low, true, some high, true, none, false⟩

/-- The filter of `column [NOT] IN values`. -/
def ofValues (column : String) (values : List Value) (negated : Bool) : QueryFilter :=
  ⟨column, none, false, none, false, some values, negated⟩

/-- `convert_binary_expr_to_query_filter` -/
def ofBinary (left : Operand) (op : Operator) (right : Operand) : Option QueryFilter :=
  match left.columnName with
  | some c => right.literalJson.map (ofComparison c op)
  | none =>
    match right.columnName with
    | some c => left.literalJson.map (ofComparison c op.swap)
    | none => none

/-- The values of an IN list that are kept: literals without a cast that have a JSON form. -/
def listValue : Operand → Option Value
  | .literal s => s.toJsonValue
  | _ => none

/-- `convert_in_list_to_query_filter` -/
def ofInList (e : Operand) (list : List Operand) (negated : Bool) : Option QueryFilter :=
  match e with
  | .column c =>
    let values := list.filterMap listValue
    if values.isEmpty then none else some (ofValues c values negated)
  | _ => none

/-- The arm of `BETWEEN`. -/
def ofBetween (e low high : Operand) : Option QueryFilter :=
  match e.columnName, low.literalJson, high.literalJson with
  | some c, some lo, some hi => some (ofRange c lo hi)
  | _, _, _ => none

/-- `QueryFilter::to_expr` -/
def toExpr (f : QueryFilter) : Expr :=
  let col := Operand.column f.column
  match f.values with
  | some [v] => .binary col (if f.negated then .notEq else .eq) (.literal v.toScalar)
  | some vs => .inList col (vs.map fun v => .literal v.toScalar) f.negated
  | none =>
    let lower := f.min.map fun v =>
      Expr.binary col (if f.minInclusive then .gtEq else .gt) (.literal v.toScalar)
    let upper := f.max.map fun v =>
      Expr.binary col (if f.maxInclusive then .ltEq else .lt) (.literal v.toScalar)
    let range := match lower, upper with
      | some l, some u => Expr.and l u
      | some l, none => l
      | none, some u => u
      | none, none => .literal (some true)
    if f.negated then .not range else range

end QueryFilter

namespace Expr

/-- `extract_filters_from_expr`: the conjuncts that convert to a filter; the others are left out. -/
def extractAndConditions : Expr → List QueryFilter
  | .and l r => l.extractAndConditions ++ r.extractAndConditions
  | .binary l op r => (QueryFilter.ofBinary l op r).toList
  | .inList e list negated => (QueryFilter.ofInList e list negated).toList
  | .between e low high false => (QueryFilter.ofBetween e low high).toList
  | _ => []

end Expr

end BenoStreamDB

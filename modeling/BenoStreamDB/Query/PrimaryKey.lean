import BenoStreamDB.Query.Filters

/-!
# Primary-key filters

`PrimaryKeyFilter` of `table/primary_key.rs`: a set of candidate keys that a filter names, and the
expression that it is turned back into.

`from_expr` leaves out the members of an `IN` list that have no JSON form, and takes a column or a
literal under a cast for the column or literal itself.
-/

namespace BenoStreamDB

/-- A set of candidate keys: a value for each column. -/
structure PrimaryKeyFilter where
  columns : List String
  rows : List (List Value)
  deriving DecidableEq

namespace PrimaryKeyFilter

/-- The column and the literal of an equality. -/
def ofEquality (left right : Operand) : Option (String × Value) :=
  match left.columnName, right.literalJson with
  | some c, some v => some (c, v)
  | _, _ =>
    match right.columnName, left.literalJson with
    | some c, some v => some (c, v)
    | _, _ => none

/-- The columns and the candidates of an expression. -/
def extract : Expr → Option (List String × List (List Value))
  | .inList e list false =>
    e.columnName.bind fun column =>
      let rows := list.filterMap fun v => v.literalJson.map fun v => [v]
      if rows = [] then none else some ([column], rows)
  | .binary left .eq right => (ofEquality left right).map fun p => ([p.1], [[p.2]])
  | .and left right =>
    (extract left).bind fun l => (extract right).bind fun r =>
      if l.1.any r.1.contains then none
      else some (l.1 ++ r.1, l.2.flatMap fun row => r.2.map fun row' => row ++ row')
  | .or left right =>
    (extract left).bind fun l => (extract right).bind fun r =>
      if l.1 = r.1 then some (l.1, l.2 ++ r.2) else none
  | _ => none

/-- `from_expr`: the candidates in the order of the key columns. -/
def fromExpr (e : Expr) (pkColumns : List String) : Option PrimaryKeyFilter :=
  (extract e).bind fun p =>
    if p.1.any fun c => !pkColumns.contains c then none
    else
      let colIdx := pkColumns.filterMap fun c => p.1.idxOf? c
      if colIdx = [] then none
      else some ⟨colIdx.filterMap fun i => p.1[i]?,
        p.2.map fun row => colIdx.filterMap fun i => row[i]?⟩

section Expressions

-- The name of the column that DataFusion's `col` makes of a text.
variable (ident : String → String)

/-- `col(c).eq(json_to_scalar(v))` -/
def equality (p : String × Value) : Expr :=
  .binary (.column (ident p.1)) .eq (.literal p.2.toScalar)

/-- The expression of one candidate. -/
def rowExpr (columns : List String) (row : List Value) : Option Expr :=
  (columns.zip row).foldl (fun acc p =>
    some (acc.elim (equality ident p) fun prev => .and prev (equality ident p))) none

/-- `to_expr` -/
def toExpr (pf : PrimaryKeyFilter) : Expr :=
  match pf.columns with
  | [column] =>
    match pf.rows with
    | [row] => equality ident (column, row.headD .null)
    | rows =>
      .inList (.column (ident column)) (rows.map fun row => .literal (row.headD .null).toScalar)
        false
  | columns =>
    ((pf.rows.filterMap (rowExpr ident columns)).foldl
      (fun acc e => some (acc.elim e fun prev => Expr.or prev e)) none).getD (.literal (some true))

end Expressions

end PrimaryKeyFilter

end BenoStreamDB

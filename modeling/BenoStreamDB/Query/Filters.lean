import BenoStreamDB.Query.PruningSound

/-!
# What a filter says about a row

The expression of a `QueryFilter` (`to_expr`) in terms of the value that the row has in the
filter's column.
-/

namespace BenoStreamDB

lemma Value.literalJson_toScalar (v : Value) :
    ∃ w, (Operand.literal v.toScalar).literalJson = some w := by
  cases v with
  | int i => by_cases hi : IsSigned 64 i <;> simp [Value.toScalar, hi, Operand.literalJson,
      Scalar.toJsonValue]
  | real q => exact ⟨_, rfl⟩
  | string s => exact ⟨_, rfl⟩
  | bool b => exact ⟨_, rfl⟩
  | null => exact ⟨_, rfl⟩

namespace QueryFilter

variable (S : Semantics) (f : QueryFilter)

/-- The comparison of the column with a value of the filter, in SQL. -/
def sqlCompare (v : Value) : Cell → Option Ordering :=
  S.compareColumn (.column f.column) (.literal v.toScalar)

variable {S f} {row : Row}

lemma compareOperands_toScalar {op : Operator} {v : Value}
    (h : S.compareOperands row (.column f.column) op (.literal v.toScalar) = some true) :
    ∃ c, row f.column = some c ∧ ∃ o, f.sqlCompare S v c = some o ∧ op.holds o = true := by
  obtain ⟨w, hw⟩ := v.literalJson_toScalar
  rw [Semantics.compareOperands_columnLiteral rfl hw] at h
  obtain ⟨c, hc, h⟩ := Option.bind_eq_some_iff.1 h
  obtain ⟨o, ho, hop⟩ := Option.map_eq_some_iff.1 h
  exact ⟨c, hc, o, ho, hop⟩

variable (S f) in
/-- The values that satisfy the filter: its expression looks at no other column. -/
def Accepts (c : Cell) : Prop := S.Satisfies (fun _ => some c) f.toExpr

lemma eval_toExpr {row' : Row} (h : row f.column = row' f.column) :
    S.eval row f.toExpr = S.eval row' f.toExpr := by
  have hcmp (op : Operator) (v : Value) :
      S.compareOperands row (.column f.column) op (.literal v.toScalar) =
        S.compareOperands row' (.column f.column) op (.literal v.toScalar) := by
    simp only [Semantics.compareOperands, Semantics.evalOperand, h]
  rcases hvs : f.values with _ | _ | ⟨v, _ | ⟨w, vs⟩⟩
  · cases hmin : f.min <;> cases hmax : f.max <;> cases hneg : f.negated <;>
      simp only [toExpr, hvs, hmin, hmax, hneg, Option.map_none, Option.map_some, if_true,
        Bool.false_eq_true, if_false, Semantics.eval, hcmp]
  · simp only [toExpr, hvs, Semantics.eval, List.map_nil, List.foldr_nil]
  · simp only [toExpr, hvs, Semantics.eval, hcmp]
  · simp only [toExpr, hvs, Semantics.eval, List.foldr_map, hcmp]

lemma accepts_of_satisfies {c : Cell} (hc : row f.column = some c)
    (hsat : S.Satisfies row f.toExpr) : f.Accepts S c :=
  (eval_toExpr hc).symm.trans hsat

/-- A row that satisfies a list of values has one of them. -/
lemma exists_eq_of_satisfies {vs : List Value} (hneg : f.negated = false)
    (hvs : f.values = some vs) (hsat : S.Satisfies row f.toExpr) :
    ∃ v ∈ vs, ∃ c, row f.column = some c ∧ f.sqlCompare S v c = some .eq := by
  have hmem : ∃ v ∈ vs, S.compareOperands row (.column f.column) .eq (.literal v.toScalar) =
      some true := by
    match vs, hvs with
    | [v], hvs =>
      simp only [toExpr, hvs, hneg] at hsat
      exact ⟨v, by simp, hsat⟩
    | [], hvs =>
      simp only [toExpr, hvs, hneg] at hsat
      obtain ⟨x, hx, -⟩ := S.satisfies_inList.1 hsat
      simp at hx
    | v :: w :: vs, hvs =>
      simp only [toExpr, hvs, hneg] at hsat
      obtain ⟨x, hx, heq⟩ := S.satisfies_inList.1 hsat
      obtain ⟨u, hu, rfl⟩ := List.mem_map.1 hx
      exact ⟨u, hu, heq⟩
  obtain ⟨v, hv, h⟩ := hmem
  obtain ⟨c, hc, o, ho, hop⟩ := compareOperands_toScalar h
  refine ⟨v, hv, c, hc, ?_⟩
  cases o <;> simp_all [Operator.holds]

/-- A row that satisfies a range is on the right side of each bound. -/
lemma bounds_of_satisfies (hneg : f.negated = false) (hvs : f.values = none)
    (hsat : S.Satisfies row f.toExpr) :
    (∀ m, f.min = some m → ∃ c, row f.column = some c ∧ ∃ o, f.sqlCompare S m c = some o ∧
      (if f.minInclusive then Operator.gtEq else .gt).holds o = true) ∧
    ∀ m, f.max = some m → ∃ c, row f.column = some c ∧ ∃ o, f.sqlCompare S m c = some o ∧
      (if f.maxInclusive then Operator.ltEq else .lt).holds o = true := by
  cases hmin : f.min with
  | none =>
    cases hmax : f.max with
    | none => simp
    | some b =>
      simp only [toExpr, hvs, hneg, hmin, hmax] at hsat
      refine ⟨by simp, ?_⟩
      rintro m ⟨⟩
      exact compareOperands_toScalar hsat
  | some a =>
    cases hmax : f.max with
    | none =>
      simp only [toExpr, hvs, hneg, hmin, hmax] at hsat
      refine ⟨?_, by simp⟩
      rintro m ⟨⟩
      exact compareOperands_toScalar hsat
    | some b =>
      simp only [toExpr, hvs, hneg, hmin, hmax] at hsat
      obtain ⟨ha, hb⟩ := sqlAnd_eq_true.1 hsat
      constructor
      · rintro m ⟨⟩
        exact compareOperands_toScalar ha
      · rintro m ⟨⟩
        exact compareOperands_toScalar hb

end QueryFilter

end BenoStreamDB

import BenoStreamDB.Foundations.Selection
import BenoStreamDB.Query.PrimaryKey
import Mathlib.Dynamics.PeriodicPts.Lemmas

/-!
# What primary-key filters mean

A `PrimaryKeyFilter` accepts the rows whose key columns are equal to one of its candidates. For an
expression of plain equalities the filter of `from_expr` accepts exactly the rows on which the
expression is TRUE, `accepts_fromExpr`. `to_expr` and `from_expr` are inverse to each other on the
filters whose values have a JSON form of their own and whose columns keep their names.
-/

namespace BenoStreamDB

/-! ### Equality of values -/

section Compare

variable {cast : CastFn} {a b : Cell}

/-- Where both values can be converted to the other's type, the comparisons agree. -/
lemma Cell.compareWith_swap {o o' : Ordering} (h : a.compareWith cast b = some o)
    (h' : b.compareWith cast a = some o') : o' = o.swap := by
  cases a <;> cases b <;> simp only [Cell.compareWith, reduceCtorEq] at h h'
  case temporal.temporal t i t' j =>
    by_cases htype : t = t'
    · rw [if_pos htype, Option.some.injEq] at h
      rw [if_pos htype.symm, Option.some.injEq] at h'
      rw [← h, ← h']
      exact Std.OrientedOrd.eq_swap
    · simp [htype] at h
  all_goals
    rw [Option.some.injEq] at h h'
    rw [← h, ← h']
    exact Std.OrientedOrd.eq_swap

lemma Cell.compare_eq_comm : a.compare cast b = some .eq ↔ b.compare cast a = some .eq := by
  rw [Cell.compare, Cell.compare]
  cases h : a.compareWith cast b with
  | none => cases h' : b.compareWith cast a <;> simp
  | some o =>
    cases h' : b.compareWith cast a with
    | none => simp
    | some o' =>
      rw [Cell.compareWith_swap h h']
      cases o <;> simp

end Compare

namespace PrimaryKeyFilter

/-! ### Acceptance -/

/-- The row has the value in the column. -/
def KeyEq (S : Semantics) (row : Row) (p : String × Value) : Prop :=
  S.compareOperands row (.column p.1) .eq (.literal p.2.toScalar) = some true

/-- The row has one of the candidates. -/
def HasKey (S : Semantics) (row : Row) (columns : List String) (keys : List (List Value)) : Prop :=
  ∃ key ∈ keys, ∀ p ∈ columns.zip key, KeyEq S row p

def Accepts (S : Semantics) (row : Row) (pf : PrimaryKeyFilter) : Prop :=
  HasKey S row pf.columns pf.rows

end PrimaryKeyFilter

lemma Scalar.toJsonValue_null (t : DataType) : (⟨t, none⟩ : Scalar).toJsonValue = none := by
  cases t <;> rfl

/-- A literal that is not under a cast and whose JSON form has the same value. -/
def Operand.PlainLiteral (x : Operand) : Prop :=
  ∃ s v, x = .literal s ∧ s.toJsonValue = some v ∧ v.toScalar.value = s.value

/-- A column that is not under a cast. -/
def Operand.PlainColumn (x : Operand) : Prop := ∃ c, x = .column c

/-- Equalities and `IN` lists compare columns with literals as they are; a list may have NULLs. -/
def Expr.Plain : Expr → Prop
  | .inList e list _ =>
    e.PlainColumn ∧ ∀ x ∈ list, x.PlainLiteral ∨ ∃ t, x = .literal ⟨t, none⟩
  | .binary left _ right =>
    left.PlainColumn ∧ right.PlainLiteral ∨ right.PlainColumn ∧ left.PlainLiteral
  | .and left right | .or left right => left.Plain ∧ right.Plain
  | _ => True

namespace PrimaryKeyFilter

variable {S : Semantics} {row : Row}

/-- A comparison with the JSON form of a literal is one with the literal. -/
lemma keyEq_iff {c : String} {s : Scalar} {v : Value} (hv : v.toScalar.value = s.value) :
    KeyEq S row (c, v) ↔ S.compareOperands row (.column c) .eq (.literal s) = some true := by
  simp only [KeyEq, Semantics.compareOperands, Semantics.evalOperand, hv]

lemma compareOperands_comm {l r : Operand} :
    S.compareOperands row l .eq r = some true ↔ S.compareOperands row r .eq l = some true := by
  simp only [Semantics.compareOperands]
  cases hl : S.evalOperand row l with
  | none => cases S.evalOperand row r <;> simp
  | some a =>
    cases hr : S.evalOperand row r with
    | none => simp
    | some b =>
      have hcomm := @Cell.compare_eq_comm S.cast a b
      simpa [Operator.holds] using hcomm

/-- What `extract` gives: distinct columns, candidates with a value for each of them, and the rows
on which the expression is TRUE. -/
structure Means (S : Semantics) (p : List String × List (List Value)) (e : Expr) : Prop where
  nodup : p.1.Nodup
  length : ∀ key ∈ p.2, key.length = p.1.length
  iff : ∀ row, HasKey S row p.1 p.2 ↔ S.Satisfies row e

lemma means_equality {left right : Operand} {p : String × Value}
    (hplain : (Expr.binary left .eq right).Plain) (h : ofEquality left right = some p) :
    Means S ([p.1], [[p.2]]) (.binary left .eq right) := by
  refine ⟨List.nodup_singleton _, by simp, ?_⟩
  intro row
  rcases hplain with ⟨⟨c, rfl⟩, s, v, rfl, hs, hv⟩ | ⟨⟨c, rfl⟩, s, v, rfl, hs, hv⟩
  · obtain rfl : (c, v) = p := by
      simpa [ofEquality, Operand.columnName, Operand.literalJson, hs] using h
    simpa [HasKey, Semantics.Satisfies, Semantics.eval] using keyEq_iff hv
  · obtain rfl : (c, v) = p := by
      simpa [ofEquality, Operand.columnName, Operand.literalJson, hs] using h
    simpa [HasKey, Semantics.Satisfies, Semantics.eval] using
      (keyEq_iff hv).trans compareOperands_comm

lemma means_inList {x : Operand} {list : List Operand} {p : List String × List (List Value)}
    (hplain : (Expr.inList x list false).Plain) (h : extract (.inList x list false) = some p) :
    Means S p (.inList x list false) := by
  obtain ⟨⟨c, rfl⟩, hlist⟩ := hplain
  simp only [extract, Operand.columnName, Option.bind_some] at h
  split_ifs at h with hempty
  obtain rfl := Option.some.inj h
  refine ⟨List.nodup_singleton _, ?_, ?_⟩
  · intro key hkey
    obtain ⟨y, -, hy⟩ := List.mem_filterMap.1 hkey
    obtain ⟨v, -, rfl⟩ := Option.map_eq_some_iff.1 hy
    rfl
  · intro row
    rw [Semantics.satisfies_inList]
    constructor
    · rintro ⟨key, hkey, heq⟩
      obtain ⟨y, hy, hv⟩ := List.mem_filterMap.1 hkey
      obtain ⟨v, hv, rfl⟩ := Option.map_eq_some_iff.1 hv
      rcases hlist y hy with ⟨s, w, rfl, hs, hw⟩ | ⟨t, rfl⟩
      · obtain rfl : w = v := by simpa [Operand.literalJson, hs] using hv
        exact ⟨_, hy, (keyEq_iff hw).1 (heq (c, w) (by simp))⟩
      · simp [Operand.literalJson, Scalar.toJsonValue_null] at hv
    · rintro ⟨y, hy, heq⟩
      rcases hlist y hy with ⟨s, w, rfl, hs, hw⟩ | ⟨t, rfl⟩
      · refine ⟨[w], List.mem_filterMap.2 ⟨_, hy, by simp [Operand.literalJson, hs]⟩, ?_⟩
        simpa using (keyEq_iff hw).2 heq
      · simp [Semantics.compareOperands, Semantics.evalOperand] at heq

lemma Means.and {l r : List String × List (List Value)} {left right : Expr}
    (hl : Means S l left) (hr : Means S r right) (hdisjoint : ¬ l.1.any r.1.contains = true) :
    Means S (l.1 ++ r.1, l.2.flatMap fun key => r.2.map fun key' => key ++ key')
      (.and left right) := by
  constructor
  · refine List.nodup_append.2 ⟨hl.nodup, hr.nodup, ?_⟩
    rintro c hc d hd rfl
    exact hdisjoint (List.any_eq_true.2 ⟨c, hc, by simpa using hd⟩)
  · intro key hkey
    obtain ⟨k, hk, hkey⟩ := List.mem_flatMap.1 hkey
    obtain ⟨k', hk', rfl⟩ := List.mem_map.1 hkey
    rw [List.length_append, List.length_append, hl.length k hk, hr.length k' hk']
  · intro row
    rw [Semantics.Satisfies, Semantics.eval, sqlAnd_eq_true]
    refine Iff.trans ?_ (and_congr (hl.iff row) (hr.iff row))
    have hzip {k k' : List Value} (hk : k ∈ l.2) :
        (∀ p ∈ (l.1 ++ r.1).zip (k ++ k'), KeyEq S row p) ↔
          (∀ p ∈ l.1.zip k, KeyEq S row p) ∧ ∀ p ∈ r.1.zip k', KeyEq S row p := by
      rw [List.zip_append (hl.length k hk).symm, List.forall_mem_append]
    constructor
    · rintro ⟨key, hkey, heq⟩
      obtain ⟨k, hk, hkey⟩ := List.mem_flatMap.1 hkey
      obtain ⟨k', hk', rfl⟩ := List.mem_map.1 hkey
      obtain ⟨hleft, hright⟩ := (hzip hk).1 heq
      exact ⟨⟨k, hk, hleft⟩, k', hk', hright⟩
    · rintro ⟨⟨k, hk, hleft⟩, k', hk', hright⟩
      exact ⟨k ++ k', List.mem_flatMap.2 ⟨k, hk, List.mem_map_of_mem hk'⟩,
        (hzip hk).2 ⟨hleft, hright⟩⟩

lemma Means.or {columns : List String} {ls rs : List (List Value)} {left right : Expr}
    (hl : Means S (columns, ls) left) (hr : Means S (columns, rs) right) :
    Means S (columns, ls ++ rs) (.or left right) := by
  refine ⟨hl.nodup, List.forall_mem_append.2 ⟨hl.length, hr.length⟩, ?_⟩
  intro row
  rw [Semantics.Satisfies, Semantics.eval, sqlOr_eq_true]
  refine Iff.trans ?_ (or_congr (hl.iff row) (hr.iff row))
  simp only [HasKey, List.mem_append, or_and_right, exists_or]

lemma means_extract {e : Expr} {p : List String × List (List Value)} (hplain : e.Plain)
    (h : extract e = some p) : Means S p e := by
  induction e generalizing p with
  | inList x list negated =>
    cases negated with
    | true => simp [extract] at h
    | false => exact means_inList hplain h
  | binary left op right =>
    cases op with
    | eq =>
      obtain ⟨q, hq, rfl⟩ := Option.map_eq_some_iff.1 h
      exact means_equality hplain hq
    | _ => simp [extract] at h
  | and left right ihl ihr =>
    obtain ⟨l, hl, h⟩ := Option.bind_eq_some_iff.1 h
    obtain ⟨r, hr, h⟩ := Option.bind_eq_some_iff.1 h
    split_ifs at h with hdisjoint
    obtain rfl := Option.some.inj h
    exact (ihl hplain.1 hl).and (ihr hplain.2 hr) hdisjoint
  | or left right ihl ihr =>
    obtain ⟨⟨columns, ls⟩, hl, h⟩ := Option.bind_eq_some_iff.1 h
    obtain ⟨⟨columns', rs⟩, hr, h⟩ := Option.bind_eq_some_iff.1 h
    split_ifs at h with hcolumns
    obtain rfl := Option.some.inj h
    obtain rfl : columns = columns' := hcolumns
    exact (ihl hplain.1 hl).or (ihr hplain.2 hr)
  | _ => simp [extract] at h

/-! ### The order of the key columns -/

lemma zip_filterMap_getElem? {columns : List String} {key : List Value} {colIdx : List ℕ}
    (hlength : key.length = columns.length) (hidx : ∀ i ∈ colIdx, i < columns.length) :
    (colIdx.filterMap fun i => columns[i]?).zip (colIdx.filterMap fun i => key[i]?) =
      colIdx.filterMap fun i => (columns.zip key)[i]? := by
  induction colIdx with
  | nil => rfl
  | cons i colIdx ih =>
    have hi : i < columns.length := hidx i List.mem_cons_self
    have hi' : i < key.length := hlength ▸ hi
    have hzip : i < (columns.zip key).length := by simp [hi, hi']
    simp [hi, hi', ih fun j hj => hidx j (List.mem_cons_of_mem i hj)]

lemma idxOf?_getElem {columns : List String} (hnodup : columns.Nodup) {i : ℕ}
    (hi : i < columns.length) : columns.idxOf? columns[i] = some i := by
  refine List.idxOf?_eq_some_iff.2 ⟨hi, by simp, ?_⟩
  intro j hj heq
  have hne := (List.nodup_iff_getElem?_ne_getElem?.1 hnodup) j i hj hi
  exact hne (by simpa [hi, hj.trans hi] using heq)

lemma mem_colIdx {columns pkColumns : List String} (hnodup : columns.Nodup)
    (hsubset : ∀ c ∈ columns, c ∈ pkColumns) {i : ℕ} :
    i ∈ pkColumns.filterMap (fun c => columns.idxOf? c) ↔ i < columns.length := by
  rw [List.mem_filterMap]
  constructor
  · rintro ⟨c, -, hc⟩
    obtain ⟨hlt, -⟩ := List.idxOf?_eq_some_iff.1 hc
    exact hlt
  · intro hi
    exact ⟨columns[i], hsubset _ (List.getElem_mem hi), idxOf?_getElem hnodup hi⟩

/-- Reordering columns and candidates alike does not change the rows. -/
lemma hasKey_reorder {columns pkColumns : List String} {keys : List (List Value)}
    (hnodup : columns.Nodup) (hlength : ∀ key ∈ keys, key.length = columns.length)
    (hsubset : ∀ c ∈ columns, c ∈ pkColumns) :
    let colIdx := pkColumns.filterMap fun c => columns.idxOf? c
    HasKey S row (colIdx.filterMap fun i => columns[i]?)
        (keys.map fun key => colIdx.filterMap fun i => key[i]?) ↔
      HasKey S row columns keys := by
  intro colIdx
  have hmem {i : ℕ} : i ∈ colIdx ↔ i < columns.length := mem_colIdx hnodup hsubset
  have hkey {key : List Value} (hkey : key ∈ keys) :
      (∀ p ∈ (colIdx.filterMap fun i => columns[i]?).zip (colIdx.filterMap fun i => key[i]?),
        KeyEq S row p) ↔ ∀ p ∈ columns.zip key, KeyEq S row p := by
    rw [zip_filterMap_getElem? (hlength key hkey) fun i hi => hmem.1 hi]
    constructor
    · intro h p hp
      obtain ⟨i, hi, rfl⟩ := List.mem_iff_getElem.1 hp
      have hlt : i < columns.length := by
        rw [List.length_zip] at hi
        exact hi.trans_le (Nat.min_le_left _ _)
      exact h _ (List.mem_filterMap.2 ⟨i, hmem.2 hlt, List.getElem?_eq_getElem hi⟩)
    · intro h p hp
      obtain ⟨i, -, hi⟩ := List.mem_filterMap.1 hp
      exact h p (List.mem_of_getElem? hi)
  constructor
  · rintro ⟨key', hkey', heq⟩
    obtain ⟨key, hmem', rfl⟩ := List.mem_map.1 hkey'
    exact ⟨key, hmem', (hkey hmem').1 heq⟩
  · rintro ⟨key, hmem', heq⟩
    exact ⟨_, List.mem_map_of_mem hmem', (hkey hmem').2 heq⟩

/-- The filter of a plain expression accepts the rows on which the expression is TRUE. -/
lemma accepts_fromExpr {e : Expr} {pkColumns : List String} {pf : PrimaryKeyFilter}
    (hplain : e.Plain) (h : fromExpr e pkColumns = some pf) :
    Accepts S row pf ↔ S.Satisfies row e := by
  obtain ⟨p, hp, h⟩ := Option.bind_eq_some_iff.1 h
  have hmeans : Means S p e := means_extract hplain hp
  simp only at h
  split_ifs at h with hsubset hempty
  obtain rfl := Option.some.inj h
  have hsubset' : ∀ c ∈ p.1, c ∈ pkColumns := by simpa using hsubset
  exact (hasKey_reorder hmeans.nodup hmeans.length hsubset').trans (hmeans.iff row)

/-! ### From expressions and back -/

/-- The value that comes back from the literal of a value. -/
def canonical (v : Value) : Value := v.toScalar.toJsonValue.getD .null

/-- The value has a literal of its own: it is not NULL, and not an integer above 64 bits. -/
def Representable (v : Value) : Prop := v ≠ .null ∧ ∀ i, v = .int i → IsSigned 64 i

lemma toJsonValue_toScalar (v : Value) : v.toScalar.toJsonValue = some (canonical v) := by
  cases v with
  | int i => by_cases h : IsSigned 64 i <;> simp [canonical, Value.toScalar, h, Scalar.toJsonValue]
  | _ => rfl

lemma canonical_of_representable {v : Value} (h : Representable v) : canonical v = v := by
  cases v with
  | null => exact absurd rfl h.1
  | int i => simp [canonical, Value.toScalar, h.2 i rfl, Scalar.toJsonValue]
  | _ => rfl

/-- Integers that come back fit. -/
lemma isSigned_of_canonical {v : Value} {i : ℤ} (h : canonical v = .int i) : IsSigned 64 i := by
  cases v with
  | int j =>
    by_cases hj : IsSigned 64 j
    · obtain rfl : j = i := by
        simpa [canonical, Value.toScalar, hj, Scalar.toJsonValue] using h
      exact hj
    · simp only [canonical, Value.toScalar, hj, if_false, Scalar.toJsonValue, Option.getD_some] at h
      cases hd : Double.ofInt j <;> simp [hd, Value.ofDouble] at h
  | _ => simp [canonical, Value.toScalar, Scalar.toJsonValue, Value.ofDouble] at h

/-- Only an integer that does not fit comes back as NULL. -/
lemma exists_of_canonical_null {v : Value} (h : canonical v = .null) :
    ∃ i, v = .int i ∧ ¬ IsSigned 64 i := by
  cases v with
  | int i =>
    refine ⟨i, rfl, fun hi => ?_⟩
    simp [canonical, Value.toScalar, hi, Scalar.toJsonValue] at h
  | _ => simp [canonical, Value.toScalar, Scalar.toJsonValue, Value.ofDouble] at h

/-- Keys that come back as the same set of keys have only values that come back. -/
lemma representable_of_mem_iff {keys : List (List Value)}
    (h : ∀ key, key ∈ keys.map (List.map canonical) ↔ key ∈ keys) {key : List Value}
    (hkey : key ∈ keys) {v : Value} (hv : v ∈ key) : Representable v := by
  have hback {key : List Value} (hkey : key ∈ keys) {v : Value} (hv : v ∈ key) :
      ∃ key' ∈ keys, ∃ w ∈ key', canonical w = v := by
    obtain ⟨key', hkey', rfl⟩ := List.mem_map.1 ((h key).2 hkey)
    obtain ⟨w, hw, rfl⟩ := List.mem_map.1 hv
    exact ⟨key', hkey', w, hw, rfl⟩
  have hint {key : List Value} (hkey : key ∈ keys) {i : ℤ} (hi : Value.int i ∈ key) :
      IsSigned 64 i := by
    obtain ⟨-, -, w, -, hw⟩ := hback hkey hi
    exact isSigned_of_canonical hw
  constructor
  · rintro rfl
    obtain ⟨key', hkey', w, hw, hnull⟩ := hback hkey hv
    obtain ⟨i, rfl, hbig⟩ := exists_of_canonical_null hnull
    exact hbig (hint hkey' hw)
  · rintro i rfl
    exact hint hkey hv

variable {ident : String → String}

lemma extract_equality (p : String × Value) :
    extract (equality ident p) = some ([ident p.1], [[canonical p.2]]) := by
  simp [extract, equality, ofEquality, Operand.columnName, Operand.literalJson,
    toJsonValue_toScalar]

/-- The candidates of an expression, if its columns are distinct. -/
def distinctKeys (columns : List String) (keys : List (List Value)) :
    Option (List String × List (List Value)) :=
  if columns.Nodup then some (columns, keys) else none

lemma extract_and_equality {prev : Expr} {columns : List String} {key : List Value}
    {p : String × Value} (hprev : extract prev = distinctKeys columns [key]) :
    extract (.and prev (equality ident p)) =
      distinctKeys (columns ++ [ident p.1]) [key ++ [canonical p.2]] := by
  have hnodup : (columns ++ [ident p.1]).Nodup ↔ columns.Nodup ∧ ident p.1 ∉ columns := by
    rw [List.nodup_append]
    aesop
  rw [extract, hprev, extract_equality]
  simp only [distinctKeys, hnodup]
  by_cases hcolumns : columns.Nodup
  · by_cases hmem : ident p.1 ∈ columns <;> simp [hcolumns, hmem]
  · simp [hcolumns]

/-- The expression of the rest of a candidate. -/
lemma extract_foldl_and {pairs : List (String × Value)} {prev : Expr} {columns : List String}
    {key : List Value} (hprev : extract prev = distinctKeys columns [key]) :
    ∃ e, pairs.foldl (fun acc p => some (acc.elim (equality ident p) fun prev =>
        .and prev (equality ident p))) (some prev) = some e ∧
      extract e = distinctKeys (columns ++ pairs.map fun p => ident p.1)
        [key ++ pairs.map fun p => canonical p.2] := by
  induction pairs generalizing prev columns key with
  | nil => exact ⟨prev, rfl, by simpa using hprev⟩
  | cons p pairs ih =>
    obtain ⟨e, he, hextract⟩ := ih (extract_and_equality hprev)
    exact ⟨e, he, by simpa using hextract⟩

lemma extract_rowExpr {columns : List String} {key : List Value} (hcolumns : columns ≠ [])
    (hlength : key.length = columns.length) :
    ∃ e, rowExpr ident columns key = some e ∧
      extract e = distinctKeys (columns.map ident) [key.map canonical] := by
  obtain ⟨c, columns, rfl⟩ := List.exists_cons_of_ne_nil hcolumns
  obtain ⟨v, key, rfl⟩ : ∃ v k, key = v :: k := by
    cases key with
    | nil => simp at hlength
    | cons v key => exact ⟨v, key, rfl⟩
  have hfirst : extract (equality ident (c, v)) = distinctKeys [ident c] [[canonical v]] := by
    rw [extract_equality, distinctKeys, if_pos (List.nodup_singleton _)]
  obtain ⟨e, he, hextract⟩ := @extract_foldl_and ident (columns.zip key) _ _ _ hfirst
  refine ⟨e, he, ?_⟩
  have hlength' : key.length = columns.length := by simpa using hlength
  have hnames : (columns.zip key).map (fun p => ident p.1) = columns.map ident := by
    conv_rhs => rw [← List.map_fst_zip hlength'.ge, List.map_map]
    rfl
  have hvalues : (columns.zip key).map (fun p => canonical p.2) = key.map canonical := by
    conv_rhs => rw [← List.map_snd_zip hlength'.le, List.map_map]
    rfl
  rw [hextract, hnames, hvalues]
  rfl

/-- The expressions of the other candidates. -/
lemma extract_foldl_or {columns : List String} {rows keys : List (List Value)} {prev : Expr}
    (hcolumns : columns ≠ []) (hrows : ∀ row ∈ rows, row.length = columns.length)
    (hprev : extract prev = distinctKeys (columns.map ident) keys) :
    ∃ e, (rows.filterMap (rowExpr ident columns)).foldl
        (fun acc e => some (acc.elim e fun prev => Expr.or prev e)) (some prev) = some e ∧
      extract e = distinctKeys (columns.map ident) (keys ++ rows.map (List.map canonical)) := by
  induction rows generalizing prev keys with
  | nil => exact ⟨prev, rfl, by simpa using hprev⟩
  | cons row rows ih =>
    obtain ⟨e, he, hextract⟩ := @extract_rowExpr ident _ row hcolumns (hrows row List.mem_cons_self)
    have hor : extract (.or prev e) =
        distinctKeys (columns.map ident) (keys ++ [row.map canonical]) := by
      rw [extract, hprev, hextract]
      by_cases hnodup : (columns.map ident).Nodup <;> simp [distinctKeys, hnodup]
    obtain ⟨e', he', hextract'⟩ := ih (fun row' h => hrows row' (List.mem_cons_of_mem row h)) hor
    refine ⟨e', ?_, by simpa using hextract'⟩
    rw [List.filterMap_cons_some he]
    exact he'

/-- What `to_expr` says: the candidates with their values as they come back. -/
lemma extract_toExpr {pf : PrimaryKeyFilter}
    (hrows : ∀ key ∈ pf.rows, key.length = pf.columns.length) :
    extract (pf.toExpr ident) = if pf.columns = [] ∨ pf.rows = [] then none
      else distinctKeys (pf.columns.map ident) (pf.rows.map (List.map canonical)) := by
  obtain ⟨columns, rows⟩ := pf
  match columns, rows with
  | [], rows =>
    have hnone : rows.filterMap (rowExpr ident []) = [] :=
      List.filterMap_eq_nil_iff.2 fun row _ => rfl
    simp [toExpr, hnone, extract]
  | [c], [] => simp [toExpr, extract, Operand.columnName]
  | [c], [row] =>
    obtain ⟨v, rfl⟩ : ∃ v, row = [v] := List.length_eq_one_iff.1 (hrows row List.mem_cons_self)
    simp [toExpr, extract_equality, distinctKeys]
  | [c], row :: row' :: rows =>
    have hkeys : ((row :: row' :: rows).map fun row =>
          Operand.literal (row.headD .null).toScalar).filterMap
            (fun x => x.literalJson.map fun v => [v]) =
        (row :: row' :: rows).map (List.map canonical) := by
      rw [List.filterMap_map, ← List.filterMap_eq_map]
      apply List.filterMap_congr
      intro key hkey
      obtain ⟨v, rfl⟩ : ∃ v, key = [v] := List.length_eq_one_iff.1 (hrows key hkey)
      simp [Operand.literalJson, toJsonValue_toScalar]
    have hlist : toExpr ident ⟨[c], row :: row' :: rows⟩ = .inList (.column (ident c))
        ((row :: row' :: rows).map fun row => .literal (row.headD .null).toScalar) false := rfl
    rw [hlist, extract, hkeys]
    simp [Operand.columnName, distinctKeys]
  | c :: c' :: columns, [] => simp [toExpr, extract]
  | c :: c' :: columns, row :: rows =>
    have hcolumns : c :: c' :: columns ≠ [] := List.cons_ne_nil _ _
    obtain ⟨e, he, hextract⟩ := @extract_rowExpr ident _ row hcolumns (hrows row List.mem_cons_self)
    obtain ⟨e', he', hextract'⟩ := extract_foldl_or hcolumns
      (fun row' h => hrows row' (List.mem_cons_of_mem row h)) hextract
    have hexpr : toExpr ident ⟨c :: c' :: columns, row :: rows⟩ = e' := by
      simp only [toExpr]
      rw [List.filterMap_cons_some he, List.foldl_cons, Option.elim_none, he', Option.getD_some]
    rw [hexpr, hextract']
    simp

/-- A text that comes back after some rounds of `col` is kept by it. -/
def Settles (ident : String → String) : Prop := ∀ n c, ident^[n + 1] c = c → ident c = c

/-- Names that are a permutation of the columns are the columns. -/
lemma Settles.eq_of_mem (hident : Settles ident) {columns : List String}
    (hnodup : (columns.map ident).Nodup) (hsubset : ∀ c ∈ columns, ident c ∈ columns) {c : String}
    (hc : c ∈ columns) : ident c = c := by
  let f : {c // c ∈ columns} → {c // c ∈ columns} := fun c => ⟨ident c, hsubset c c.2⟩
  have hinjective : Function.Injective f := by
    intro a b hab
    exact Subtype.ext (List.inj_on_of_nodup_map hnodup a.2 b.2 (congrArg Subtype.val hab))
  have hiterate (n : ℕ) (a : {c // c ∈ columns}) : (f^[n] a : String) = ident^[n] a := by
    induction n with
    | zero => rfl
    | succ n ih => rw [Function.iterate_succ_apply', Function.iterate_succ_apply', ← ih]
  obtain ⟨n, hn, hperiod⟩ := hinjective.mem_periodicPts ⟨c, hc⟩
  apply hident (n - 1)
  rw [Nat.sub_add_cancel hn, ← hiterate n ⟨c, hc⟩, hperiod]

lemma colIdx_self {columns : List String} (hnodup : columns.Nodup) :
    columns.filterMap (fun c => columns.idxOf? c) = List.range columns.length := by
  have hmap : columns.map (fun c => columns.idxOf? c) = (List.range columns.length).map some := by
    apply List.ext_getElem
    · simp
    · intro i hi hi'
      rw [List.length_map] at hi
      simpa using idxOf?_getElem hnodup hi
  simpa [List.filterMap_map, Function.comp_def] using congrArg (List.filterMap id) hmap

lemma filterMap_range {α : Type} {xs : List α} {n : ℕ} (hn : xs.length = n) :
    ((List.range n).filterMap fun i => xs[i]?) = xs := by
  have hrows := Selection.rowsIn_range' xs 0 n
  rwa [← List.range_eq_range', List.drop_zero, List.take_of_length_le hn.le] at hrows

lemma map_eq_self {α : Type} {f : α → α} {xs : List α} (h : ∀ x ∈ xs, f x = x) : xs.map f = xs := by
  rw [List.map_congr_left h]
  exact List.map_id xs

/-- Columns that are in the order of the key stay as they are. -/
lemma fromExpr_of_extract {e : Expr} {columns : List String} {keys : List (List Value)}
    (hcolumns : columns ≠ []) (hnodup : columns.Nodup)
    (hlength : ∀ key ∈ keys, key.length = columns.length)
    (h : extract e = some (columns, keys)) : fromExpr e columns = some ⟨columns, keys⟩ := by
  have hkeys : keys.map (fun key => (List.range columns.length).filterMap fun i => key[i]?) =
      keys :=
    map_eq_self fun key hkey => filterMap_range (hlength key hkey)
  have hrange : List.range columns.length ≠ [] := by simpa using hcolumns
  have hself : ¬ (columns.any fun c => !columns.contains c) = true := by simp
  simp only [fromExpr, h, Option.bind_some, colIdx_self hnodup]
  rw [if_neg hself, if_neg hrange, filterMap_range rfl, hkeys]

/-- The filters have the same columns and the same set of keys. -/
def SameKeys (pf pf' : PrimaryKeyFilter) : Prop :=
  pf.columns = pf'.columns ∧ ∀ key, key ∈ pf.rows ↔ key ∈ pf'.rows

/-- The filters that come back from their expression. -/
def Returns (ident : String → String) (pf : PrimaryKeyFilter) : Prop :=
  pf.columns ≠ [] ∧ pf.rows ≠ [] ∧ pf.columns.Nodup ∧ (∀ c ∈ pf.columns, ident c = c) ∧
    ∀ key ∈ pf.rows, ∀ v ∈ key, Representable v

lemma fromExpr_toExpr_iff (hident : Settles ident) {pf : PrimaryKeyFilter}
    (hrows : ∀ key ∈ pf.rows, key.length = pf.columns.length) :
    (∃ pf', fromExpr (pf.toExpr ident) pf.columns = some pf' ∧ SameKeys pf' pf) ↔
      pf.Returns ident := by
  have hlength : ∀ key ∈ pf.rows.map (List.map canonical), key.length = pf.columns.length := by
    intro key hkey
    obtain ⟨key, hmem, rfl⟩ := List.mem_map.1 hkey
    rw [List.length_map, hrows key hmem]
  constructor
  · rintro ⟨pf', hpf, hsame⟩
    obtain ⟨p, hp, h⟩ := Option.bind_eq_some_iff.1 hpf
    have hextract := @extract_toExpr ident pf hrows
    rw [hp] at hextract
    split_ifs at hextract with hempty
    rw [not_or] at hempty
    obtain ⟨hcolumns, hnonempty⟩ := hempty
    rw [distinctKeys] at hextract
    split_ifs at hextract with hnodup
    obtain rfl := Option.some.inj hextract
    simp only at h
    split_ifs at h with hsubset hidx
    have hsubset' : ∀ c ∈ pf.columns, ident c ∈ pf.columns := by simpa using hsubset
    have hfixed : ∀ c ∈ pf.columns, ident c = c := fun c hc =>
      hident.eq_of_mem hnodup hsubset' hc
    have hnames : pf.columns.map ident = pf.columns := map_eq_self hfixed
    rw [hnames] at hp hnodup
    rw [fromExpr_of_extract hcolumns hnodup hlength hp] at hpf
    obtain rfl := Option.some.inj hpf
    exact ⟨hcolumns, hnonempty, hnodup, hfixed, fun key hkey v hv =>
      representable_of_mem_iff hsame.2 hkey hv⟩
  · rintro ⟨hcolumns, hnonempty, hnodup, hfixed, hvalues⟩
    have hnames : pf.columns.map ident = pf.columns := map_eq_self hfixed
    have hkeys : pf.rows.map (List.map canonical) = pf.rows :=
      map_eq_self fun key hkey => map_eq_self fun v hv =>
        canonical_of_representable (hvalues key hkey v hv)
    have hextract : extract (pf.toExpr ident) = some (pf.columns, pf.rows) := by
      rw [extract_toExpr hrows, hnames, hkeys, distinctKeys, if_pos hnodup,
        if_neg (not_or.2 ⟨hcolumns, hnonempty⟩)]
    exact ⟨pf, fromExpr_of_extract hcolumns hnodup hrows hextract, rfl, fun _ => Iff.rfl⟩

lemma settles_id : Settles id := fun _ _ _ => rfl

/-- Two candidates with two columns. -/
def pairFilter : PrimaryKeyFilter :=
  ⟨["a", "b"], [[.int 1, .string "x"], [.int 2, .string "y"]]⟩

lemma plain_equality_one : (equality id ("a", .int 1)).Plain :=
  Or.inl ⟨⟨"a", rfl⟩, _, .int 1, rfl, rfl, rfl⟩

/-- `name IN ('a', 'b')`, where the second literal is a string view. -/
def viewList : Expr :=
  .inList (.column "name") [.literal ⟨.utf8, some (.string "a")⟩,
    .literal ⟨.utf8View, some (.string "b")⟩] false

end PrimaryKeyFilter

end BenoStreamDB

import BenoStreamDB.Foundations.NestedLoop
import BenoStreamDB.Query.Expr

/-!
# The index join

`IndexJoinOptimizerRule` (`sql/optimizer/index_join.rs`) replaces an inner hash join whose right
side is a scan of a table by a `BenoStreamIndexJoinExec` (`sql/physical_plan/index_join.rs`), which
looks up the partners of one left batch after the other. The new node takes over the keys and the
schema of the old one, but not its join filter, its projection, the treatment of NULL keys or the
filter and projection of the scan; it runs the first left partition only, and it ends with the
first left batch that has no partner.

Over a table that answers lookups exactly, the two nodes produce the same rows exactly under
`HashJoinExec.Agrees`, which compares the rows of the join with the rows that lookups find. Where
the projections keep all columns in their order, this is `HashJoinExec.Safe`, a condition on the
pairs of rows: `output_equals_iff`.
-/

namespace BenoStreamDB

/-- A row of a batch, as the list of its values. -/
abbrev SqlRow := List (Option Cell)

/-- The columns of a projection. -/
def projectList {α : Type} (projection : Option (List ℕ)) (l : List α) : List α :=
  match projection with
  | none => l
  | some is => is.filterMap fun i => l[i]?

lemma projectList_map {α β : Type} (projection : Option (List ℕ)) (f : α → β) (l : List α) :
    projectList projection (l.map f) = (projectList projection l).map f := by
  cases projection with
  | none => rfl
  | some is => simp [projectList, List.map_filterMap]

/-! ### Plans -/

inductive JoinType where
  | inner
  | left
  | right
  | full
  | leftSemi
  | rightSemi
  | leftAnti
  | rightAnti
  | leftMark
  | rightMark
  deriving DecidableEq

/-- A scan of a table: the rows of the table, and what the scan makes of them. -/
structure TableScan where
  columns : List (String × DataType)
  rows : List SqlRow
  keeps : SqlRow → Bool := fun _ => true
  projection : Option (List ℕ) := none
  row_length : ∀ r ∈ rows, r.length = columns.length

namespace TableScan

def cell (s : TableScan) (row : SqlRow) (name : String) : Option Cell :=
  ((s.columns.map Prod.fst).zip row).lookup name |>.join

/-- The JSON value of a key, if it has one. -/
def json (s : TableScan) (name : String) (c : Option Cell) : Option Value := do
  let t ← s.columns.lookup name
  let cell ← c
  match ManifestValue.fromArray t cell with
  | .null => none
  | v => some v.toJsonValue

end TableScan

inductive RightInput where
  | scan (s : TableScan)
  | other

inductive RightKey where
  | column (name : String)
  | other

structure HashJoinExec where
  joinType : JoinType
  leftTypes : List DataType
  /-- The partitions of the left side, as lists of batches. -/
  left : List (List (List SqlRow))
  right : RightInput
  on : List ((SqlRow → Option Cell) × RightKey)
  filter : SqlRow → SqlRow → Bool := fun _ _ => true
  projection : Option (List ℕ) := none
  nullEqualsNull : Bool := false
  left_length : ∀ batches ∈ left, ∀ b ∈ batches, ∀ l ∈ b, l.length = leftTypes.length
  right_columns : ∀ s, right = .scan s → ∀ key ∈ on, ∀ name, key.2 = .column name →
    name ∈ s.columns.map Prod.fst

structure BenoStreamIndexJoinExec where
  leftTypes : List DataType
  left : List (List (List SqlRow))
  rightTable : TableScan
  leftOn : List (SqlRow → Option Cell)
  rightCols : List String
  schema : List DataType

namespace HashJoinExec

def schema (x : HashJoinExec) (s : TableScan) : List DataType :=
  projectList x.projection (x.leftTypes ++ projectList s.projection (s.columns.map Prod.snd))

/-- The key columns, if they are all simple columns of the scan. -/
def rightCols : List ((SqlRow → Option Cell) × RightKey) → Option (List String)
  | [] => some []
  | (_, .column name) :: on => (rightCols on).map (name :: ·)
  | (_, .other) :: _ => none

/-- `IndexJoinOptimizerRule::optimize` at a hash join. -/
def optimize (x : HashJoinExec) : Option BenoStreamIndexJoinExec :=
  if x.joinType ≠ .inner then none
  else
    match x.right with
    | .other => none
    | .scan s =>
      if x.on = [] then none
      else (rightCols x.on).map fun cols =>
        { leftTypes := x.leftTypes
          left := x.left
          rightTable := s
          leftOn := x.on.map Prod.fst
          rightCols := cols
          schema := x.schema s }

/-! ### What the hash join produces -/

/-- Whether two keys are equal for the hash join. -/
def keyMatches (nullEqualsNull : Bool) : Option Cell → Option Cell → Bool
  | some a, some b => a = b
  | none, none => nullEqualsNull
  | _, _ => false

def rightKey (s : TableScan) (r : SqlRow) : RightKey → Option Cell
  | .column name => s.cell r name
  | .other => none

def isPartner (x : HashJoinExec) (s : TableScan) (l r : SqlRow) : Bool :=
  (x.on.all fun key => keyMatches x.nullEqualsNull (key.1 l) (rightKey s r key.2)) &&
    x.filter l (projectList s.projection r)

/-- The rows of an inner hash join over a scan. -/
def rows (x : HashJoinExec) (s : TableScan) : List SqlRow :=
  (NestedLoop.pairs (x.isPartner s) x.left.flatten.flatten (s.rows.filter s.keeps)).map fun p =>
    projectList x.projection (p.1 ++ projectList s.projection p.2)

end HashJoinExec

/-! ### The index join -/

/-- The lookups of a table, and the error of arrow for columns that do not fit a schema. -/
structure JoinEnv where
  /-- `read_filter_async(filters, None, None)` -/
  readFilter : List QueryFilter → Except String (List (List SqlRow))
  mismatch : List DataType → List DataType → String

namespace BenoStreamIndexJoinExec

def lookupFilter (column : String) (values : List Value) : QueryFilter where
  column := column
  min := none
  minInclusive := false
  max := none
  maxInclusive := false
  values := some values
  negated := false

/-- The distinct JSON values of a key. The source also sorts them, for the sake of the
deduplication. -/
def extractDistinctValues (s : TableScan) (name : String) (keys : List (Option Cell)) :
    List Value :=
  (keys.filterMap (s.json name)).dedup

/-- The values of each key in a batch; `none` if a key has none. -/
def lookupFilters (s : TableScan) (batch : List SqlRow) :
    List ((SqlRow → Option Cell) × String) → Option (List QueryFilter)
  | [] => some []
  | key :: keys =>
    let values := extractDistinctValues s key.2 (batch.map key.1)
    if values = [] then none
    else (lookupFilters s batch keys).map (lookupFilter key.2 values :: ·)

def leftKeys (x : BenoStreamIndexJoinExec) (l : SqlRow) : List (Option Cell) :=
  x.leftOn.map fun e => e l

def rightKeys (x : BenoStreamIndexJoinExec) (r : SqlRow) : List (Option Cell) :=
  x.rightCols.map (x.rightTable.cell r)

/-- `perform_join`: the rows are compared by their encoding, in which NULL is a value. -/
def performJoin (x : BenoStreamIndexJoinExec) (E : JoinEnv) (batch right : List SqlRow) :
    Except String (Option (List SqlRow)) :=
  match x.rightCols.find? fun name => !(x.rightTable.columns.map Prod.fst).contains name with
  | some name => .error ("Right join col " ++ name ++ " missing")
  | none =>
    let pairs := NestedLoop.pairs (fun l r => x.leftKeys l == x.rightKeys r) batch right
    let types := x.leftTypes ++ x.rightTable.columns.map Prod.snd
    if pairs = [] then .ok none
    else if types = x.schema then .ok (some (pairs.map fun p => p.1 ++ p.2))
    else .error (E.mismatch types x.schema)

def processJoinBatch (x : BenoStreamIndexJoinExec) (E : JoinEnv) (batch : List SqlRow) :
    Except String (Option (List SqlRow)) :=
  if x.leftOn = [] ∨ batch = [] then .ok none
  else
    match lookupFilters x.rightTable batch (x.leftOn.zip x.rightCols) with
    | none => .ok none
    | some filters => do
      let rightBatches ← (E.readFilter filters).mapError fun e => "BenoStream read error: " ++ e
      if rightBatches = [] then return none
      else x.performJoin E batch rightBatches.flatten

/-- `poll_next`, until the stream ends. A batch without a result ends it, whatever follows. -/
def joinStream (process : List SqlRow → Except String (Option (List SqlRow))) :
    List (List SqlRow) → List (Except String (List SqlRow))
  | [] => []
  | b :: bs =>
    match process b with
    | .ok none => []
    | .ok (some rows) => .ok rows :: joinStream process bs
    | .error e => .error e :: joinStream process bs

/-- The node has one partition, which reads the first one of the left side. -/
def output (x : BenoStreamIndexJoinExec) (E : JoinEnv) : List (Except String (List SqlRow)) :=
  joinStream (x.processJoinBatch E) (x.left.head?.getD [])

/-- The node yields batches with exactly the given rows, in some order. -/
def Produces (x : BenoStreamIndexJoinExec) (E : JoinEnv) (rows : List SqlRow) : Prop :=
  ∃ batches : List (List SqlRow), x.output E = batches.map .ok ∧ batches.flatten.Perm rows

end BenoStreamIndexJoinExec

/-! ### When the two joins agree -/

/-- The key of the row is one of the values of each lookup. -/
def TableScan.inLists (s : TableScan) (keys : List (String × List Value)) (r : SqlRow) : Bool :=
  keys.all fun k => (s.json k.1 (s.cell r k.1)).any fun v => k.2.contains v

/-- The table answers lookups with exactly the rows of the scan that they ask for. -/
def ExactLookup (s : TableScan) (E : JoinEnv) : Prop :=
  ∀ keys : List (String × List Value), ∃ batches,
    E.readFilter (keys.map fun k => BenoStreamIndexJoinExec.lookupFilter k.1 k.2) = .ok batches ∧
      batches.flatten.Perm (s.rows.filter (s.inLists keys))

namespace HashJoinExec

/-- The keys are equal, and of types that a lookup can ask for. NULL is not. -/
def isFound (x : HashJoinExec) (s : TableScan) (l r : SqlRow) : Bool :=
  x.on.all fun key =>
    match key.2 with
    | .column name => key.1 l == s.cell r name && (s.json name (key.1 l)).isSome
    | .other => false

def hasPartner (x : HashJoinExec) (s : TableScan) (batch : List SqlRow) : Bool :=
  batch.any fun l => s.rows.any (x.isFound s l)

/-- The left rows before the first batch that has no partner, in the first partition. -/
def joined (x : HashJoinExec) (s : TableScan) : List SqlRow :=
  ((x.left.head?.getD []).takeWhile (x.hasPartner s)).flatten

def unjoined (x : HashJoinExec) (s : TableScan) : List SqlRow :=
  ((x.left.head?.getD []).dropWhile (x.hasPartner s)).flatten ++ x.left.tail.flatten.flatten

/-- What lookups find for the left rows that the index join gets to, with all columns. -/
def foundRows (x : HashJoinExec) (s : TableScan) : List SqlRow :=
  (NestedLoop.pairs (x.isFound s) (x.joined s) s.rows).map fun p => p.1 ++ p.2

/-- The index join agrees with the hash join: what lookups find fits the schema of the join, and it
is what the join asks for. -/
structure Agrees (x : HashJoinExec) (s : TableScan) : Prop where
  schema : x.foundRows s ≠ [] → x.leftTypes ++ s.columns.map Prod.snd = x.schema s
  rows : (x.foundRows s).Perm (x.rows s)

/-- The columns of the join, by their numbers among all columns of the two sides. -/
def outputColumns (x : HashJoinExec) (s : TableScan) : List ℕ :=
  projectList x.projection (List.range x.leftTypes.length ++
    projectList s.projection ((List.range s.columns.length).map (x.leftTypes.length + ·)))

/-- The projections keep all columns, in their order. -/
def KeepsColumns (x : HashJoinExec) (s : TableScan) : Prop :=
  x.outputColumns s = List.range (x.leftTypes.length + s.columns.length)

instance decidableKeepsColumns (x : HashJoinExec) (s : TableScan) : Decidable (x.KeepsColumns s) :=
  inferInstanceAs (Decidable (_ = _))

/-- The joins agree pair by pair: on the rows that the index join gets to, what a lookup finds is
what the keys, the filter of the scan and the join filter ask for, and the other rows have no
partner. -/
structure Safe (x : HashJoinExec) (s : TableScan) : Prop where
  joined : ∀ l ∈ x.joined s, ∀ r ∈ s.rows, x.isFound s l r = (s.keeps r && x.isPartner s l r)
  unjoined : ∀ l ∈ x.unjoined s, ∀ r ∈ s.rows, (s.keeps r && x.isPartner s l r) = false

lemma joined_append_unjoined (x : HashJoinExec) (s : TableScan) :
    x.joined s ++ x.unjoined s = x.left.flatten.flatten := by
  rw [joined, unjoined, ← List.append_assoc, ← List.flatten_append, List.takeWhile_append_dropWhile]
  cases x.left with
  | nil => rfl
  | cons bs rest => simp

/-- The projections of a join pick the same columns of any two lists of columns. -/
lemma project_eq_map {x : HashJoinExec} {s : TableScan} {α : Type} {l r : List α} (d : α)
    (hl : l.length = x.leftTypes.length) (hr : r.length = s.columns.length) :
    projectList x.projection (l ++ projectList s.projection r) =
      (x.outputColumns s).map fun i => (l ++ r).getD i d := by
  have hleft : l = (List.range x.leftTypes.length).map fun i => (l ++ r).getD i d := by
    refine List.ext_getElem (by simp [hl]) fun i hi _ => ?_
    simp [List.getElem?_append_left hi, List.getElem?_eq_getElem hi]
  have hright : r = ((List.range s.columns.length).map (x.leftTypes.length + ·)).map fun i =>
      (l ++ r).getD i d := by
    refine List.ext_getElem (by simp [hr]) fun i hi _ => ?_
    simp [← hl, hi]
  rw [outputColumns, ← projectList_map, List.map_append, ← projectList_map, ← hleft, ← hright]

lemma KeepsColumns.project_eq {x : HashJoinExec} {s : TableScan} (h : x.KeepsColumns s)
    {α : Type} [Inhabited α] {l r : List α} (hl : l.length = x.leftTypes.length)
    (hr : r.length = s.columns.length) :
    projectList x.projection (l ++ projectList s.projection r) = l ++ r := by
  rw [project_eq_map default hl hr, h]
  refine List.ext_getElem (by simp [hl, hr]) fun i _ hi => ?_
  simp [List.getElem?_eq_getElem hi]

lemma length_of_mem_left (x : HashJoinExec) {l : SqlRow} (hl : l ∈ x.left.flatten.flatten) :
    l.length = x.leftTypes.length := by
  simp only [List.mem_flatten] at hl
  obtain ⟨b, ⟨batches, hbatches, hb⟩, hl⟩ := hl
  exact x.left_length batches hbatches b hb l hl

/-- The rows of a join that keeps all columns, with the filter of the scan as part of the join. -/
lemma KeepsColumns.rows_eq {x : HashJoinExec} {s : TableScan} (h : x.KeepsColumns s) :
    x.rows s = (NestedLoop.pairs (fun l r => s.keeps r && x.isPartner s l r)
      (x.joined s ++ x.unjoined s) s.rows).map fun p => p.1 ++ p.2 := by
  rw [rows, NestedLoop.pairs_filter, joined_append_unjoined]
  refine List.map_congr_left fun p hp => ?_
  obtain ⟨hl, hr, -⟩ := NestedLoop.mem_pairs.1 hp
  exact h.project_eq (x.length_of_mem_left hl) (s.row_length _ hr)

lemma KeepsColumns.schema_eq {x : HashJoinExec} {s : TableScan} (h : x.KeepsColumns s) :
    x.leftTypes ++ s.columns.map Prod.snd = x.schema s :=
  haveI : Inhabited DataType := ⟨.int64⟩
  (h.project_eq rfl (List.length_map _)).symm

/-- Left rows all have the same length, so a joined row determines its parts. -/
lemma perm_map_append_iff {n : ℕ} {ps qs : List (SqlRow × SqlRow)}
    (hps : ∀ p ∈ ps, p.1.length = n) (hqs : ∀ p ∈ qs, p.1.length = n) :
    (ps.map fun p => p.1 ++ p.2).Perm (qs.map fun p => p.1 ++ p.2) ↔ ps.Perm qs := by
  have hsplit : ∀ {ps : List (SqlRow × SqlRow)}, (∀ p ∈ ps, p.1.length = n) →
      ((ps.map fun p => p.1 ++ p.2).map fun row => row.splitAt n) = ps := by
    intro ps hps
    rw [List.map_map]
    conv_rhs => rw [← List.map_id ps]
    refine List.map_congr_left fun p hp => ?_
    have hn := hps p hp
    subst hn
    simp [List.splitAt_eq]
  refine ⟨fun h => ?_, fun h => h.map _⟩
  have hmap := h.map fun row : SqlRow => row.splitAt n
  rwa [hsplit hps, hsplit hqs] at hmap

lemma length_of_mem_pairs (x : HashJoinExec) {p : SqlRow → SqlRow → Bool}
    {rows : List SqlRow} {left : List SqlRow} (hleft : ∀ l ∈ left, l ∈ x.left.flatten.flatten) :
    ∀ q ∈ NestedLoop.pairs p left rows, q.1.length = x.leftTypes.length := by
  intro q hq
  exact x.length_of_mem_left (hleft q.1 (NestedLoop.mem_pairs.1 hq).1)

/-- With all columns kept, a joined row determines its parts, so rows are compared as pairs. -/
lemma KeepsColumns.agrees_iff {x : HashJoinExec} {s : TableScan} (h : x.KeepsColumns s) :
    x.Agrees s ↔ x.Safe s := by
  have hmem : ∀ l ∈ x.joined s, l ∈ x.left.flatten.flatten := by
    intro l hl
    rw [← joined_append_unjoined x s]
    exact List.mem_append_left _ hl
  have hperm : (x.foundRows s).Perm (x.rows s) ↔ x.Safe s := by
    rw [h.rows_eq, foundRows, perm_map_append_iff (x.length_of_mem_pairs hmem)
      (x.length_of_mem_pairs fun l hl => by rwa [joined_append_unjoined] at hl),
      NestedLoop.perm_pairs_append_iff]
    exact ⟨fun hs => ⟨hs.1, hs.2⟩, fun hs => ⟨hs.joined, hs.unjoined⟩⟩
  exact ⟨fun ha => hperm.1 ha.rows, fun hs => ⟨fun _ => h.schema_eq, hperm.2 hs⟩⟩

lemma rightCols_eq_some : ∀ {on : List ((SqlRow → Option Cell) × RightKey)} {cols : List String},
    rightCols on = some cols →
      ∃ keys : List ((SqlRow → Option Cell) × String),
        on = keys.map (fun k => (k.1, .column k.2)) ∧ cols = keys.map Prod.snd
  | [], cols, h => by
    obtain rfl : [] = cols := Option.some.inj h
    exact ⟨[], rfl, rfl⟩
  | (e, .other) :: on, cols, h => nomatch h
  | (e, .column name) :: on, cols, h => by
    obtain ⟨rest, hrest, rfl⟩ := Option.map_eq_some_iff.1 h
    obtain ⟨keys, rfl, rfl⟩ := rightCols_eq_some hrest
    exact ⟨(e, name) :: keys, rfl, rfl⟩

/-- What the rule makes of a join, by its keys. -/
lemma optimize_eq_some {x : HashJoinExec} {y : BenoStreamIndexJoinExec} {s : TableScan}
    (h : x.optimize = some y) (hs : x.right = .scan s) :
    ∃ keys : List ((SqlRow → Option Cell) × String), keys ≠ [] ∧
      x.on = keys.map (fun k => (k.1, .column k.2)) ∧
      y = { leftTypes := x.leftTypes, left := x.left, rightTable := s, leftOn := keys.map Prod.fst,
            rightCols := keys.map Prod.snd, schema := x.schema s } := by
  have htype : x.joinType = .inner := by
    by_contra hne
    simp [optimize, hne] at h
  have hon : x.on ≠ [] := by
    intro hon
    simp [optimize, htype, hs, hon] at h
  simp only [optimize, htype, hs, hon, ne_eq, not_true, if_false] at h
  cases hcols : rightCols x.on with
  | none => simp [hcols] at h
  | some cols =>
    obtain ⟨keys, hkeys, rfl⟩ := rightCols_eq_some hcols
    refine ⟨keys, ?_, hkeys, ?_⟩
    · rintro rfl
      exact hon hkeys
    · rw [hcols] at h
      rw [← Option.some.inj h, hkeys]
      simp

end HashJoinExec

namespace BenoStreamIndexJoinExec

section Batch

variable {s : TableScan} {batch : List SqlRow} {keys : List ((SqlRow → Option Cell) × String)}

lemma mem_extractDistinctValues {name : String} {cells : List (Option Cell)} {v : Value} :
    v ∈ extractDistinctValues s name cells ↔ ∃ c ∈ cells, s.json name c = some v := by
  rw [extractDistinctValues, List.mem_dedup, List.mem_filterMap]

lemma lookupFilters_eq_none (h : lookupFilters s batch keys = none) :
    ∃ k ∈ keys, ∀ l ∈ batch, s.json k.2 (k.1 l) = none := by
  induction keys with
  | nil => cases h
  | cons k keys ih =>
    by_cases hvalues : extractDistinctValues s k.2 (batch.map k.1) = []
    · refine ⟨k, List.mem_cons_self, fun l hl => ?_⟩
      by_contra hjson
      obtain ⟨v, hv⟩ := Option.ne_none_iff_exists'.1 hjson
      have hmem : v ∈ extractDistinctValues s k.2 (batch.map k.1) :=
        mem_extractDistinctValues.2 ⟨k.1 l, List.mem_map_of_mem hl, hv⟩
      rw [hvalues] at hmem
      exact List.not_mem_nil hmem
    · rw [lookupFilters, if_neg hvalues, Option.map_eq_none_iff] at h
      obtain ⟨k', hk', hnone⟩ := ih h
      exact ⟨k', List.mem_cons_of_mem k hk', hnone⟩

/-- The column and the values of each lookup. -/
def lookups (s : TableScan) (batch : List SqlRow) (keys : List ((SqlRow → Option Cell) × String)) :
    List (String × List Value) :=
  keys.map fun k => (k.2, extractDistinctValues s k.2 (batch.map k.1))

lemma lookupFilters_eq_some {filters : List QueryFilter}
    (h : lookupFilters s batch keys = some filters) :
    filters = (lookups s batch keys).map fun k => lookupFilter k.1 k.2 := by
  induction keys generalizing filters with
  | nil => exact (Option.some.inj h).symm
  | cons k keys ih =>
    by_cases hvalues : extractDistinctValues s k.2 (batch.map k.1) = []
    · rw [lookupFilters, if_pos hvalues] at h
      cases h
    · rw [lookupFilters, if_neg hvalues] at h
      obtain ⟨rest, hrest, rfl⟩ := Option.map_eq_some_iff.1 h
      rw [ih hrest]
      rfl

/-- Whether the row is found by the keys of a left row. -/
def keysFound (s : TableScan) (keys : List ((SqlRow → Option Cell) × String)) (l r : SqlRow) :
    Bool :=
  keys.all fun k => k.1 l == s.cell r k.2 && (s.json k.2 (k.1 l)).isSome

/-- A row with the keys of a left row is returned by the lookups for a batch with this row exactly
if the keys can be looked up. -/
lemma inLists_and_keys {l r : SqlRow} (hl : l ∈ batch) :
    (s.inLists (lookups s batch keys) r &&
      decide (∀ k ∈ keys, k.1 l = s.cell r k.2)) = keysFound s keys l r := by
  rw [Bool.eq_iff_iff]
  simp only [Bool.and_eq_true, decide_eq_true_eq, TableScan.inLists, lookups, List.all_map,
    keysFound, List.all_eq_true, Function.comp_apply, beq_iff_eq]
  constructor
  · rintro ⟨hlists, hkeys⟩ k hk
    refine ⟨hkeys k hk, ?_⟩
    have hany := hlists k hk
    rw [← hkeys k hk] at hany
    cases hjson : s.json k.2 (k.1 l) with
    | none => simp [hjson] at hany
    | some v => rfl
  · intro h
    refine ⟨fun k hk => ?_, fun k hk => (h k hk).1⟩
    obtain ⟨hkey, hjson⟩ := h k hk
    obtain ⟨v, hv⟩ := Option.isSome_iff_exists.1 hjson
    rw [← hkey, hv]
    exact List.elem_iff.2 (mem_extractDistinctValues.2 ⟨k.1 l, List.mem_map_of_mem hl, hv⟩)

/-- The node with the given keys over a table. -/
structure HasKeys (y : BenoStreamIndexJoinExec) (s : TableScan)
    (keys : List ((SqlRow → Option Cell) × String)) : Prop where
  nonempty : keys ≠ []
  leftOn : y.leftOn = keys.map Prod.fst
  rightCols : y.rightCols = keys.map Prod.snd
  rightTable : y.rightTable = s
  columns : ∀ k ∈ keys, k.2 ∈ s.columns.map Prod.fst

variable {y : BenoStreamIndexJoinExec} {E : JoinEnv}

lemma HasKeys.keys_beq (h : y.HasKeys s keys) (l r : SqlRow) :
    (y.leftKeys l == y.rightKeys r) = decide (∀ k ∈ keys, k.1 l = s.cell r k.2) := by
  rw [Bool.eq_iff_iff, beq_iff_eq, decide_eq_true_iff, leftKeys, rightKeys, h.leftOn, h.rightCols,
    h.rightTable, List.map_map, List.map_map, List.map_inj_left]
  rfl

/-- The pairs that the lookup and the probe of a batch find. -/
lemma HasKeys.perm_pairs (h : y.HasKeys s keys) {right : List SqlRow}
    (hright : right.Perm (s.rows.filter (s.inLists (lookups s batch keys)))) :
    (NestedLoop.pairs (fun l r => y.leftKeys l == y.rightKeys r) batch right).Perm
      (NestedLoop.pairs (keysFound s keys) batch s.rows) := by
  refine (NestedLoop.pairs_perm_right hright).trans ?_
  rw [NestedLoop.pairs_filter]
  refine List.Perm.of_eq (NestedLoop.pairs_congr fun l hl r _ => ?_)
  rw [h.keys_beq, inLists_and_keys hl]

/-- The result for a batch with the given joined rows. -/
def joinedBatch (y : BenoStreamIndexJoinExec) (E : JoinEnv) (rows : List SqlRow) :
    Except String (Option (List SqlRow)) :=
  let types := y.leftTypes ++ y.rightTable.columns.map Prod.snd
  if rows = [] then .ok none
  else if types = y.schema then .ok (some rows)
  else .error (E.mismatch types y.schema)

lemma HasKeys.performJoin_eq (h : y.HasKeys s keys) (right : List SqlRow) :
    y.performJoin E batch right =
      y.joinedBatch E ((NestedLoop.pairs (fun l r => y.leftKeys l == y.rightKeys r) batch right).map
        fun p => p.1 ++ p.2) := by
  have hfind : (y.rightCols.find? fun name => !(s.columns.map Prod.fst).contains name) = none := by
    rw [List.find?_eq_none, h.rightCols]
    intro name hname
    obtain ⟨k, hk, rfl⟩ := List.mem_map.1 hname
    simpa using h.columns k hk
  simp only [performJoin, h.rightTable, hfind, joinedBatch, List.map_eq_nil_iff]

/-- A batch is joined with the rows that its lookups find; without any the result is empty. -/
lemma HasKeys.processJoinBatch_eq (h : y.HasKeys s keys) (hread : ExactLookup s E)
    (batch : List SqlRow) : ∃ rows : List SqlRow,
      rows.Perm ((NestedLoop.pairs (keysFound s keys) batch s.rows).map fun p => p.1 ++ p.2) ∧
      y.processJoinBatch E batch = y.joinedBatch E rows := by
  have hleftOn : y.leftOn ≠ [] := by
    rw [h.leftOn]
    simpa using h.nonempty
  by_cases hbatch : batch = []
  · exact ⟨[], by simp [hbatch], by simp [processJoinBatch, hbatch, joinedBatch]⟩
  have hzip : y.leftOn.zip y.rightCols = keys := by
    rw [h.leftOn, h.rightCols]
    exact (List.zip_of_prod rfl rfl).symm
  cases hfilters : lookupFilters s batch keys with
  | none =>
    -- a key has no value at all, so no row of the batch has a partner
    obtain ⟨k, hk, hnone⟩ := lookupFilters_eq_none hfilters
    have hpairs : NestedLoop.pairs (keysFound s keys) batch s.rows = [] := by
      refine NestedLoop.pairs_eq_nil_iff.2 fun l hl r _ => ?_
      rw [keysFound, List.all_eq_false]
      exact ⟨k, hk, by simp [hnone l hl]⟩
    refine ⟨[], by rw [hpairs]; exact .nil, ?_⟩
    simp [processJoinBatch, hleftOn, hbatch, h.rightTable, hzip, hfilters, joinedBatch]
  | some filters =>
    obtain ⟨batches, hbatches, hperm⟩ := hread (lookups s batch keys)
    rw [← lookupFilters_eq_some hfilters] at hbatches
    have hpairs := (h.perm_pairs hperm).map fun p => p.1 ++ p.2
    refine ⟨_, hpairs, ?_⟩
    simp only [processJoinBatch, hleftOn, hbatch, or_self, if_false, h.rightTable, hzip, hfilters,
      hbatches, Except.mapError, bind, Except.bind]
    by_cases hempty : batches = []
    · simp [hempty, pure, Except.pure, joinedBatch]
    · rw [if_neg hempty, h.performJoin_eq]

/-- A batch without a partner has no joined rows, and only such a batch. -/
lemma eq_nil_iff_of_perm {rows : List SqlRow}
    (h : rows.Perm ((NestedLoop.pairs (keysFound s keys) batch s.rows).map fun p => p.1 ++ p.2)) :
    rows = [] ↔ (batch.any fun l => s.rows.any (keysFound s keys l)) = false := by
  rw [← List.length_eq_zero_iff, h.length_eq, List.length_map, List.length_eq_zero_iff,
    NestedLoop.pairs_eq_nil_iff]
  simp only [List.any_eq_false, Bool.not_eq_true]

/-- The left rows before the first batch that has no partner. -/
def beforeMiss (s : TableScan) (keys : List ((SqlRow → Option Cell) × String))
    (bs : List (List SqlRow)) : List SqlRow :=
  (bs.takeWhile fun b => b.any fun l => s.rows.any (keysFound s keys l)).flatten

/-- Where the columns fit, the stream yields what is found before the first batch without a
partner. -/
lemma HasKeys.joinStream_eq (h : y.HasKeys s keys)
    (hschema : y.leftTypes ++ s.columns.map Prod.snd = y.schema) (hread : ExactLookup s E)
    (bs : List (List SqlRow)) : ∃ batches : List (List SqlRow),
      joinStream (y.processJoinBatch E) bs = batches.map .ok ∧
      batches.flatten.Perm ((NestedLoop.pairs (keysFound s keys) (beforeMiss s keys bs)
        s.rows).map fun p => p.1 ++ p.2) := by
  induction bs with
  | nil => exact ⟨[], rfl, .nil⟩
  | cons b bs ih =>
    obtain ⟨rows, hperm, hprocess⟩ := h.processJoinBatch_eq hread b
    simp only [joinedBatch, h.rightTable, hschema, if_true] at hprocess
    cases hpartner : b.any fun l => s.rows.any (keysFound s keys l) with
    | false =>
      rw [if_pos ((eq_nil_iff_of_perm hperm).2 hpartner)] at hprocess
      refine ⟨[], by rw [joinStream, hprocess]; rfl, ?_⟩
      rw [beforeMiss, List.takeWhile_cons, hpartner]
      exact .nil
    | true =>
      obtain ⟨batches, hstream, hbatches⟩ := ih
      have hrows : rows ≠ [] := fun hnil => by simp [(eq_nil_iff_of_perm hperm).1 hnil] at hpartner
      rw [if_neg hrows] at hprocess
      refine ⟨rows :: batches, ?_, ?_⟩
      · rw [joinStream, hprocess]
        simp only [hstream, List.map_cons]
      · rw [beforeMiss, List.takeWhile_cons, if_pos hpartner, List.flatten_cons, List.flatten_cons,
          NestedLoop.pairs_append, List.map_append]
        exact hperm.append hbatches

/-- Where the columns do not fit, the first joined row is an error. -/
lemma HasKeys.joinStream_mismatch (h : y.HasKeys s keys)
    (hschema : y.leftTypes ++ s.columns.map Prod.snd ≠ y.schema) (hread : ExactLookup s E)
    (bs : List (List SqlRow)) :
    (NestedLoop.pairs (keysFound s keys) (beforeMiss s keys bs) s.rows = [] ∧
        joinStream (y.processJoinBatch E) bs = []) ∨
      (NestedLoop.pairs (keysFound s keys) (beforeMiss s keys bs) s.rows ≠ [] ∧
        ∃ e rest, joinStream (y.processJoinBatch E) bs = .error e :: rest) := by
  cases bs with
  | nil => exact .inl ⟨rfl, rfl⟩
  | cons b bs =>
    obtain ⟨rows, hperm, hprocess⟩ := h.processJoinBatch_eq hread b
    simp only [joinedBatch, h.rightTable, hschema, if_false] at hprocess
    cases hpartner : b.any fun l => s.rows.any (keysFound s keys l) with
    | false =>
      rw [if_pos ((eq_nil_iff_of_perm hperm).2 hpartner)] at hprocess
      refine .inl ⟨?_, by rw [joinStream, hprocess]⟩
      rw [beforeMiss, List.takeWhile_cons, hpartner]
      rfl
    | true =>
      have hrows : rows ≠ [] := fun hnil => by simp [(eq_nil_iff_of_perm hperm).1 hnil] at hpartner
      rw [if_neg hrows] at hprocess
      refine .inr ⟨fun hnil => hrows ?_, _, _, by rw [joinStream, hprocess]⟩
      rw [beforeMiss, List.takeWhile_cons, if_pos hpartner, List.flatten_cons,
        NestedLoop.pairs_append, List.append_eq_nil_iff] at hnil
      rw [hnil.1] at hperm
      exact hperm.eq_nil

/-- What the stream of the node produces, as a condition on the rows that are found. -/
lemma HasKeys.produces_iff (h : y.HasKeys s keys) (hread : ExactLookup s E) (rows : List SqlRow) :
    y.Produces E rows ↔
      (((NestedLoop.pairs (keysFound s keys) (beforeMiss s keys (y.left.head?.getD [])) s.rows).map
          fun p => p.1 ++ p.2) ≠ [] → y.leftTypes ++ s.columns.map Prod.snd = y.schema) ∧
        ((NestedLoop.pairs (keysFound s keys) (beforeMiss s keys (y.left.head?.getD []))
          s.rows).map fun p => p.1 ++ p.2).Perm rows := by
  by_cases hschema : y.leftTypes ++ s.columns.map Prod.snd = y.schema
  · obtain ⟨batches, hout, hperm⟩ := h.joinStream_eq hschema hread (y.left.head?.getD [])
    refine ⟨?_, fun hrows => ⟨batches, hout, hperm.trans hrows.2⟩⟩
    rintro ⟨batches', hout', hperm'⟩
    obtain rfl : batches' = batches :=
      List.map_injective_iff.2 (fun _ _ => Except.ok.inj) (hout'.symm.trans hout)
    exact ⟨fun _ => hschema, hperm.symm.trans hperm'⟩
  · rcases h.joinStream_mismatch hschema hread (y.left.head?.getD []) with
      ⟨hnil, hout⟩ | ⟨hne, e, rest, hout⟩
    · rw [hnil]
      refine ⟨?_, fun hrows => ⟨[], hout, hrows.2⟩⟩
      rintro ⟨batches, hout', hperm⟩
      obtain rfl : batches = [] := List.map_eq_nil_iff.1 (hout'.symm.trans hout)
      exact ⟨fun hne => absurd rfl hne, hperm⟩
    · refine ⟨?_, fun hrows => absurd (hrows.1 (hne ∘ List.map_eq_nil_iff.1)) hschema⟩
      rintro ⟨batches, hout', -⟩
      have hfirst := hout'.symm.trans hout
      cases batches with
      | nil => cases hfirst
      | cons b bs => cases (List.cons.inj hfirst).1

end Batch

end BenoStreamIndexJoinExec

section Sample

/-- A table that answers lookups by filtering its rows. -/
def exactEnv (s : TableScan) : JoinEnv where
  readFilter filters :=
    .ok [s.rows.filter (s.inLists (filters.map fun f => (f.column, f.values.getD [])))]
  mismatch _ _ := ""

lemma exactLookup_exactEnv (s : TableScan) : ExactLookup s (exactEnv s) := by
  intro keys
  refine ⟨_, rfl, ?_⟩
  rw [List.map_map]
  have hkeys : keys.map ((fun f => (f.column, f.values.getD [])) ∘
      fun k => BenoStreamIndexJoinExec.lookupFilter k.1 k.2) = keys :=
    List.map_id keys
  rw [hkeys, List.flatten_singleton]

def numberRow (i : ℤ) : SqlRow := [some (.int i)]

/-- A table with the ids 1 and 2. -/
def idTable : TableScan where
  columns := [("id", .int64)]
  rows := [numberRow 1, numberRow 2]
  projection := some [0]
  row_length := by decide

/-- The join of a column of numbers, given in batches, with the ids. -/
def idJoin (batches : List (List ℤ)) : HashJoinExec where
  joinType := .inner
  leftTypes := [.int64]
  left := [batches.map fun b => b.map numberRow]
  right := .scan idTable
  on := [(fun l => l.head?.join, .column "id")]
  projection := some [0, 1]
  left_length := by
    intro bs hbs b hb l hl
    obtain rfl := List.mem_singleton.1 hbs
    obtain ⟨b, -, rfl⟩ := List.mem_map.1 hb
    obtain ⟨i, -, rfl⟩ := List.mem_map.1 hl
    rfl
  right_columns := by
    intro s hs key hkey name hname
    obtain rfl := List.mem_singleton.1 hkey
    cases hs
    cases hname
    exact List.mem_singleton_self _

/-- The index join for `idJoin`. -/
def idIndexJoin (batches : List (List ℤ)) : BenoStreamIndexJoinExec where
  leftTypes := [.int64]
  left := [batches.map fun b => b.map numberRow]
  rightTable := idTable
  leftOn := [fun l => l.head?.join]
  rightCols := ["id"]
  schema := [.int64, .int64]

end Sample

end BenoStreamDB

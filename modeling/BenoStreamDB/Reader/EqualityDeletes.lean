import BenoStreamDB.Query.Expr
import BenoStreamDB.Table.Rows

/-!
# Equality deletes

`load_equality_deletes` of `reader/delete.rs`, `check_is_in` of `reader/mod.rs` and the filter of
the scan in `reader/scan.rs`. An equality-delete file lists tuples of values of its equality
columns. It takes out the rows of the files committed before it that have one of the tuples.

The reader attaches a delete file to all data files of its partition, whenever they were committed,
applies only files with one equality column, and only if the scan has that column. Of an Avro file
it reads the values of a few types only. Where all this makes no difference the scan is exact:
`scan_eq`. It makes one in `not_scan_eq`.

The values of a row are those after the mapping to the table's schema, which the reader is given.
The cache of parsed deletes is taken to hold what the files hold: a failed read is returned, and
nothing is cached. Position deletes are the subject of `Reader.MergedDeletes`.
-/

namespace BenoStreamDB

/-! ### Tables with equality deletes -/

/-- A column of the table's schema. -/
structure TableColumn where
  id : ℤ
  name : String
  type : DataType
  deriving DecidableEq

structure DataFile where
  partitionValues : PartitionValues := ∅
  /-- The names of the columns in the file. -/
  columns : List String
  rows : List Row

inductive HistoryStep
  | append (f : DataFile)
  | delete (d : DeleteFile)

/-- The commits of a table, oldest first. -/
abbrev History := List HistoryStep

/-- The delete files of the commits. -/
def History.deletes (h : History) : List DeleteFile :=
  h.filterMap fun
    | .append _ => none
    | .delete d => some d

/-- A value of a field of an Avro record. Those of the other kinds (the temporal ones, decimals,
bytes, and a union with whatever is in it) come with their debug text. -/
inductive AvroCell where
  | null
  | boolean (b : Bool)
  | int (i : ℤ)
  | long (i : ℤ)
  | float (x : Double)
  | double (x : Double)
  | string (s : String)
  | other (text : String)

/-- What the equality-delete files hold. -/
structure EqualityStore where
  /-- The error of an attempt to read a file. -/
  failure : Path → Option String
  /-- The rows that were written to a file; a value for each equality column. -/
  tuples : Path → List (List (Option Cell))
  /-- The fields of the records of an Avro file. -/
  avro : Path → List (List (String × AvroCell)) := fun _ => []
  /-- The debug text of a value. -/
  debug : AvroCell → String := fun _ => ""

/-! ### The reader -/

/-- The values of the deletes on one column. -/
structure EqualityDelete where
  columnName : String
  values : List (Option Cell)

section Reader

variable (cast : CastFn) (schema : List TableColumn) (E : EqualityStore)

/-- The column with a field id. -/
def columnOf (id : ℤ) : Option TableColumn := schema.find? fun col => col.id = id

/-- `avro_to_arrow_array` for one value: another kind of value than that of the column is NULL, and
a value of a column of another type is its debug text. -/
def avroToArrow : DataType → AvroCell → Option Cell
  | .int32, .int i => some (.int i)
  | .int64, .long i => some (.int i)
  | .float32, .float x => some (.float x)
  | .float64, .double x => some (.float x)
  | .utf8, .string s => some (.string s)
  | .boolean, .boolean b => some (.bool b)
  | .int32, _ | .int64, _ | .float32, _ | .float64, _ | .utf8, _ | .boolean, _ => none
  | _, v => some (.string (E.debug v))

/-- `read_equality_deletes_avro`; a field that a record does not have is null. -/
def readEqualityDeletesAvro (path : Path) (columns : List TableColumn) :
    List (List (Option Cell)) :=
  (E.avro path).map fun fields => columns.map fun col =>
    avroToArrow E col.type ((fields.reverse.lookup col.name).getD .null)

/-- The values of a file that can be read. A Parquet file has those that were written. -/
def decodedTuples (path : Path) (equalityIds : List ℤ) : List (List (Option Cell)) :=
  if ".avro".toList.isSuffixOf path then
    readEqualityDeletesAvro E path (equalityIds.filterMap (columnOf schema))
  else E.tuples path

/-- `read_equality_deletes`. -/
def readEqualityDeletes (path : Path) (equalityIds : List ℤ) :
    Except String (List (List (Option Cell))) :=
  match E.failure path, equalityIds.find? fun id => (columnOf schema id).isNone with
  | some e, _ => .error e
  | none, some id => .error ("Equality Delete ID " ++ toString id ++ " not found in schema")
  | none, none => .ok (decodedTuples schema E path equalityIds)

/-- The delete on a column that a file of one equality column stands for. -/
def equalityDelete (equalityIds : List ℤ) (tuples : List (List (Option Cell))) :
    Option EqualityDelete :=
  match equalityIds with
  | [id] =>
    match columnOf schema id with
    | some col => if tuples.isEmpty then none else some ⟨col.name, tuples.map fun t => t.head?.join⟩
    | none => none
  -- "Multi-column equality deletes not yet optimized"
  | _ => none

/-- The loop of `load_equality_deletes` over the delete files of an entry. -/
def loadEqualityDeletes : List DeleteFile → Except String (List EqualityDelete)
  | [] => .ok []
  | d :: ds =>
    match d.content with
    | .equality equalityIds =>
      match readEqualityDeletes schema E d.filePath equalityIds with
      | .error e => .error ("Failed to read equality delete file " ++ String.ofList d.filePath ++
          ": " ++ e)
      | .ok tuples =>
        (loadEqualityDeletes ds).map fun rest =>
          (equalityDelete schema equalityIds tuples).toList ++ rest
    | _ => loadEqualityDeletes ds

/-- The type in which `check_is_in` compares the values of a column. -/
def comparedAs : DataType → Option DataType
  | .utf8 => some .utf8
  | .int64 | .date64 | .timestamp _ => some .int64
  | .int32 | .date32 | .time32 _ => some .int32
  | _ => none

/-- `check_is_in` for one row. A column of texts is taken as it is. -/
def checkIsIn (type : DataType) (values : List (Option Cell)) (cell : Option Cell) : Bool :=
  match comparedAs type, cell with
  | some t, some c =>
    let key := if type = .utf8 then some c else cast t c
    key.isSome && values.any fun v => v.bind (cast t) == key
  | _, _ => false

/-- Whether the batches of a scan have a column. -/
def DataFile.shows (f : DataFile) (projection : Option (List String)) (name : String) : Bool :=
  (projection.getD f.columns).contains name

/-- The mask of one delete on a column; a column that the batch does not have deletes nothing. -/
def EqualityDelete.keeps (f : DataFile) (projection : Option (List String)) (row : Row)
    (d : EqualityDelete) : Bool :=
  match schema.find? fun col => col.name = d.columnName with
  | some col => !(f.shows projection col.name && checkIsIn cast col.type d.values (row col.name))
  | none => true

/-- The mask of the scan. -/
def keepRow (f : DataFile) (projection : Option (List String)) (deletes : List EqualityDelete)
    (row : Row) : Bool :=
  deletes.all (EqualityDelete.keeps cast schema f projection row)

/-- The row of a batch. -/
def DataFile.project (f : DataFile) (projection : Option (List String)) (row : Row) : Row :=
  fun name => if f.shows projection name then row name else none

/-- The delete files of an entry: those of its partition, each path once. -/
def History.attached (h : History) (f : DataFile) : List DeleteFile :=
  (deletesOf (h.deletes.foldl pushNewDelete []) f.partitionValues).foldl pushNewDelete []

/-- A scan of one data file of the table. -/
def scan (h : History) (projection : Option (List String)) (f : DataFile) :
    Except String (List Row) :=
  (loadEqualityDeletes schema E (h.attached f)).map fun deletes =>
    (f.rows.filter (keepRow cast schema f projection deletes)).map (f.project projection)

end Reader

/-! ### What a scan should return -/

section Spec

variable (schema : List TableColumn) (E : EqualityStore)

/-- The row has the values of a tuple in all equality columns; NULL is a value like any other. -/
def matchesRow (d : DeleteFile) (row : Row) : Bool :=
  match d.content with
  | .equality equalityIds =>
    (E.tuples d.filePath).any fun tuple =>
      equalityIds.map (fun id => (columnOf schema id).map fun col => row col.name) == tuple.map some
  | _ => false

/-- The rows of a file that no delete of `later` matches. -/
def undeleted (later : History) (f : DataFile) : List Row :=
  f.rows.filter fun row => !later.deletes.any fun d => matchesRow schema E d row

/-- The reader applies the delete file to the row: it has one equality column, which the scan has
and `check_is_in` supports, and the row is not NULL there. -/
def Applicable (f : DataFile) (projection : Option (List String)) (d : DeleteFile) (row : Row) :
    Prop :=
  ∃ id col, d.content = .equality [id] ∧ columnOf schema id = some col ∧
    (comparedAs col.type).isSome ∧ f.shows projection col.name = true ∧
    (row col.name).isSome

/-- The condition for one file, between the commits `before` and `after` it. -/
structure EqualityScoped (before after : History) (projection : Option (List String))
    (f : DataFile) : Prop where
  /-- The attached files can be read, and what is read is what was written. -/
  loadable : ∀ d ∈ before.deletes ++ after.deletes, d.partitionValues = f.partitionValues →
    ∀ ids, d.content = .equality ids → E.failure d.filePath = none ∧
      (∀ id ∈ ids, (columnOf schema id).isSome) ∧
      decodedTuples schema E d.filePath ids = E.tuples d.filePath
  /-- A later delete that matches a row is attached to the file, and applied to the row. -/
  later : ∀ d ∈ after.deletes, ∀ row ∈ f.rows, matchesRow schema E d row = true →
    d.partitionValues = f.partitionValues ∧ Applicable schema f projection d row
  /-- An earlier delete that is attached to the file and matches a row is not applied to it. -/
  earlier : ∀ d ∈ before.deletes, d.partitionValues = f.partitionValues →
    ∀ row ∈ f.rows, matchesRow schema E d row = true → ¬ Applicable schema f projection d row

/-- The columns of a table have distinct ids and names, and its values the types of their
columns. -/
structure WellTyped (h : History) : Prop where
  ids : (schema.map TableColumn.id).Nodup
  names : (schema.map TableColumn.name).Nodup
  rows : ∀ f, .append f ∈ h → ∀ row ∈ f.rows, ∀ col ∈ schema, ∀ c, row col.name = some c →
    col.type.Holds c
  tuples : ∀ d ∈ h.deletes, ∀ id, d.content = .equality [id] →
    ∀ col, columnOf schema id = some col →
      ∀ tuple ∈ E.tuples d.filePath, ∃ v, tuple = [v] ∧ ∀ c, v = some c → col.type.Holds c
  paths : (h.deletes.map DeleteFile.filePath).Nodup

end Spec

/-- The conversions of `check_is_in`: a text stays, and everything else is its number. -/
structure ComparedByValue (cast : CastFn) : Prop where
  utf8 : ∀ s, cast .utf8 (.string s) = some (.string s)
  int64 : ∀ i, IsSigned 64 i → cast .int64 (.int i) = some (.int i)
  int32 : ∀ i, IsSigned 32 i → cast .int32 (.int i) = some (.int i)
  temporal64 : ∀ t i, comparedAs t = some .int64 → cast .int64 (.temporal t i) = some (.int i)
  temporal32 : ∀ t i, comparedAs t = some .int32 → cast .int32 (.temporal t i) = some (.int i)

/-! ### Membership by value -/

section Compare

variable {cast : CastFn} {t u : DataType} {c c' : Cell}

/-- What `check_is_in` compares. -/
def Cell.equalityKey : Cell → Cell
  | .temporal _ i => .int i
  | c => c

lemma ComparedByValue.cast_eq (hcast : ComparedByValue cast) (ht : comparedAs t = some u)
    (hc : t.Holds c) : cast u c = some c.equalityKey := by
  cases t <;> simp only [comparedAs, Option.some.injEq, reduceCtorEq] at ht <;> subst ht <;>
    cases c <;> simp only [DataType.Holds] at hc
  case utf8.string s => exact hcast.utf8 s
  case int32.int i => exact hcast.int32 i hc
  case int64.int i => exact hcast.int64 i hc
  case date32.temporal t i => exact hcast.temporal32 t i (hc ▸ rfl)
  case date64.temporal t i => exact hcast.temporal64 t i (hc ▸ rfl)
  case time32.temporal t i => exact hcast.temporal32 t i (hc ▸ rfl)
  case timestamp.temporal t i => exact hcast.temporal64 t i (hc ▸ rfl)

lemma equalityKey_inj (hc : t.Holds c) (hc' : t.Holds c') (h : c.equalityKey = c'.equalityKey) :
    c = c' := by
  cases c <;> cases c' <;> simp only [Cell.equalityKey, reduceCtorEq] at h ⊢ <;>
    first
      | exact h
      | (cases t <;> simp only [DataType.Holds] at hc hc' <;> simp_all)

/-- The keys of a column of texts are the texts. -/
lemma equalityKey_utf8 (hc : DataType.utf8.Holds c) : c.equalityKey = c := by
  cases c <;> simp [DataType.Holds, Cell.equalityKey] at hc ⊢

/-- On values of one supported type `check_is_in` is membership. -/
lemma checkIsIn_iff (hcast : ComparedByValue cast) (ht : (comparedAs t).isSome)
    {values : List (Option Cell)} (hc : t.Holds c) (hvalues : ∀ v, some v ∈ values → t.Holds v) :
    checkIsIn cast t values (some c) = true ↔ some c ∈ values := by
  obtain ⟨u, hu⟩ := Option.isSome_iff_exists.1 ht
  have hkey : (if t = .utf8 then some c else cast u c) = some c.equalityKey := by
    split_ifs with hutf8
    · subst hutf8
      rw [equalityKey_utf8 hc]
    · exact hcast.cast_eq hu hc
  simp only [checkIsIn, hu, hkey, Option.isSome_some, Bool.true_and, List.any_eq_true, beq_iff_eq]
  constructor
  · rintro ⟨v, hv, heq⟩
    obtain ⟨c', rfl, hcast'⟩ := Option.bind_eq_some_iff.1 heq
    have hc' : t.Holds c' := hvalues c' hv
    rw [hcast.cast_eq hu hc', Option.some.injEq] at hcast'
    exact equalityKey_inj hc' hc hcast' ▸ hv
  · intro hv
    exact ⟨some c, hv, hcast.cast_eq hu hc⟩

end Compare

/-! ### Exact scans -/

section Exact

variable {cast : CastFn} {schema : List TableColumn} {E : EqualityStore} {h : History}
  {projection : Option (List String)} {f : DataFile} {d : DeleteFile} {row : Row}

lemma mem_attached (hpaths : (h.deletes.map DeleteFile.filePath).Nodup) :
    d ∈ h.attached f ↔ d ∈ h.deletes ∧ d.partitionValues = f.partitionValues := by
  have hglobal : ∀ d, d ∈ h.deletes.foldl pushNewDelete [] ↔ d ∈ h.deletes := by
    intro d
    constructor
    · intro hd
      simpa using mem_or_mem_of_mem_pushed hd
    · intro hd
      exact mem_pushed hd (by simp) fun d' hd' => List.inj_on_of_nodup_map hpaths hd' hd
  have hlocal : ∀ d, d ∈ deletesOf (h.deletes.foldl pushNewDelete []) f.partitionValues ↔
      d ∈ h.deletes ∧ d.partitionValues = f.partitionValues := by
    intro d
    simp [deletesOf, hglobal, eq_comm]
  rw [← hlocal]
  constructor
  · intro hd
    simpa using mem_or_mem_of_mem_pushed hd
  · intro hd
    refine mem_pushed hd (by simp) fun d' hd' => ?_
    exact List.inj_on_of_nodup_map hpaths ((hlocal d').1 hd').1 ((hlocal d).1 hd).1

/-- The delete on a column that a delete file stands for. -/
def deleteOf (schema : List TableColumn) (E : EqualityStore) (d : DeleteFile) :
    Option EqualityDelete :=
  match d.content with
  | .equality equalityIds => equalityDelete schema equalityIds (E.tuples d.filePath)
  | _ => none

lemma loadEqualityDeletes_eq_ok {ds : List DeleteFile}
    (hload : ∀ d ∈ ds, ∀ ids, d.content = .equality ids →
      E.failure d.filePath = none ∧ (∀ id ∈ ids, (columnOf schema id).isSome) ∧
        decodedTuples schema E d.filePath ids = E.tuples d.filePath) :
    loadEqualityDeletes schema E ds = .ok (ds.filterMap (deleteOf schema E)) := by
  induction ds with
  | nil => rfl
  | cons d ds ih =>
    have hrest := ih fun d' hd' => hload d' (List.mem_cons_of_mem d hd')
    cases hcontent : d.content with
    | position => simp [loadEqualityDeletes, hcontent, hrest, deleteOf]
    | deletionVector p o z => simp [loadEqualityDeletes, hcontent, hrest, deleteOf]
    | equality ids =>
      obtain ⟨hread, hids, hexact⟩ := hload d List.mem_cons_self ids hcontent
      have hfind : ids.find? (fun id => (columnOf schema id).isNone) = none := by
        rw [List.find?_eq_none]
        intro id hid
        simpa [Option.isSome_iff_ne_none] using hids id hid
      simp only [loadEqualityDeletes, hcontent, readEqualityDeletes, hread, hfind, hexact, hrest,
        Except.map, List.filterMap_cons, deleteOf]
      cases equalityDelete schema ids (E.tuples d.filePath) <;> rfl

lemma columnOf_name {id : ℤ} {col : TableColumn} (hnames : (schema.map TableColumn.name).Nodup)
    (hcol : columnOf schema id = some col) :
    schema.find? (fun x => x.name = col.name) = some col := by
  have hmem : col ∈ schema := List.mem_of_find?_eq_some hcol
  obtain ⟨x, hx⟩ := Option.isSome_iff_exists.1
    (List.find?_isSome.2 ⟨col, hmem, by simp⟩ :
      (schema.find? fun x => decide (x.name = col.name)).isSome)
  have hname : x.name = col.name := by simpa using List.find?_some hx
  rw [hx, List.inj_on_of_nodup_map hnames (List.mem_of_find?_eq_some hx) hmem hname]

/-- The reader takes a row out because of a delete file. -/
def Hits (cast : CastFn) (schema : List TableColumn) (E : EqualityStore) (f : DataFile)
    (projection : Option (List String)) (d : DeleteFile) (row : Row) : Prop :=
  ∃ x, deleteOf schema E d = some x ∧ x.keeps cast schema f projection row = false

lemma keepRow_filterMap {ds : List DeleteFile} :
    keepRow cast schema f projection (ds.filterMap (deleteOf schema E)) row = true ↔
      ∀ d ∈ ds, ¬ Hits cast schema E f projection d row := by
  simp only [keepRow, List.all_eq_true, List.mem_filterMap, Hits]
  constructor
  · rintro hall d hd ⟨x, hx, hfalse⟩
    simp [hall x ⟨d, hd, hx⟩] at hfalse
  · rintro hno x ⟨d, hd, hx⟩
    by_contra hfalse
    exact hno d hd ⟨x, hx, by simpa using hfalse⟩

/-- The tuples of a file with one equality column match the rows with one of the values. -/
lemma matchesRow_single {id : ℤ} {col : TableColumn} (hcontent : d.content = .equality [id])
    (hcol : columnOf schema id = some col)
    (htuples : ∀ tuple ∈ E.tuples d.filePath,
      ∃ v, tuple = [v] ∧ ∀ c, v = some c → col.type.Holds c) :
    matchesRow schema E d row = true ↔
      row col.name ∈ (E.tuples d.filePath).map fun t => t.head?.join := by
  simp only [matchesRow, hcontent, List.any_eq_true, List.map_cons, List.map_nil, hcol,
    Option.map_some, beq_iff_eq, List.mem_map]
  refine exists_congr fun tuple => and_congr_right fun htuple => ?_
  obtain ⟨v, rfl, -⟩ := htuples tuple htuple
  simp [eq_comm]

lemma deleteOf_eq_some {x : EqualityDelete} :
    deleteOf schema E d = some x ↔ ∃ id col, d.content = .equality [id] ∧
      columnOf schema id = some col ∧ E.tuples d.filePath ≠ [] ∧
        x = ⟨col.name, (E.tuples d.filePath).map fun t => t.head?.join⟩ := by
  constructor
  · intro hx
    unfold deleteOf at hx
    split at hx
    case h_2 => cases hx
    case h_1 ids hcontent =>
      unfold equalityDelete at hx
      split at hx
      case h_2 => cases hx
      case h_1 id =>
        split at hx
        case h_2 => cases hx
        case h_1 col hcol =>
          split_ifs at hx with hempty
          exact ⟨id, col, hcontent, hcol, by simpa using hempty, (Option.some.inj hx).symm⟩
  · rintro ⟨id, col, hcontent, hcol, hne, rfl⟩
    simp [deleteOf, hcontent, equalityDelete, hcol, hne]

/-- `check_is_in` finds the rows that match and that it supports. -/
lemma checkIsIn_values {id : ℤ} {col : TableColumn} (hcast : ComparedByValue cast)
    (htyped : WellTyped schema E h) (hf : .append f ∈ h) (hrow : row ∈ f.rows)
    (hd : d ∈ h.deletes) (hcontent : d.content = .equality [id])
    (hcol : columnOf schema id = some col) :
    checkIsIn cast col.type ((E.tuples d.filePath).map fun t => t.head?.join) (row col.name) =
        true ↔
      (comparedAs col.type).isSome ∧ (row col.name).isSome ∧ matchesRow schema E d row = true := by
  have htuples := htyped.tuples d hd id hcontent col hcol
  have hvalues : ∀ v, some v ∈ (E.tuples d.filePath).map (fun t => t.head?.join) →
      col.type.Holds v := by
    intro v hv
    obtain ⟨tuple, htuple, hhead⟩ := List.mem_map.1 hv
    obtain ⟨w, rfl, hw⟩ := htuples tuple htuple
    exact hw v (by simpa using hhead)
  rw [matchesRow_single hcontent hcol htuples]
  cases hc : row col.name with
  | none => cases comparedAs col.type <;> simp [checkIsIn]
  | some c =>
    by_cases hsupported : (comparedAs col.type).isSome
    · have hholds := htyped.rows f hf row hrow col (List.mem_of_find?_eq_some hcol) c hc
      simp [checkIsIn_iff hcast hsupported hholds hvalues, hsupported]
    · have hnone := Option.not_isSome_iff_eq_none.1 hsupported
      simp [checkIsIn, hnone]

lemma hits_iff (hcast : ComparedByValue cast) (htyped : WellTyped schema E h)
    (hf : .append f ∈ h) (hrow : row ∈ f.rows) (hd : d ∈ h.deletes) :
    Hits cast schema E f projection d row ↔
      Applicable schema f projection d row ∧ matchesRow schema E d row = true := by
  constructor
  · rintro ⟨x, hx, hkeep⟩
    obtain ⟨id, col, hcontent, hcol, -, rfl⟩ := deleteOf_eq_some.1 hx
    simp only [EqualityDelete.keeps, columnOf_name htyped.names hcol, Bool.not_eq_false',
      Bool.and_eq_true, checkIsIn_values hcast htyped hf hrow hd hcontent hcol] at hkeep
    obtain ⟨hshows, hsupported, hsome, hmatch⟩ := hkeep
    exact ⟨⟨id, col, hcontent, hcol, hsupported, hshows, hsome⟩, hmatch⟩
  · rintro ⟨⟨id, col, hcontent, hcol, hsupported, hshows, hsome⟩, hmatch⟩
    have hne : E.tuples d.filePath ≠ [] := by
      intro hempty
      simp [matchesRow, hcontent, hempty] at hmatch
    refine ⟨_, deleteOf_eq_some.2 ⟨id, col, hcontent, hcol, hne, rfl⟩, ?_⟩
    simp only [EqualityDelete.keeps, columnOf_name htyped.names hcol, Bool.not_eq_false',
      Bool.and_eq_true, checkIsIn_values hcast htyped hf hrow hd hcontent hcol]
    exact ⟨hshows, hsupported, hsome, hmatch⟩

variable {before after : History}

lemma deletes_append_cons :
    (before ++ .append f :: after : History).deletes = before.deletes ++ after.deletes := by
  simp [History.deletes]

/-- A row stays iff no later delete matches it. -/
lemma keepRow_iff (hcast : ComparedByValue cast)
    (htyped : WellTyped schema E (before ++ .append f :: after))
    (hscoped : EqualityScoped schema E before after projection f) (hrow : row ∈ f.rows) :
    keepRow cast schema f projection
        (((before ++ .append f :: after).attached f).filterMap (deleteOf schema E)) row = true ↔
      ∀ d ∈ after.deletes, matchesRow schema E d row = false := by
  have hf : HistoryStep.append f ∈ (before ++ .append f :: after : History) := by simp
  rw [keepRow_filterMap]
  constructor
  · intro hno d hd
    have hmem : d ∈ (before ++ .append f :: after : History).deletes := by
      simp [deletes_append_cons, hd]
    by_contra hmatch
    rw [Bool.not_eq_false] at hmatch
    obtain ⟨hpart, happ⟩ := hscoped.later d hd row hrow hmatch
    apply hno d ((mem_attached htyped.paths).2 ⟨hmem, hpart⟩)
    exact (hits_iff hcast htyped hf hrow hmem).2 ⟨happ, hmatch⟩
  · rintro hno d hd hhits
    obtain ⟨hmem, hpart⟩ := (mem_attached htyped.paths).1 hd
    obtain ⟨happ, hmatch⟩ := (hits_iff hcast htyped hf hrow hmem).1 hhits
    rw [deletes_append_cons] at hmem
    rcases List.mem_append.1 hmem with hearlier | hlater
    · exact hscoped.earlier d hearlier hpart row hrow hmatch happ
    · simp [hno d hlater] at hmatch

/-- A scan of a file returns the rows that no equality delete committed after the file matches. -/
theorem scan_eq (hcast : ComparedByValue cast)
    (htyped : WellTyped schema E (before ++ .append f :: after))
    (hscoped : EqualityScoped schema E before after projection f) :
    scan cast schema E (before ++ .append f :: after) projection f =
      .ok ((undeleted schema E after f).map (f.project projection)) := by
  have hload : ∀ d ∈ (before ++ .append f :: after : History).attached f,
      ∀ ids, d.content = .equality ids →
        E.failure d.filePath = none ∧ (∀ id ∈ ids, (columnOf schema id).isSome) ∧
          decodedTuples schema E d.filePath ids = E.tuples d.filePath := by
    intro d hd
    obtain ⟨hmem, hpart⟩ := (mem_attached htyped.paths).1 hd
    rw [deletes_append_cons] at hmem
    exact hscoped.loadable d hmem hpart
  rw [scan, loadEqualityDeletes_eq_ok hload, Except.map, undeleted]
  refine congrArg (fun rows => Except.ok (List.map _ rows)) (List.filter_congr fun row hrow => ?_)
  rw [Bool.eq_iff_iff, keepRow_iff hcast htyped hscoped hrow]
  simp

end Exact

/-! A table with the columns `x` and `y`, a file with the rows `(1, 5)` and `(2, 6)`, and an
equality delete of `x = 1`. -/

def xySchema : List TableColumn := [⟨1, "x", .int64⟩, ⟨2, "y", .int64⟩]

def xyRow (x y : ℤ) : Row := fun name =>
  if name = "x" then some (.int x) else if name = "y" then some (.int y) else none

def xyFile : DataFile where
  columns := ["x", "y"]
  rows := [xyRow 1 5, xyRow 2 6]

def xDelete : DeleteFile where
  filePath := "d.parquet".toList
  content := .equality [1]
  fileSizeBytes := 0
  recordCount := 1
  partitionValues := ∅

lemma xDelete_content : xDelete.content = .equality [1] := rfl

def xStored : EqualityStore where
  failure _ := none
  tuples _ := [[some (.int 1)]]

/-- Conversion to the compared value. -/
def keyCast : CastFn := fun _ c => some c.equalityKey

lemma keyCast_comparedByValue : ComparedByValue keyCast where
  utf8 _ := rfl
  int64 _ _ := rfl
  int32 _ _ := rfl
  temporal64 _ _ _ := rfl
  temporal32 _ _ _ := rfl

lemma xy_wellTyped {h : History} (hfiles : ∀ f, .append f ∈ h → f = xyFile)
    (hdeletes : h.deletes = [xDelete]) : WellTyped xySchema xStored h where
  ids := by decide
  names := by decide
  rows := by
    intro f hf row hrow col hcol c hc
    obtain rfl := hfiles f hf
    have hcells : ∀ row ∈ xyFile.rows, ∀ col ∈ xySchema, ∀ c ∈ row col.name,
        ∃ i : ℤ, c = .int i ∧ IsSigned 64 i ∧ col.type = .int64 := by
      simp only [xyFile, xySchema, List.forall_mem_cons, List.not_mem_nil, false_implies,
        implies_true, and_true]
      refine ⟨⟨?_, ?_⟩, ?_, ?_⟩ <;> rintro c ⟨⟩ <;> exact ⟨_, rfl, by decide⟩
    obtain ⟨i, rfl, hi, htype⟩ := hcells row hrow col hcol c hc
    rw [htype]
    exact hi
  tuples := by
    intro d hd id hid col hcol tuple htuple
    obtain rfl : d = xDelete := by simpa [hdeletes] using hd
    obtain rfl : 1 = id := by simpa [xDelete_content] using hid
    obtain rfl : ⟨1, "x", .int64⟩ = col := by simpa [columnOf, xySchema] using hcol
    refine ⟨some (.int 1), by simpa [xStored] using htuple, ?_⟩
    rintro c ⟨⟩
    exact ⟨by decide, by decide⟩
  paths := by simp [hdeletes]

/-- The delete takes `(1, 5)` out of the file that was there before it. -/
theorem scan_xyFile :
    scan keyCast xySchema xStored ([] ++ .append xyFile :: [.delete xDelete]) none xyFile =
      .ok ((undeleted xySchema xStored [.delete xDelete] xyFile).map (xyFile.project none)) ∧
    (undeleted xySchema xStored [.delete xDelete] xyFile).length = 1 := by
  refine ⟨scan_eq keyCast_comparedByValue (xy_wellTyped (by simp) rfl) ⟨?_, ?_, ?_⟩, by decide⟩
  · intro d hd _ ids hids
    obtain rfl : d = xDelete := by simpa [History.deletes] using hd
    obtain rfl : [1] = ids := by simpa [xDelete_content] using hids
    exact ⟨rfl, by decide, rfl⟩
  · intro d hd row hrow _
    obtain rfl : d = xDelete := by simpa [History.deletes] using hd
    refine ⟨rfl, 1, ⟨1, "x", .int64⟩, rfl, rfl, rfl, rfl, ?_⟩
    have hrows : row = xyRow 1 5 ∨ row = xyRow 2 6 := by simpa [xyFile] using hrow
    rcases hrows with rfl | rfl <;> rfl
  · simp [History.deletes]

/-- The delete also takes `(1, 5)` out of a file that was appended after it, and leaves it in the
earlier file if `x` is not projected. -/
theorem not_scan_eq :
    (WellTyped xySchema xStored [.delete xDelete, .append xyFile] ∧
      scan keyCast xySchema xStored [.delete xDelete, .append xyFile] none xyFile ≠
        .ok ((undeleted xySchema xStored [] xyFile).map (xyFile.project none))) ∧
    (WellTyped xySchema xStored [.append xyFile, .delete xDelete] ∧
      scan keyCast xySchema xStored [.append xyFile, .delete xDelete] (some ["y"]) xyFile ≠
        .ok ((undeleted xySchema xStored [.delete xDelete] xyFile).map
          (xyFile.project (some ["y"])))) := by
  refine ⟨⟨xy_wellTyped (by simp) rfl, ?_⟩, xy_wellTyped (by simp) rfl, ?_⟩
  · intro h
    have hlength := congrArg (fun r => r.toOption.map List.length) h
    revert hlength
    decide
  · intro h
    have hlength := congrArg (fun r => r.toOption.map List.length) h
    revert hlength
    decide

end BenoStreamDB

import BenoStreamDB.Segment.Postings

/-!
# Building the inverted indexes of a segment

`build_indexes` is called once for each batch of a segment and `finish_indexing` packs the result
into a Puffin bundle. Texts are buffered with the offset of the batch. All other columns are written
to a file of their own for each batch, with the positions within the batch. A text column with a
JSON-path index gets a second file for each batch. `finish_indexing` collects all these files, and
nothing is left if one of them cannot be read.

The indexes of vectors and graphs have steps of their own in `finish_indexing`, of which only the
outcome matters here.
-/

namespace BenoStreamDB

/-! ### Columns -/

namespace IndexedColumn

variable (col : IndexedColumn)

/-- The column is written to a file for each batch. -/
def loose : Bool := col.arm = .sorted ∨ col.arm = .hashed

end IndexedColumn

/-- `arrow::compute::sort_to_indices`: the rows in the order of their values. -/
structure SortToIndices where
  indices : List (Option Cell) → List ℕ
  perm : ∀ values, (indices values).Perm (List.range values.length)

/-- The index of one batch of a column that is not a text. -/
def looseIndex (sort : SortToIndices) (col : IndexedColumn) (values : List (Option Cell)) :
    InvertedIndex :=
  if col.arm = .sorted then
    sortedIndex (sort.indices values) (values.map (Option.map Cell.indexKey))
  else hashedIndex (values.map (Option.map Cell.indexKey))

lemma IndexedColumn.mem_keys_of_loose {col : IndexedColumn} (h : col.loose = true) {v : Option Cell}
    {k : Cell} : k ∈ col.keys v ↔ v.map Cell.indexKey = some k := by
  rcases v with _ | c
  · simp [IndexedColumn.keys]
  · have harm : col.arm = .sorted ∨ col.arm = .hashed := by simpa [IndexedColumn.loose] using h
    rcases harm with harm | harm <;>
      simp [IndexedColumn.keys, harm, eq_comm]

/-- The rows of a key, by their positions within the batch. -/
lemma mem_rows_looseIndex {sort : SortToIndices} {col : IndexedColumn} (h : col.loose = true)
    {values : List (Option Cell)} {r : ℕ} {k : Cell} :
    r ∈ (looseIndex sort col values).rows k ↔
      ∃ i v, values[i]? = some v ∧ k ∈ col.keys v ∧ r = u32 i := by
  have hmem : r ∈ (looseIndex sort col values).rows k ↔ ∃ i < values.length,
      (values.map (Option.map Cell.indexKey))[i]?.join = some k ∧ r = u32 i := by
    unfold looseIndex
    split_ifs
    · simp only [mem_rows_sortedIndex, (sort.perm values).mem_iff, List.mem_range]
    · simp only [mem_rows_hashedIndex, List.length_map]
  rw [hmem]
  constructor
  · rintro ⟨i, hi, hk, rfl⟩
    refine ⟨i, values[i], List.getElem?_eq_getElem hi, ?_, rfl⟩
    rw [IndexedColumn.mem_keys_of_loose h]
    simpa [List.getElem?_eq_getElem hi] using hk
  · rintro ⟨i, v, hv, hk, rfl⟩
    rw [IndexedColumn.mem_keys_of_loose h] at hk
    exact ⟨i, (List.getElem?_eq_some_iff.1 hv).1, by simpa [hv] using hk, rfl⟩

/-! ### The writer -/

inductive FileKind where
  /-- `.inv.parquet` -/
  | inverted
  /-- `.jsonpath.parquet` -/
  | jsonPath
  deriving DecidableEq

def FileKind.suffix : FileKind → Path
  | .inverted => ".inv.parquet".toList
  | .jsonPath => ".jsonpath.parquet".toList

/-- What is written to a file. A JSON-path index is a function of the values, the paths and the
offset, which stand for it. -/
inductive FileContent where
  | inverted (index : InvertedIndex)
  | jsonPath (values : List (Option Cell)) (paths : List String) (offset : ℕ)
  deriving DecidableEq

namespace FileContent

def kind : FileContent → FileKind
  | inverted _ => .inverted
  | jsonPath _ _ _ => .jsonPath

def index : FileContent → InvertedIndex
  | inverted index => index
  | jsonPath _ _ _ => []

end FileContent

/-- A file `{segment}.{column}{suffix}` on the local disk: in the directory of the table, or in a
fresh staging directory if the table is remote. -/
structure StagedFile where
  staging : Option ℕ
  column : Path
  kind : FileKind
  deriving DecidableEq

abbrev Disk := Finmap fun _ : StagedFile => FileContent

/-- `HybridSegmentWriter`, as far as inverted indexes are concerned. -/
structure SegmentWriter where
  invertedData : Finmap fun _ : Path => List Posting
  generatedFiles : List StagedFile
  disk : Disk

def SegmentWriter.new : SegmentWriter := ⟨∅, [], ∅⟩

/-- One call of `build_indexes`: the columns in the order in which their tasks end, and their
values. -/
structure BatchCall where
  order : List IndexedColumn
  rows : ℕ
  values : Path → List (Option Cell)

namespace SegmentWriter

variable (sort : SortToIndices) (remote : Bool) (st : SegmentWriter)

/-- The buffered tokens of a column. -/
def buffer (name : Path) : List Posting := (st.invertedData.lookup name).getD []

/-- Write a file. The number of files so far stands for a fresh name of a staging directory. -/
def stage (column : Path) (content : FileContent) : SegmentWriter :=
  let file : StagedFile :=
    ⟨if remote then some st.generatedFiles.length else none, column, content.kind⟩
  { st with
    generatedFiles := st.generatedFiles ++ [file]
    disk := st.disk.insert file content }

/-- Append the tokens of a batch to the buffer of a column. -/
def bufferTokens (offset : ℕ) (col : IndexedColumn) (values : List (Option Cell)) :
    SegmentWriter :=
  { st with invertedData :=
      st.invertedData.insert col.name (st.buffer col.name ++ postings col.keys offset values) }

/-- `index_column` -/
def indexColumn (offset : ℕ) (col : IndexedColumn) (values : List (Option Cell)) : SegmentWriter :=
  if col.arm = .text then
    if col.jsonPaths = [] then st.bufferTokens offset col values
    else (st.bufferTokens offset col values).stage remote col.name
      (.jsonPath values col.jsonPaths offset)
  else if col.loose then st.stage remote col.name (.inverted (looseIndex sort col values))
  else st

/-- `build_indexes` -/
def buildIndexes (offset : ℕ) (b : BatchCall) : SegmentWriter :=
  b.order.foldl (fun st col => st.indexColumn sort remote offset col (b.values col.name)) st

/-- The calls for the batches of a segment; the offset is the number of rows before the batch. -/
def buildAll : SegmentWriter → ℕ → List BatchCall → SegmentWriter
  | st, _, [] => st
  | st, offset, b :: bs => buildAll (st.buildIndexes sort remote offset b) (offset + b.rows) bs

end SegmentWriter

/-- `s.split('.').nth(1)` -/
def secondPart (s : Path) : Option Path :=
  match s.dropWhile (· ≠ '.') with
  | [] => none
  | _ :: rest => some (rest.takeWhile (· ≠ '.'))

/-- The column for which a file is registered, as it is read off the name of the file. -/
def registeredName (segmentId column : Path) (kind : FileKind) : Path :=
  (secondPart (segmentId ++ '.' :: column ++ kind.suffix)).getD "unknown".toList

/-- The loop over the files of one kind: each is read, packed and removed. It leaves the other files
on the disk. -/
def packLoose (segmentId : Path) :
    List StagedFile → Disk → Except String (List (Path × FileContent) × Disk)
  | [], disk => .ok ([], disk)
  | f :: fs, disk =>
    match disk.lookup f with
    | none => .error "No such file or directory"
    | some content => do
      let (rest, disk) ← packLoose segmentId fs (disk.erase f)
      .ok ((registeredName segmentId f.column f.kind, content) :: rest, disk)

/-- The lexical indexes of a Puffin bundle: those of texts, the other inverted ones in their order,
and the JSON-path indexes. -/
structure PuffinBundle where
  text : Finmap fun _ : Path => List Posting
  loose : List (Path × FileContent)
  jsonPaths : List (Path × FileContent)

/-- `finish_indexing`; `others` is the outcome of the steps for vectors and graphs. -/
def SegmentWriter.finishIndexing (segmentId : Path) (others : Except String Unit)
    (st : SegmentWriter) : Except String PuffinBundle := do
  others
  let (loose, disk) ← packLoose segmentId
    (st.generatedFiles.filter (·.kind = .inverted)) st.disk
  let (jsonPaths, _) ← packLoose segmentId (st.generatedFiles.filter (·.kind = .jsonPath)) disk
  .ok ⟨st.invertedData, loose, jsonPaths⟩

/-- The index that a reader finds for a column: the first one of that name. -/
def PuffinBundle.indexOf (bundle : PuffinBundle) (name : Path) : InvertedIndex :=
  ((bundle.text.lookup name).map textIndex |>.or
    ((bundle.loose.find? (·.1 == name)).map fun blob => blob.2.index)).getD []

/-! ### The files -/

/-- A column of which `build_indexes` writes a file for each batch. -/
def IndexedColumn.staged (col : IndexedColumn) : Bool :=
  col.loose ∨ col.arm = .text ∧ col.jsonPaths ≠ []

/-- A file that a call of `build_indexes` writes. -/
structure FileWrite where
  column : Path
  content : FileContent

def IndexedColumn.fileWrite (sort : SortToIndices) (offset : ℕ) (col : IndexedColumn)
    (values : List (Option Cell)) : FileWrite where
  column := col.name
  content := if col.loose then .inverted (looseIndex sort col values)
    else .jsonPath values col.jsonPaths offset

def BatchCall.fileWrites (sort : SortToIndices) (offset : ℕ) (b : BatchCall) : List FileWrite :=
  (b.order.filter IndexedColumn.staged).map fun col =>
    col.fileWrite sort offset (b.values col.name)

/-- The files of all calls for a segment. -/
def allWrites (sort : SortToIndices) : ℕ → List BatchCall → List FileWrite
  | _, [] => []
  | offset, b :: bs => b.fileWrites sort offset ++ allWrites sort (offset + b.rows) bs

/-- An inverted file that a call of `build_indexes` writes: the column and its values in the
batch. -/
abbrev LooseWrite := IndexedColumn × List (Option Cell)

def BatchCall.looseWrites (b : BatchCall) : List LooseWrite :=
  (b.order.filter IndexedColumn.loose).map fun col => (col, b.values col.name)

def looseFile (sort : SortToIndices) (w : LooseWrite) : FileWrite :=
  ⟨w.1.name, .inverted (looseIndex sort w.1 w.2)⟩

lemma filter_fileWrites (sort : SortToIndices) (offset : ℕ) (b : BatchCall) :
    (b.fileWrites sort offset).filter (·.content.kind = .inverted) =
      b.looseWrites.map (looseFile sort) := by
  rw [BatchCall.fileWrites, BatchCall.looseWrites, List.map_map]
  induction b.order with
  | nil => rfl
  | cons col cols ih =>
    cases hloose : col.loose with
    | true =>
      have hstaged : col.staged = true := by simp [IndexedColumn.staged, hloose]
      simpa [hloose, hstaged, IndexedColumn.fileWrite, FileContent.kind, looseFile] using ih
    | false =>
      cases hstaged : col.staged <;>
        simpa [hloose, hstaged, IndexedColumn.fileWrite, FileContent.kind] using ih

/-- The inverted files of a segment do not depend on the offsets. -/
lemma filter_allWrites (sort : SortToIndices) (offset : ℕ) (bs : List BatchCall) :
    (allWrites sort offset bs).filter (·.content.kind = .inverted) =
      (bs.flatMap BatchCall.looseWrites).map (looseFile sort) := by
  induction bs generalizing offset with
  | nil => rfl
  | cons b bs ih =>
    rw [allWrites, List.filter_append, filter_fileWrites, ih, List.flatMap_cons, List.map_append]

/-- The files of a sequence of writes, with their contents. -/
def staged (remote : Bool) (ws : List FileWrite) : List (StagedFile × FileContent) :=
  ws.zipIdx.map fun wi =>
    (⟨if remote then some wi.2 else none, wi.1.column, wi.1.content.kind⟩, wi.1.content)

lemma staged_append_singleton (remote : Bool) (ws : List FileWrite) (w : FileWrite) :
    staged remote (ws ++ [w]) = staged remote ws ++
      [(⟨if remote then some ws.length else none, w.column, w.content.kind⟩, w.content)] := by
  simp [staged, List.zipIdx_append]

namespace SegmentWriter

variable {sort : SortToIndices} {remote : Bool} {st : SegmentWriter} {ws : List FileWrite}

/-- The files of the writer are those of the writes so far. -/
structure Stages (remote : Bool) (st : SegmentWriter) (ws : List FileWrite) : Prop where
  files : st.generatedFiles = (BenoStreamDB.staged remote ws).map Prod.fst
  disk : st.disk = (BenoStreamDB.staged remote ws).foldl (fun m fi => m.insert fi.1 fi.2) ∅

lemma stages_new (remote : Bool) : SegmentWriter.new.Stages remote [] := ⟨rfl, rfl⟩

lemma Stages.stage (h : st.Stages remote ws) (w : FileWrite) :
    (st.stage remote w.column w.content).Stages remote (ws ++ [w]) := by
  have hlen : (BenoStreamDB.staged remote ws).length = ws.length := by simp [BenoStreamDB.staged]
  constructor <;> simp [SegmentWriter.stage, h.files, h.disk, hlen, staged_append_singleton]

lemma Stages.indexColumn (h : st.Stages remote ws) (offset : ℕ) (col : IndexedColumn)
    (values : List (Option Cell)) :
    (st.indexColumn sort remote offset col values).Stages remote
      (ws ++ if col.staged then [col.fileWrite sort offset values] else []) := by
  rw [SegmentWriter.indexColumn]
  by_cases htext : col.arm = .text
  · have hloose : col.loose = false := by simp [IndexedColumn.loose, htext]
    have hbuffered : (st.bufferTokens offset col values).Stages remote ws := ⟨h.files, h.disk⟩
    rw [if_pos htext]
    by_cases hpaths : col.jsonPaths = []
    · have hstaged : col.staged = false := by simp [IndexedColumn.staged, hloose, hpaths]
      simpa [hpaths, hstaged] using hbuffered
    · have hstaged : col.staged = true := by simp [IndexedColumn.staged, htext, hpaths]
      have hstage := hbuffered.stage (col.fileWrite sort offset values)
      simpa [hpaths, hstaged, IndexedColumn.fileWrite, hloose] using hstage
  · rw [if_neg htext]
    cases hloose : col.loose with
    | false =>
      have hstaged : col.staged = false := by simp [IndexedColumn.staged, hloose, htext]
      simpa [hstaged] using h
    | true =>
      have hstaged : col.staged = true := by simp [IndexedColumn.staged, hloose]
      have hstage := h.stage (col.fileWrite sort offset values)
      simpa [hstaged, IndexedColumn.fileWrite, hloose] using hstage

lemma Stages.buildIndexes (h : st.Stages remote ws) (offset : ℕ) (b : BatchCall) :
    (st.buildIndexes sort remote offset b).Stages remote (ws ++ b.fileWrites sort offset) := by
  unfold SegmentWriter.buildIndexes BatchCall.fileWrites
  induction b.order generalizing st ws with
  | nil => simpa using h
  | cons col cols ih =>
    rw [List.foldl_cons]
    have hcol : (st.indexColumn sort remote offset col (b.values col.name)).Stages remote _ :=
      h.indexColumn offset col (b.values col.name)
    have hcols := ih hcol
    cases hstaged : col.staged <;> simpa [hstaged] using hcols

lemma Stages.buildAll (h : st.Stages remote ws) (offset : ℕ) (bs : List BatchCall) :
    (SegmentWriter.buildAll sort remote st offset bs).Stages remote
      (ws ++ allWrites sort offset bs) := by
  induction bs generalizing st ws offset with
  | nil => simpa [SegmentWriter.buildAll, allWrites] using h
  | cons b bs ih =>
    rw [SegmentWriter.buildAll, allWrites, ← List.append_assoc]
    exact ih (h.buildIndexes offset b) _

/-! #### Texts -/

variable {offset : ℕ} {name : Path}

lemma invertedData_indexColumn {col : IndexedColumn} {values : List (Option Cell)}
    (htext : col.arm = .text) :
    (st.indexColumn sort remote offset col values).invertedData =
      st.invertedData.insert col.name (st.buffer col.name ++ postings col.keys offset values) := by
  rw [SegmentWriter.indexColumn, if_pos htext]
  by_cases hpaths : col.jsonPaths = [] <;>
    simp [hpaths, SegmentWriter.stage, SegmentWriter.bufferTokens]

lemma lookup_indexColumn_of_ne {col : IndexedColumn} {values : List (Option Cell)}
    (h : col.arm = .text → col.name ≠ name) :
    (st.indexColumn sort remote offset col values).invertedData.lookup name =
      st.invertedData.lookup name := by
  by_cases htext : col.arm = .text
  · rw [invertedData_indexColumn htext]
    exact Finmap.lookup_insert_of_ne _ (h htext).symm
  · cases hloose : col.loose <;>
      simp [SegmentWriter.indexColumn, htext, hloose, SegmentWriter.stage]

/-- Other columns leave the buffer of a column as it is. -/
lemma lookup_foldl_of_ne {cols : List IndexedColumn} {values : Path → List (Option Cell)}
    (h : ∀ c ∈ cols, c.arm = .text → c.name ≠ name) :
    (cols.foldl (fun st c => st.indexColumn sort remote offset c (values c.name))
      st).invertedData.lookup name = st.invertedData.lookup name := by
  induction cols generalizing st with
  | nil => rfl
  | cons c cols ih =>
    rw [List.foldl_cons, ih fun c hc => h c (List.mem_cons_of_mem _ hc),
      lookup_indexColumn_of_ne (h c List.mem_cons_self)]

/-- A call appends the tokens of its rows. -/
lemma lookup_buildIndexes {b : BatchCall} {col : IndexedColumn}
    (hnodup : (b.order.map IndexedColumn.name).Nodup) (hcol : col ∈ b.order)
    (htext : col.arm = .text) :
    (st.buildIndexes sort remote offset b).invertedData.lookup col.name =
      some (st.buffer col.name ++ postings col.keys offset (b.values col.name)) := by
  unfold SegmentWriter.buildIndexes
  generalize b.order = order at hnodup hcol ⊢
  induction order generalizing st with
  | nil => simp at hcol
  | cons c cols ih =>
    rw [List.map_cons, List.nodup_cons] at hnodup
    rw [List.foldl_cons]
    rcases List.mem_cons.1 hcol with rfl | hcol
    · rw [lookup_foldl_of_ne]
      · rw [invertedData_indexColumn htext]
        exact Finmap.lookup_insert _
      · intro c' hc' _ heq
        exact hnodup.1 (heq ▸ List.mem_map_of_mem hc')
    · have hne : c.name ≠ col.name := fun heq => hnodup.1 (heq ▸ List.mem_map_of_mem hcol)
      rw [ih hnodup.2 hcol, SegmentWriter.buffer, SegmentWriter.buffer,
        lookup_indexColumn_of_ne fun _ => hne]

/-- The calls leave the tokens of all rows, numbered through the segment. -/
lemma lookup_buildAll {bs : List BatchCall} {col : IndexedColumn} (htext : col.arm = .text)
    (hnodup : ∀ b ∈ bs, (b.order.map IndexedColumn.name).Nodup) (hcol : ∀ b ∈ bs, col ∈ b.order)
    (hrows : ∀ b ∈ bs, (b.values col.name).length = b.rows) (hne : bs ≠ []) :
    (SegmentWriter.buildAll sort remote st offset bs).invertedData.lookup col.name =
      some (st.buffer col.name ++
        postings col.keys offset (bs.flatMap fun b => b.values col.name)) := by
  induction bs generalizing st offset with
  | nil => exact absurd rfl hne
  | cons b bs ih =>
    have hb : (st.buildIndexes sort remote offset b).invertedData.lookup col.name = _ :=
      lookup_buildIndexes (hnodup b List.mem_cons_self) (hcol b List.mem_cons_self) htext
    rw [SegmentWriter.buildAll, List.flatMap_cons, postings_append, hrows b List.mem_cons_self]
    cases bs with
    | nil => simpa [SegmentWriter.buildAll, postings] using hb
    | cons b' bs =>
      rw [ih (fun d hd => hnodup d (List.mem_cons_of_mem _ hd))
        (fun d hd => hcol d (List.mem_cons_of_mem _ hd))
        (fun d hd => hrows d (List.mem_cons_of_mem _ hd)) (List.cons_ne_nil _ _),
        SegmentWriter.buffer, hb, Option.getD_some, List.append_assoc]

/-- A column that is not a text has no buffer. -/
lemma lookup_buildAll_of_ne {bs : List BatchCall}
    (h : ∀ b ∈ bs, ∀ c ∈ b.order, c.arm = .text → c.name ≠ name) :
    (SegmentWriter.buildAll sort remote st offset bs).invertedData.lookup name =
      st.invertedData.lookup name := by
  induction bs generalizing st offset with
  | nil => rfl
  | cons b bs ih =>
    rw [SegmentWriter.buildAll, ih fun d hd => h d (List.mem_cons_of_mem _ hd)]
    exact lookup_foldl_of_ne (h b List.mem_cons_self)

end SegmentWriter

/-! ### Packing -/

section Packing

variable (segmentId : Path) (disk : Disk)

lemma packLoose_eq_ok {xs : List (StagedFile × FileContent)} (hnodup : (xs.map Prod.fst).Nodup)
    (hlookup : ∀ x ∈ xs, disk.lookup x.1 = some x.2) :
    ∃ disk', packLoose segmentId (xs.map Prod.fst) disk =
        .ok (xs.map fun x => (registeredName segmentId x.1.column x.1.kind, x.2), disk') ∧
      ∀ f ∉ xs.map Prod.fst, disk'.lookup f = disk.lookup f := by
  induction xs generalizing disk with
  | nil => exact ⟨disk, rfl, fun _ _ => rfl⟩
  | cons x xs ih =>
    rw [List.map_cons, List.nodup_cons] at hnodup
    have hrest : ∀ y ∈ xs, (disk.erase x.1).lookup y.1 = some y.2 := by
      intro y hy
      have hne : y.1 ≠ x.1 := fun heq => hnodup.1 (heq ▸ List.mem_map_of_mem hy)
      rw [Finmap.lookup_erase_ne hne]
      exact hlookup y (List.mem_cons_of_mem _ hy)
    obtain ⟨disk', hpack, hkept⟩ := ih (disk.erase x.1) hnodup.2 hrest
    refine ⟨disk', ?_, fun f hf => ?_⟩
    · simp [packLoose, hlookup x List.mem_cons_self, hpack, bind, Except.bind]
    · rw [List.map_cons, List.mem_cons, not_or] at hf
      rw [hkept f hf.2, Finmap.lookup_erase_ne hf.1]

variable {segmentId disk} in
/-- The loop fails at its first file or at a later one. -/
lemma packLoose_cons_error {f : StagedFile} {fs : List StagedFile} (h : disk.lookup f ≠ none →
      ∃ msg, packLoose segmentId fs (disk.erase f) = .error msg) :
    ∃ msg, packLoose segmentId (f :: fs) disk = .error msg := by
  cases hf : disk.lookup f with
  | none => exact ⟨"No such file or directory", by simp [packLoose, hf]⟩
  | some content =>
    obtain ⟨msg, hmsg⟩ := h (by simp [hf])
    exact ⟨msg, by simp [packLoose, hf, hmsg, bind, Except.bind]⟩

/-- A file that is not there stops the loop. -/
lemma packLoose_error_of_missing {fs : List StagedFile} {f : StagedFile} (hf : f ∈ fs)
    (hmissing : disk.lookup f = none) : ∃ msg, packLoose segmentId fs disk = .error msg := by
  induction fs generalizing disk with
  | nil => simp at hf
  | cons g fs ih =>
    refine packLoose_cons_error fun hg => ?_
    have hne : f ≠ g := by
      rintro rfl
      exact hg hmissing
    refine ih _ ((List.mem_cons.1 hf).resolve_left hne) ?_
    rw [Finmap.lookup_erase_ne hne, hmissing]

/-- A file that is listed twice is removed before it is read again. -/
lemma packLoose_error_of_not_nodup {fs : List StagedFile} (h : ¬ fs.Nodup) :
    ∃ msg, packLoose segmentId fs disk = .error msg := by
  induction fs generalizing disk with
  | nil => simp at h
  | cons g fs ih =>
    refine packLoose_cons_error fun _ => ?_
    by_cases hmem : g ∈ fs
    · exact packLoose_error_of_missing _ _ hmem (Finmap.lookup_erase _ _)
    · exact ih _ fun hnodup => h (List.nodup_cons.2 ⟨hmem, hnodup⟩)

/-- The steps for vectors and graphs go through, and no file of either kind is listed twice, if
there is a bundle. -/
lemma SegmentWriter.nodup_of_finishIndexing {st : SegmentWriter} {others : Except String Unit}
    {bundle : PuffinBundle} (h : st.finishIndexing segmentId others = .ok bundle) :
    others = .ok () ∧ ∀ kind : FileKind, (st.generatedFiles.filter (·.kind = kind)).Nodup := by
  cases others with
  | error e => simp [finishIndexing, bind, Except.bind] at h
  | ok _ =>
    refine ⟨rfl, fun kind => ?_⟩
    by_contra hdup
    rw [finishIndexing] at h
    cases kind with
    | inverted =>
      obtain ⟨msg, hmsg⟩ := packLoose_error_of_not_nodup segmentId st.disk hdup
      simp [hmsg, bind, Except.bind] at h
    | jsonPath =>
      cases hloose : packLoose segmentId (st.generatedFiles.filter (·.kind = .inverted))
          st.disk with
      | error e => simp [hloose, bind, Except.bind] at h
      | ok packed =>
        obtain ⟨msg, hmsg⟩ := packLoose_error_of_not_nodup segmentId packed.2 hdup
        simp [hloose, hmsg, bind, Except.bind] at h

lemma nodup_staged_remote (ws : List FileWrite) : ((staged true ws).map Prod.fst).Nodup := by
  apply List.Nodup.of_map StagedFile.staging
  have hdirs : ((staged true ws).map Prod.fst).map StagedFile.staging =
      (ws.zipIdx.map Prod.snd).map some := by
    rw [staged, List.map_map, List.map_map, List.map_map]
    rfl
  rw [hdirs, List.zipIdx_map_snd]
  exact List.Nodup.map (Option.some_injective _) List.nodup_range'

/-- The local file of a write. -/
def FileWrite.localFile (w : FileWrite) : StagedFile := ⟨none, w.column, w.content.kind⟩

lemma map_fst_staged_local (ws : List FileWrite) :
    (staged false ws).map Prod.fst = ws.map FileWrite.localFile := by
  rw [staged, List.map_map]
  conv_rhs => rw [← List.zipIdx_map_fst 0 ws, List.map_map]
  rfl

/-- The bundle has the files of a kind in the order of their writes. -/
lemma map_filter_staged (remote : Bool) (ws : List FileWrite) (kind : FileKind) :
    ((staged remote ws).filter (·.1.kind = kind)).map
        (fun x => (registeredName segmentId x.1.column x.1.kind, x.2)) =
      (ws.filter (·.content.kind = kind)).map
        fun w => (registeredName segmentId w.column w.content.kind, w.content) := by
  rw [staged, List.filter_map, List.map_map]
  conv_rhs => rw [← List.zipIdx_map_fst 0 ws, List.filter_map, List.map_map]
  rfl

end Packing

/-! ### Runs -/

/-- The calls of `build_indexes` for a segment. Each batch has all columns, with one value for each
row, and no more rows than `u32` can number. -/
structure IndexRun where
  columns : List IndexedColumn
  batches : List BatchCall
  distinct : (columns.map IndexedColumn.name).Nodup
  order : ∀ b ∈ batches, b.order.Perm columns
  rows : ∀ b ∈ batches, b.rows ≤ 2 ^ 32
  values : ∀ b ∈ batches, ∀ col ∈ columns, (b.values col.name).length = b.rows
  /-- The outcome of the steps of `finish_indexing` for vectors and graphs. -/
  others : Except String Unit := .ok ()

namespace IndexRun

variable (run : IndexRun)

/-- The values of a column in the whole segment. -/
def column (name : Path) : List (Option Cell) := run.batches.flatMap fun b => b.values name

/-- The values of a column in the first batch. -/
def firstValues (name : Path) : List (Option Cell) :=
  (run.batches.head?.map fun b => b.values name).getD []

/-- The writer after all calls. -/
def written (sort : SortToIndices) (remote : Bool) : SegmentWriter :=
  SegmentWriter.buildAll sort remote .new 0 run.batches

/-- Row `i` of the segment has the value or token `k` in the column. -/
def HasKey (col : IndexedColumn) (k : Cell) (i : ℕ) : Prop :=
  ∃ v, (run.column col.name)[i]? = some v ∧ k ∈ col.keys v

/-- The index that the reader finds for the column has exactly the rows of each key. -/
def ExactIndex (sort : SortToIndices) (remote : Bool) (segmentId : Path) (col : IndexedColumn) :
    Prop :=
  ∃ bundle, (run.written sort remote).finishIndexing segmentId run.others = .ok bundle ∧
    ∀ k i, i ∈ (bundle.indexOf col.name).rows k ↔ run.HasKey col k i

/-- The keys of a row of the first batch in the column whose file is the first that is registered
under the name. -/
def registeredKeys (segmentId name : Path) (i : ℕ) : List Cell :=
  match run.batches.head? with
  | none => []
  | some b =>
    match (b.order.filter IndexedColumn.loose).find?
        (fun col => registeredName segmentId col.name .inverted == name) with
    | none => []
    | some col => ((b.values col.name)[i]?.map col.keys).getD []

/-- No file is written twice: the table is remote, or there is one batch, or no indexed column is
written to a file for each batch. -/
def WritesOnce (remote : Bool) : Prop :=
  remote = true ∨ run.batches.length ≤ 1 ∨ ∀ c ∈ run.columns, c.staged = false

/-- The batches of the run do not matter for the index of the column. -/
structure Indexable (remote : Bool) (segmentId : Path) (col : IndexedColumn) : Prop where
  /-- The vector and graph indexes of the segment are built. -/
  others : run.others = .ok ()
  once : run.WritesOnce remote
  /-- `u32` numbers the rows of a text column that have tokens. -/
  text : col.arm = .text → ∀ i v, (run.column col.name)[i]? = some v →
    col.keys v ≠ [] → i < 2 ^ 32
  /-- In another column, only rows of the first batch have values. -/
  first : col.loose = true → ∀ i v, (run.column col.name)[i]? = some v → col.keys v ≠ [] →
    i < (run.firstValues col.name).length
  /-- The first file that is registered under its name is the one of the column, or has the same
  values. -/
  registered : col.loose = true → ∀ i v, (run.firstValues col.name)[i]? = some v →
    ∀ k, k ∈ run.registeredKeys segmentId col.name i ↔ k ∈ col.keys v

/-! #### The bundle -/

variable {run} {sort : SortToIndices} {remote : Bool} {segmentId : Path} {col : IndexedColumn}

/-- The inverted files that the run writes, in order. -/
def looseWrites (run : IndexRun) : List LooseWrite := run.batches.flatMap BatchCall.looseWrites

/-- The inverted files as the bundle has them. -/
def looseBlobs (run : IndexRun) (sort : SortToIndices) (segmentId : Path) :
    List (Path × FileContent) :=
  run.looseWrites.map fun w =>
    (registeredName segmentId w.1.name .inverted, .inverted (looseIndex sort w.1 w.2))

/-- The files that the run writes, in order. -/
def writes (run : IndexRun) (sort : SortToIndices) : List FileWrite :=
  allWrites sort 0 run.batches

lemma stages_written : (run.written sort remote).Stages remote (run.writes sort) := by
  have h : (run.written sort remote).Stages remote _ :=
    (SegmentWriter.stages_new remote).buildAll 0 run.batches
  rwa [List.nil_append] at h

lemma nodup_order {b : BatchCall} (hb : b ∈ run.batches) :
    (b.order.map IndexedColumn.name).Nodup :=
  ((run.order b hb).map IndexedColumn.name).nodup_iff.2 run.distinct

/-- A batch writes no file twice. -/
lemma nodup_fileWrites {b : BatchCall} (hb : b ∈ run.batches) (offset : ℕ) :
    ((b.fileWrites sort offset).map FileWrite.localFile).Nodup := by
  apply List.Nodup.of_map StagedFile.column
  rw [BatchCall.fileWrites, List.map_map, List.map_map]
  exact (nodup_order hb).sublist (List.filter_sublist.map IndexedColumn.name)

lemma allWrites_eq_nil {bs : List BatchCall} (h : ∀ b ∈ bs, ∀ c ∈ b.order, c.staged = false)
    (offset : ℕ) : allWrites sort offset bs = [] := by
  induction bs generalizing offset with
  | nil => rfl
  | cons b bs ih =>
    have hnil : b.fileWrites sort offset = [] := by
      rw [BatchCall.fileWrites, List.map_eq_nil_iff, List.filter_eq_nil_iff]
      intro c hc
      simp [h b List.mem_cons_self c hc]
    rw [allWrites, hnil, ih fun d hd => h d (List.mem_cons_of_mem b hd), List.nil_append]

/-- The files of a run that writes each file once are all different. -/
lemma WritesOnce.nodup_staged (h : run.WritesOnce remote) (sort : SortToIndices) :
    ((staged remote (run.writes sort)).map Prod.fst).Nodup := by
  cases remote with
  | true => exact nodup_staged_remote _
  | false =>
    rw [map_fst_staged_local]
    rcases h with h | h | h
    · simp at h
    · cases hbs : run.batches with
      | nil => simp [writes, hbs, allWrites]
      | cons b bs =>
        obtain rfl : bs = [] := by
          rw [hbs, List.length_cons] at h
          exact List.eq_nil_of_length_eq_zero (by omega)
        simpa [writes, hbs, allWrites] using
          @nodup_fileWrites run sort b (by simp [hbs]) 0
    · rw [writes, allWrites_eq_nil fun b hb c hc => h c ((run.order b hb).mem_iff.1 hc)]
      exact List.nodup_nil

/-- The loop over the files of one kind packs them, on a disk that has them. -/
lemma packLoose_staged {ws : List FileWrite} (hnodup : ((staged remote ws).map Prod.fst).Nodup)
    (segmentId : Path) (kind : FileKind) {disk : Disk}
    (hdisk : ∀ x ∈ staged remote ws, x.1.kind = kind → disk.lookup x.1 = some x.2) :
    ∃ disk', packLoose segmentId (((staged remote ws).map Prod.fst).filter (·.kind = kind)) disk =
        .ok ((ws.filter (·.content.kind = kind)).map
          fun w => (registeredName segmentId w.column w.content.kind, w.content), disk') ∧
      ∀ f, f.kind ≠ kind → disk'.lookup f = disk.lookup f := by
  obtain ⟨disk', hpack, hkept⟩ := packLoose_eq_ok segmentId disk
    (hnodup.sublist ((List.filter_sublist (p := (·.1.kind = kind))).map Prod.fst))
    fun x hx => hdisk x (List.mem_filter.1 hx).1 (by simpa using (List.mem_filter.1 hx).2)
  rw [map_filter_staged] at hpack
  refine ⟨disk', ?_, fun f hf => hkept f fun hmem => hf ?_⟩
  · rw [List.filter_map]
    exact hpack
  · obtain ⟨x, hx, rfl⟩ := List.mem_map.1 hmem
    simpa using (List.mem_filter.1 hx).2

lemma finishIndexing_eq_ok (sort : SortToIndices) (segmentId : Path)
    (hothers : run.others = .ok ()) (h : run.WritesOnce remote) :
    ∃ jsonPaths, (run.written sort remote).finishIndexing segmentId run.others =
      .ok ⟨(run.written sort remote).invertedData, run.looseBlobs sort segmentId, jsonPaths⟩ := by
  have hst : (run.written sort remote).Stages remote (run.writes sort) := stages_written
  have hnodup := h.nodup_staged sort
  have hdisk : ∀ x ∈ staged remote (run.writes sort),
      (run.written sort remote).disk.lookup x.1 = some x.2 := by
    intro x hx
    rw [hst.disk]
    exact KeyedMap.lookup_foldl_insert Prod.snd hnodup hx ∅
  obtain ⟨disk, hloose, hkept⟩ := packLoose_staged hnodup segmentId .inverted
    fun x hx _ => hdisk x hx
  have hdisk' : ∀ x ∈ staged remote (run.writes sort), x.1.kind = .jsonPath →
      disk.lookup x.1 = some x.2 := by
    intro x hx hkind
    rw [hkept x.1 (by simp [hkind]), hdisk x hx]
  obtain ⟨disk', hjson, -⟩ := packLoose_staged hnodup segmentId .jsonPath hdisk'
  have hblobs : ((run.writes sort).filter (·.content.kind = .inverted)).map
      (fun w => (registeredName segmentId w.column w.content.kind, w.content)) =
        run.looseBlobs sort segmentId := by
    rw [writes, filter_allWrites, List.map_map]
    rfl
  refine ⟨((run.writes sort).filter (·.content.kind = .jsonPath)).map
    fun w => (registeredName segmentId w.column w.content.kind, w.content), ?_⟩
  rw [SegmentWriter.finishIndexing, hothers, hst.files, hloose, hblobs]
  simp only [bind, Except.bind, hjson]

/-- There is a bundle only if every file is written once: on a local disk the second batch
overwrites the file of the first, and the file is then packed twice. -/
lemma writesOnce_of_eq_ok {bundle : PuffinBundle}
    (h : (run.written sort remote).finishIndexing segmentId run.others = .ok bundle) :
    run.others = .ok () ∧ run.WritesOnce remote := by
  obtain ⟨hothers, hnodup⟩ := SegmentWriter.nodup_of_finishIndexing segmentId h
  refine ⟨hothers, ?_⟩
  by_contra hcon
  simp only [WritesOnce, not_or, Bool.not_eq_true, not_le, not_forall] at hcon
  obtain ⟨rfl, hbatches, c, hc, hstaged⟩ := hcon
  have hst : (run.written sort false).Stages false (run.writes sort) := stages_written
  let kind := (c.fileWrite sort 0 []).content.kind
  have hmem : ∀ b ∈ run.batches, ∀ offset, (⟨none, c.name, kind⟩ : StagedFile) ∈
      ((b.fileWrites sort offset).map FileWrite.localFile).filter (·.kind = kind) := by
    intro b hb offset
    refine List.mem_filter.2 ⟨List.mem_map.2 ⟨c.fileWrite sort offset (b.values c.name),
      List.mem_map_of_mem (List.mem_filter.2 ⟨(run.order b hb).mem_iff.2 hc, by
        simpa using hstaged⟩), ?_⟩, by simp⟩
    cases hloose : c.loose <;>
      simp [FileWrite.localFile, kind, IndexedColumn.fileWrite, hloose, FileContent.kind]
  have hkind := hnodup kind
  rw [hst.files, map_fst_staged_local, writes] at hkind
  cases hbs : run.batches with
  | nil => simp [hbs] at hbatches
  | cons b bs =>
    cases bs with
    | nil => simp [hbs] at hbatches
    | cons b' bs =>
      rw [hbs, allWrites, allWrites, List.map_append, List.map_append, List.filter_append,
        List.filter_append, List.nodup_append] at hkind
      exact hkind.2.2 _ (hmem b (by simp [hbs]) _) _
        (List.mem_append_left _ (hmem b' (by simp [hbs]) _)) rfl

/-! #### The index of a column -/

/-- The index of a text column has all its tokens. -/
lemma mem_rows_text {jsonPaths : List (Path × FileContent)} (hcol : col ∈ run.columns)
    (htext : col.arm = .text) {k : Cell} {i : ℕ} :
    i ∈ ((PuffinBundle.mk (run.written sort remote).invertedData (run.looseBlobs sort segmentId)
        jsonPaths).indexOf col.name).rows k ↔
      ∃ j v, (run.column col.name)[j]? = some v ∧ k ∈ col.keys v ∧ i = u32 j := by
  have hindex : (PuffinBundle.mk (run.written sort remote).invertedData
      (run.looseBlobs sort segmentId) jsonPaths).indexOf col.name =
        textIndex (postings col.keys 0 (run.column col.name)) := by
    by_cases hbs : run.batches = []
    · simp [PuffinBundle.indexOf, written, column, hbs, looseBlobs, looseWrites,
        SegmentWriter.buildAll, SegmentWriter.new, postings, textIndex]
    · have hlookup : (run.written sort remote).invertedData.lookup col.name =
          some (SegmentWriter.new.buffer col.name ++ postings col.keys 0 (run.column col.name)) :=
        SegmentWriter.lookup_buildAll htext (fun b hb => nodup_order hb)
          (fun b hb => (run.order b hb).mem_iff.2 hcol) (fun b hb => run.values b hb col hcol) hbs
      simp [PuffinBundle.indexOf, hlookup, SegmentWriter.new, SegmentWriter.buffer]
  rw [hindex, mem_rows_textIndex fun p hp => row_lt_of_mem_postings hp, exists_posting_iff]
  simp only [Nat.zero_add]

/-- All batches have the same columns, so the first write under a name is one of the first batch. -/
lemma find?_looseWrites {b : BatchCall} {bs : List BatchCall} (hbs : run.batches = b :: bs)
    (p : IndexedColumn → Bool) :
    run.looseWrites.find? (fun w => p w.1) =
      ((b.order.filter IndexedColumn.loose).find? p).map fun c => (c, b.values c.name) := by
  have hfirst : b.looseWrites.find? (fun w => p w.1) =
      ((b.order.filter IndexedColumn.loose).find? p).map fun c => (c, b.values c.name) := by
    rw [BatchCall.looseWrites, List.find?_map]
    rfl
  rw [looseWrites, hbs, List.flatMap_cons, List.find?_append, hfirst]
  cases hfind : (b.order.filter IndexedColumn.loose).find? p with
  | some c => rfl
  | none =>
    rw [Option.map_none, Option.none_or, List.find?_eq_none]
    intro w hw
    obtain ⟨d, hd, hw⟩ := List.mem_flatMap.1 hw
    obtain ⟨c, hc, rfl⟩ := List.mem_map.1 hw
    obtain ⟨hc, hcl⟩ := List.mem_filter.1 hc
    have hmem : c ∈ b.order := by
      rw [(run.order b (by simp [hbs])).mem_iff, ← (run.order d (by simp [hbs, hd])).mem_iff]
      exact hc
    exact List.find?_eq_none.1 hfind c (List.mem_filter.2 ⟨hmem, hcl⟩)

/-- The index of another column has the keys of the first batch, in the column whose file is
registered first. -/
lemma mem_rows_loose {jsonPaths : List (Path × FileContent)} (hcol : col ∈ run.columns)
    (hl : col.loose = true) {k : Cell} {i : ℕ} :
    i ∈ ((PuffinBundle.mk (run.written sort remote).invertedData (run.looseBlobs sort segmentId)
        jsonPaths).indexOf col.name).rows k ↔ k ∈ run.registeredKeys segmentId col.name i := by
  have hnone : (run.written sort remote).invertedData.lookup col.name = none := by
    refine SegmentWriter.lookup_buildAll_of_ne ?_
    intro b hb c hc htext heq
    have hc' : c ∈ run.columns := (run.order b hb).mem_iff.1 hc
    obtain rfl : c = col := List.inj_on_of_nodup_map run.distinct hc' hcol heq
    simp [IndexedColumn.loose, htext] at hl
  rw [PuffinBundle.indexOf, hnone, Option.map_none, Option.none_or, looseBlobs, List.find?_map]
  cases hbs : run.batches with
  | nil => simp [looseWrites, hbs, registeredKeys, InvertedIndex.rows]
  | cons b bs =>
    have hfirst := find?_looseWrites hbs fun c =>
      registeredName segmentId c.name .inverted == col.name
    simp only [Function.comp_def, hfirst, registeredKeys, hbs, List.head?_cons]
    cases hfind : (b.order.filter IndexedColumn.loose).find?
        (fun c => registeredName segmentId c.name .inverted == col.name) with
    | none => simp [InvertedIndex.rows]
    | some c =>
      have hb : b ∈ run.batches := by simp [hbs]
      obtain ⟨hc, hcl⟩ := List.mem_filter.1 (List.mem_of_find?_eq_some hfind)
      have hlen := run.values b hb c ((run.order b hb).mem_iff.1 hc)
      simp only [Option.map_some, Option.getD_some, FileContent.index, mem_rows_looseIndex hcl]
      constructor
      · rintro ⟨j, v, hv, hk, rfl⟩
        have hj : j < b.rows := hlen ▸ (List.getElem?_eq_some_iff.1 hv).1
        rw [u32_of_lt (hj.trans_le (run.rows b hb))]
        simpa [hv] using hk
      · intro hk
        cases hv : (b.values c.name)[i]? with
        | none => simp [hv] at hk
        | some v =>
          have hi : i < b.rows := hlen ▸ (List.getElem?_eq_some_iff.1 hv).1
          exact ⟨i, v, hv, by simpa [hv] using hk, (u32_of_lt (hi.trans_le (run.rows b hb))).symm⟩

lemma lt_of_mem_registeredKeys (hcol : col ∈ run.columns) {k : Cell} {i : ℕ}
    (hk : k ∈ run.registeredKeys segmentId col.name i) :
    i < (run.firstValues col.name).length := by
  cases hbs : run.batches with
  | nil => simp [registeredKeys, hbs] at hk
  | cons b bs =>
    have hb : b ∈ run.batches := by simp [hbs]
    simp only [registeredKeys, hbs, List.head?_cons] at hk
    cases hfind : (b.order.filter IndexedColumn.loose).find?
        (fun c => registeredName segmentId c.name .inverted == col.name) with
    | none => simp [hfind] at hk
    | some c =>
      have hc : c ∈ run.columns :=
        (run.order b hb).mem_iff.1 (List.mem_filter.1 (List.mem_of_find?_eq_some hfind)).1
      cases hv : (b.values c.name)[i]? with
      | none => simp [hfind, hv] at hk
      | some v =>
        have hi : i < (b.values c.name).length := (List.getElem?_eq_some_iff.1 hv).1
        rw [run.values b hb c hc, ← run.values b hb col hcol] at hi
        simpa [firstValues, hbs] using hi

/-- The first batch has the first rows of the segment. -/
lemma column_getElem?_of_lt {name : Path} {i : ℕ} (hi : i < (run.firstValues name).length) :
    (run.column name)[i]? = (run.firstValues name)[i]? := by
  cases hbs : run.batches with
  | nil => simp [firstValues, hbs] at hi
  | cons b bs =>
    simp only [firstValues, hbs, List.head?_cons, Option.map_some, Option.getD_some] at hi ⊢
    rw [column, hbs, List.flatMap_cons, List.getElem?_append_left hi]

/-- The rows of a text column are exact as long as `u32` numbers them. -/
lemma forall_u32_iff : (∀ k i, (∃ j v, (run.column col.name)[j]? = some v ∧ k ∈ col.keys v ∧
      i = u32 j) ↔ run.HasKey col k i) ↔
    ∀ i v, (run.column col.name)[i]? = some v → col.keys v ≠ [] → i < 2 ^ 32 := by
  constructor
  · intro h i v hv hkeys
    obtain ⟨k, hk⟩ := List.exists_mem_of_ne_nil _ hkeys
    obtain ⟨j, -, -, -, rfl⟩ := (h k i).2 ⟨v, hv, hk⟩
    exact u32_lt j
  · intro h k i
    constructor
    · rintro ⟨j, v, hv, hk, rfl⟩
      rw [u32_of_lt (h j v hv (List.ne_nil_of_mem hk))]
      exact ⟨v, hv, hk⟩
    · rintro ⟨v, hv, hk⟩
      exact ⟨i, v, hv, hk, (u32_of_lt (h i v hv (List.ne_nil_of_mem hk))).symm⟩

/-- The rows of the first batch are exact as long as no other batch has values and the file is
found under the name of the column. -/
lemma forall_registeredKeys_iff (hcol : col ∈ run.columns) :
    (∀ k i, k ∈ run.registeredKeys segmentId col.name i ↔ run.HasKey col k i) ↔
    (∀ i v, (run.column col.name)[i]? = some v → col.keys v ≠ [] →
      i < (run.firstValues col.name).length) ∧
    ∀ i v, (run.firstValues col.name)[i]? = some v →
      ∀ k, k ∈ run.registeredKeys segmentId col.name i ↔ k ∈ col.keys v := by
  constructor
  · intro h
    constructor
    · intro i v hv hkeys
      obtain ⟨k, hk⟩ := List.exists_mem_of_ne_nil _ hkeys
      exact lt_of_mem_registeredKeys hcol ((h k i).2 ⟨v, hv, hk⟩)
    · intro i v hv k
      have hi := (List.getElem?_eq_some_iff.1 hv).1
      simp [h, HasKey, column_getElem?_of_lt hi, hv]
  · rintro ⟨hfirst, hregistered⟩ k i
    by_cases hi : i < (run.firstValues col.name).length
    · rw [hregistered i _ (List.getElem?_eq_getElem hi) k, HasKey, column_getElem?_of_lt hi]
      simp [List.getElem?_eq_getElem hi]
    · constructor
      · exact fun hk => absurd (lt_of_mem_registeredKeys hcol hk) hi
      · rintro ⟨v, hv, hk⟩
        exact absurd (hfirst i v hv (List.ne_nil_of_mem hk)) hi

/-- The decoded index of a column is exact, no matter how its rows are split into batches, as far
as `Indexable` goes: a column that is not a text is indexed for the first batch only, and on a local
disk a second batch makes `finish_indexing` fail if a column is written to files. -/
theorem exactIndex_iff (sort : SortToIndices) (remote : Bool) (segmentId : Path) (run : IndexRun)
    {col : IndexedColumn} (hcol : col ∈ run.columns) (hsupported : col.arm ≠ .skipped) :
    run.ExactIndex sort remote segmentId col ↔ run.Indexable remote segmentId col := by
  by_cases hfinishes : run.others = .ok () ∧ run.WritesOnce remote
  · obtain ⟨hothers, honce⟩ := hfinishes
    obtain ⟨jsonPaths, hok⟩ := finishIndexing_eq_ok sort segmentId hothers honce
    by_cases htext : col.arm = .text
    · have hloose : ¬ col.loose = true := by simp [IndexedColumn.loose, htext]
      simp only [ExactIndex, hok, Except.ok.injEq, exists_eq_left', mem_rows_text hcol htext,
        forall_u32_iff]
      exact ⟨fun h => ⟨hothers, honce, fun _ => h, fun h => absurd h hloose, fun h =>
        absurd h hloose⟩, fun h => h.text htext⟩
    · have hloose : col.loose = true := by
        cases harm : col.arm <;> simp_all [IndexedColumn.loose]
      simp only [ExactIndex, hok, Except.ok.injEq, exists_eq_left', mem_rows_loose hcol hloose]
      rw [forall_registeredKeys_iff hcol]
      exact ⟨fun h => ⟨hothers, honce, fun h' => absurd h' htext, fun _ => h.1, fun _ => h.2⟩,
        fun h => ⟨h.first hloose, h.registered hloose⟩⟩
  · constructor
    · rintro ⟨bundle, hbundle, -⟩
      exact absurd (writesOnce_of_eq_ok hbundle) hfinishes
    · exact fun h => absurd ⟨h.others, h.once⟩ hfinishes

/-- A run over one column, with one value for each batch. -/
def ofValues (col : IndexedColumn) (values : List Cell) : IndexRun where
  columns := [col]
  batches := values.map fun c => ⟨[col], 1, fun _ => [some c]⟩
  distinct := List.nodup_singleton _
  order := by simp +contextual
  rows := by simp +contextual
  values := by simp +contextual

/-- A sort that leaves the rows in their order. -/
def unsorted : SortToIndices := ⟨fun values => List.range values.length, fun _ => .refl _⟩

/-- A text column whose values are their only tokens. -/
def notesColumn : IndexedColumn where
  name := "notes".toList
  type := .utf8
  tokenizer s := [s]

def idColumn : IndexedColumn where
  name := "id".toList
  type := .int32
  tokenizer _ := []

/-- Two batches of a text column. -/
theorem exactIndex_notes : (ofValues notesColumn [.string "red", .string "blue"]).ExactIndex
    unsorted false "seg".toList notesColumn := by
  refine (exactIndex_iff _ _ _ _ (by simp [ofValues]) (by decide)).2 ⟨rfl, ?_, ?_, ?_, ?_⟩
  · exact .inr (.inr (by simp [ofValues]; decide))
  · intro _ i v hv _
    have hi : i < 2 := (List.getElem?_eq_some_iff.1 hv).1
    omega
  · intro h
    exact absurd h (by decide)
  · intro h
    exact absurd h (by decide)

/-- Two batches of an integer column: with a remote table the second row is not in the index, and
with a local one there is no index. -/
theorem not_exactIndex_ids :
    ¬ (ofValues idColumn [.int 7, .int 9]).ExactIndex unsorted true "seg".toList idColumn ∧
      ¬ (ofValues idColumn [.int 7, .int 9]).ExactIndex unsorted false "seg".toList idColumn := by
  constructor
  · rintro ⟨bundle, hbundle, hrows⟩
    obtain ⟨jsonPaths, hok⟩ := @finishIndexing_eq_ok (ofValues idColumn [.int 7, .int 9]) true
      unsorted "seg".toList rfl (.inl rfl)
    rw [hok, Except.ok.injEq] at hbundle
    have h := hrows (.int 9) 1
    rw [← hbundle, mem_rows_loose (by simp [ofValues]) (by decide)] at h
    have hkey := h.2 ⟨some (.int 9), rfl, by decide⟩
    revert hkey
    decide
  · rintro ⟨bundle, hbundle, hrows⟩
    rcases (writesOnce_of_eq_ok hbundle).2 with h | h | h
    · exact absurd h (by decide)
    · exact absurd h (by decide)
    · exact absurd (h _ List.mem_cons_self) (by decide)

end IndexRun

end BenoStreamDB

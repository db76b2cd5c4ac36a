import BenoStreamDB.Query.Values
import Mathlib.Data.Finmap
import Mathlib.Data.List.Sort
import Mathlib.Data.Multiset.AddSub

/-!
# Replay and compaction of the write-ahead log

`replay` and `compact` of `wal.rs`. A file of the log is an Arrow stream: it has one schema, whose
metadata has the tag of a transaction, and a list of batches. Replay reads all files in the order of
their names.

Compaction writes the rows of all batches as one batch with the schema of the first one over the
log's own file, and then removes the other files one by one. A replay after it, or after a crash
between two of its steps, gives the same rows under the same tags exactly if nothing is written, or
all rows are in the log's own file and the first batch has the tag and the columns of that file:
`taggedRows_compactStates_iff`.

The temporary file of a compaction has another extension and is not read. Locks and metrics are left
out.
-/

namespace BenoStreamDB

/-! ### Batches -/

structure WalRecordHeader where
  txId : ℕ
  sequenceNumber : ℕ
  deriving DecidableEq

structure WalColumn where
  name : String
  type : DataType
  deriving DecidableEq

structure WalSchema where
  columns : List WalColumn
  metadata : Finmap fun _ : String => String

/-- A batch has a value for each column in every row. -/
structure WalBatch where
  schema : WalSchema
  rows : List (List (Option Cell))
  length_of_mem : ∀ row ∈ rows, row.length = schema.columns.length

/-- Texts of UUIDs and numbers, and `concat_batches` of Arrow: the schemas of the batches are
ignored, but each must have the columns of the given one. -/
structure WalLib where
  showUuid : ℕ → String
  parseUuid : String → Option ℕ
  showU64 : ℕ → String
  parseU64 : String → Option ℕ
  concatBatches : WalSchema → List WalBatch → Except String WalBatch
  schema_concatBatches : ∀ {schema bs b}, concatBatches schema bs = .ok b → b.schema = schema
  rows_concatBatches : ∀ {schema bs b}, concatBatches schema bs = .ok b →
    b.rows = bs.flatMap fun x => x.rows.map (List.take schema.columns.length)

/-- `tag_batch_with_wal_tx` -/
def WalSchema.tag (lib : WalLib) (schema : WalSchema) (txId seq : ℕ) : WalSchema :=
  { schema with
    metadata := (schema.metadata.insert "benostream:tx_id" (lib.showUuid txId)).insert
      "benostream:seq" (lib.showU64 seq) }

/-- `extract_wal_tx` -/
def WalSchema.extractWalTx (lib : WalLib) (schema : WalSchema) : Option WalRecordHeader := do
  let txIdStr ← schema.metadata.lookup "benostream:tx_id"
  let seqStr ← schema.metadata.lookup "benostream:seq"
  let txId ← lib.parseUuid txIdStr
  let sequenceNumber ← lib.parseU64 seqStr
  return ⟨txId, sequenceNumber⟩

/-- A row with the names and types of its columns, and the tag of its batch. -/
abbrev TaggedRow := Option WalRecordHeader × List (WalColumn × Option Cell)

def WalBatch.taggedRows (lib : WalLib) (b : WalBatch) : List TaggedRow :=
  b.rows.map fun row => (b.schema.extractWalTx lib, b.schema.columns.zip row)

/-! ### Files -/

/-- A stream has one schema. -/
structure WalStream where
  schema : WalSchema
  batches : List WalBatch
  schema_of_mem : ∀ b ∈ batches, b.schema = schema

inductive WalContent where
  | empty
  | stream (s : WalStream)
  /-- A file that is not read to its end. -/
  | damaged (msg : String)

/-- A file with the extension `arrow`. -/
structure LogFile where
  name : List Char
  content : WalContent

structure WalDir where
  files : List LogFile
  nodup : (files.map LogFile.name).Nodup

def LogFile.read (f : LogFile) : Except String (List WalBatch) :=
  match f.content with
  | .empty => .ok []
  | .stream s => .ok s.batches
  | .damaged msg => .error msg

/-- The batches of a file that can be read. -/
def LogFile.batches (f : LogFile) : List WalBatch := f.read.toOption.getD []

def readFiles : List LogFile → Except String (List WalBatch)
  | [] => .ok []
  | f :: fs => do
    let bs ← f.read
    let rest ← readFiles fs
    return bs ++ rest

namespace WalDir

/-- `replay` -/
def replay (dir : WalDir) : Except String (List WalBatch) :=
  readFiles (dir.files.insertionSort fun f g => f.name ≤ g.name)

/-- What a replay returns. -/
def taggedRows (lib : WalLib) (dir : WalDir) : Except String (Multiset TaggedRow) :=
  dir.replay.map fun bs => (bs.flatMap (WalBatch.taggedRows lib) : List TaggedRow)

def remove (dir : WalDir) (name : List Char) : WalDir where
  files := dir.files.filter (·.name ≠ name)
  nodup := dir.nodup.sublist (List.filter_sublist.map _)

/-- `rename` of a temporary file with one batch. -/
def replace (dir : WalDir) (name : List Char) (b : WalBatch) : WalDir where
  files := ⟨name, .stream ⟨b.schema, [b], by simp⟩⟩ :: (dir.remove name).files
  nodup := by
    rw [List.map_cons, List.nodup_cons]
    refine ⟨?_, (dir.remove name).nodup⟩
    simp [remove]

/-- The directories that the removals of some files go through. -/
def removals (dir : WalDir) : List (List Char) → List WalDir
  | [] => [dir]
  | name :: names => dir :: (dir.remove name).removals names

/-- The directories that `compact` goes through; `stale` are the other files in the order in which
`read_dir` lists them. If a file operation fails, compaction ends at that point. -/
def compactStates (lib : WalLib) (dir : WalDir) (path : List Char) (stale : List (List Char)) :
    List WalDir :=
  match dir.replay with
  | .error _ => [dir]
  | .ok [] => [dir]
  | .ok (first :: batches) =>
    if batches = [] then [dir]
    else
      match lib.concatBatches first.schema (first :: batches) with
      | .error _ => [dir]
      | .ok consolidated => dir :: (dir.replace path consolidated).removals stale

/-- The condition: compaction writes nothing, or all rows are in the log's own file and the first
batch has the tag and the columns of all batches with rows. -/
def CompactSafe (lib : WalLib) (dir : WalDir) (path : List Char) : Prop :=
  ∀ first batches c, dir.replay = .ok (first :: batches) → batches ≠ [] →
    lib.concatBatches first.schema (first :: batches) = .ok c →
    (∀ f ∈ dir.files, f.name ≠ path → ∀ b ∈ f.batches, b.rows = []) ∧
    ∀ b ∈ first :: batches, b.rows ≠ [] →
      b.schema.extractWalTx lib = first.schema.extractWalTx lib ∧
        b.schema.columns = first.schema.columns

end WalDir

/-! ### Reading -/

lemma readFiles_of_forall {fs : List LogFile} (h : ∀ f ∈ fs, f.read = .ok f.batches) :
    readFiles fs = .ok (fs.flatMap LogFile.batches) := by
  induction fs with
  | nil => rfl
  | cons f fs ih =>
    rw [readFiles, h f (by simp), ih fun g hg => h g (by simp [hg])]
    rfl

lemma LogFile.read_eq_ok {f : LogFile} {bs : List WalBatch} (h : f.read = .ok bs) :
    f.read = .ok f.batches := by
  rw [batches, h]
  rfl

lemma read_of_readFiles {fs : List LogFile} {bs : List WalBatch} (h : readFiles fs = .ok bs) :
    ∀ f ∈ fs, f.read = .ok f.batches := by
  induction fs generalizing bs with
  | nil => simp
  | cons f fs ih =>
    cases hf : f.read with
    | error msg => simp [readFiles, hf, bind, Except.bind] at h
    | ok bs₁ =>
      cases hfs : readFiles fs with
      | error msg => simp [readFiles, hf, hfs, bind, Except.bind] at h
      | ok bs₂ =>
        intro g hg
        rcases List.mem_cons.1 hg with rfl | hg
        · exact LogFile.read_eq_ok hf
        · exact ih hfs g hg

/-- The tagged rows of some files that can be read. -/
def fileRows (lib : WalLib) (fs : List LogFile) : List TaggedRow :=
  (fs.flatMap LogFile.batches).flatMap (WalBatch.taggedRows lib)

section Rows

variable {lib : WalLib} {fs gs : List LogFile}

@[simp]
lemma fileRows_cons (f : LogFile) (fs : List LogFile) :
    fileRows lib (f :: fs) = f.batches.flatMap (WalBatch.taggedRows lib) ++ fileRows lib fs := by
  simp [fileRows]

lemma fileRows_perm (h : fs.Perm gs) : (fileRows lib fs).Perm (fileRows lib gs) :=
  (h.flatMap_right _).flatMap_right _

lemma fileRows_eq_nil (h : ∀ f ∈ fs, ∀ b ∈ f.batches, b.rows = []) : fileRows lib fs = [] := by
  rw [fileRows, List.flatMap_eq_nil_iff]
  intro b hb
  obtain ⟨f, hf, hb⟩ := List.mem_flatMap.1 hb
  rw [WalBatch.taggedRows, h f hf b hb, List.map_nil]

lemma rows_eq_nil_of_fileRows (h : fileRows lib fs = []) :
    ∀ f ∈ fs, ∀ b ∈ f.batches, b.rows = [] := by
  intro f hf b hb
  have hb := List.flatMap_eq_nil_iff.1 h b (List.mem_flatMap.2 ⟨f, hf, hb⟩)
  exact List.map_eq_nil_iff.1 hb

end Rows

namespace WalDir

variable {lib : WalLib} {dir : WalDir} {path : List Char}

lemma taggedRows_of_read (h : ∀ f ∈ dir.files, f.read = .ok f.batches) :
    dir.taggedRows lib = .ok (fileRows lib dir.files : Multiset TaggedRow) := by
  have hperm := List.perm_insertionSort (fun f g : LogFile => f.name ≤ g.name) dir.files
  rw [taggedRows, replay, readFiles_of_forall fun f hf => h f (hperm.mem_iff.1 hf)]
  exact congrArg Except.ok (Multiset.coe_eq_coe.2 (fileRows_perm hperm))

/-- The files that are left after some removals. -/
lemma files_of_mem_removals {dir' : WalDir} {names : List (List Char)}
    (h : dir' ∈ dir.removals names) :
    ∃ removed ⊆ names, dir'.files = dir.files.filter fun f => !removed.contains f.name := by
  induction names generalizing dir with
  | nil =>
    obtain rfl := List.mem_singleton.1 h
    exact ⟨[], by simp, by simp⟩
  | cons name names ih =>
    rcases List.mem_cons.1 h with rfl | h
    · exact ⟨[], by simp, by simp⟩
    · obtain ⟨removed, hsub, hfiles⟩ := ih h
      refine ⟨name :: removed, List.cons_subset_cons _ hsub, ?_⟩
      rw [hfiles, remove, List.filter_filter]
      refine List.filter_congr fun f _ => ?_
      by_cases hname : f.name = name <;> simp [hname]

/-- The batches of a replay are those of the files. -/
lemma read_of_replay {bs : List WalBatch} (h : dir.replay = .ok bs) :
    (∀ f ∈ dir.files, f.read = .ok f.batches) ∧ bs.Perm (dir.files.flatMap LogFile.batches) := by
  have hperm := List.perm_insertionSort (fun f g : LogFile => f.name ≤ g.name) dir.files
  have hread : ∀ f ∈ dir.files, f.read = .ok f.batches :=
    fun f hf => read_of_readFiles h f (hperm.mem_iff.2 hf)
  refine ⟨hread, ?_⟩
  rw [replay, readFiles_of_forall fun f hf => hread f (hperm.mem_iff.1 hf)] at h
  obtain rfl := Except.ok.inj h
  exact hperm.flatMap_right _

lemma self_mem_removals {names : List (List Char)} : dir ∈ dir.removals names := by
  cases names <;> simp [removals]

/-! ### Compaction -/

section Compaction

variable {first c : WalBatch} {batches : List WalBatch}

/-- The files next to the log's own one. -/
lemma files_replace (b : WalBatch) :
    (dir.replace path b).files =
      ⟨path, .stream ⟨b.schema, [b], by simp⟩⟩ :: dir.files.filter (·.name ≠ path) := rfl

lemma read_replace (hread : ∀ f ∈ dir.files, f.read = .ok f.batches) (b : WalBatch) :
    ∀ f ∈ (dir.replace path b).files, f.read = .ok f.batches := by
  intro f hf
  rcases List.mem_cons.1 hf with rfl | hf
  · rfl
  · exact hread f (List.mem_of_mem_filter hf)

/-- The new file and the files that are not removed yet. -/
lemma taggedRows_of_mem_removals (lib : WalLib) (hread : ∀ f ∈ dir.files, f.read = .ok f.batches)
    {stale : List (List Char)} (hstale : stale.Perm ((dir.remove path).files.map LogFile.name))
    {dir' : WalDir} (h : dir' ∈ (dir.replace path c).removals stale) :
    ∃ left ⊆ dir.files.filter (·.name ≠ path), dir'.taggedRows lib =
      .ok ((c.taggedRows lib ++ fileRows lib left : List TaggedRow) : Multiset TaggedRow) := by
  obtain ⟨removed, hsub, hfiles⟩ := files_of_mem_removals h
  have hown : removed.contains path = false := by
    rw [← Bool.not_eq_true, List.contains_iff_mem]
    intro hmem
    obtain ⟨f, hf, hname⟩ := List.mem_map.1 (hstale.mem_iff.1 (hsub hmem))
    simpa [hname] using (List.mem_filter.1 hf).2
  rw [files_replace, List.filter_cons_of_pos (by simpa using hown)] at hfiles
  refine ⟨(dir.files.filter (·.name ≠ path)).filter fun f => !removed.contains f.name,
    List.filter_subset_self _, ?_⟩
  rw [taggedRows_of_read, hfiles, fileRows_cons]
  · congr 2
    simp [LogFile.batches, LogFile.read, Except.toOption]
  · intro f hf
    rw [hfiles] at hf
    rcases List.mem_cons.1 hf with rfl | hf
    · rfl
    · exact hread f (List.mem_of_mem_filter (List.mem_of_mem_filter hf))

/-- No row is lost or doubled in the new file. -/
lemma length_taggedRows_concat (hreplay : dir.replay = .ok (first :: batches))
    (hc : lib.concatBatches first.schema (first :: batches) = .ok c) :
    (c.taggedRows lib).length = (fileRows lib dir.files).length := by
  have hlength : ∀ bs : List WalBatch,
      (bs.flatMap fun x => x.rows.map (List.take first.schema.columns.length)).length =
        (bs.flatMap (WalBatch.taggedRows lib)).length := by
    intro bs
    simp [List.length_flatMap, WalBatch.taggedRows]
  rw [WalBatch.taggedRows, List.length_map, lib.rows_concatBatches hc, hlength, fileRows]
  exact ((read_of_replay hreplay).2.flatMap_right _).length_eq

/-- If the batches with rows have the tag and the columns of the first one, the new file has their
rows. -/
lemma taggedRows_concat (hc : lib.concatBatches first.schema (first :: batches) = .ok c)
    (halike : ∀ b ∈ first :: batches, b.rows ≠ [] →
      b.schema.extractWalTx lib = first.schema.extractWalTx lib ∧
        b.schema.columns = first.schema.columns) :
    c.taggedRows lib = (first :: batches).flatMap (WalBatch.taggedRows lib) := by
  rw [WalBatch.taggedRows, lib.rows_concatBatches hc, lib.schema_concatBatches hc, List.map_flatMap]
  refine List.flatMap_congr fun b hb => ?_
  by_cases hrows : b.rows = []
  · simp [WalBatch.taggedRows, hrows]
  · obtain ⟨htx, hcolumns⟩ := halike b hb hrows
    rw [WalBatch.taggedRows, List.map_map]
    refine List.map_congr_left fun row hrow => ?_
    have hlength : row.length ≤ first.schema.columns.length :=
      (hcolumns ▸ b.length_of_mem row hrow).le
    rw [Function.comp_apply, List.take_of_length_le hlength, htx, hcolumns]

/-- A new file with the rows of a file has its tag and its columns. -/
lemma alike_of_taggedRows_mem {b : WalBatch} (hc : c.schema = first.schema)
    (hsub : b.taggedRows lib ⊆ c.taggedRows lib) (hrows : b.rows ≠ []) :
    b.schema.extractWalTx lib = first.schema.extractWalTx lib ∧
      b.schema.columns = first.schema.columns := by
  obtain ⟨row, hrow⟩ := List.exists_mem_of_ne_nil _ hrows
  have hmem : (b.schema.extractWalTx lib, b.schema.columns.zip row) ∈ c.taggedRows lib :=
    hsub (List.mem_map_of_mem hrow)
  obtain ⟨row', hrow', heq⟩ := List.mem_map.1 hmem
  obtain ⟨htx, hzip⟩ := Prod.mk.inj heq
  rw [hc] at htx hzip
  refine ⟨htx.symm, ?_⟩
  have hfst := congrArg (List.map Prod.fst) hzip
  rw [List.map_fst_zip (hc ▸ c.length_of_mem row' hrow').ge,
    List.map_fst_zip (b.length_of_mem row hrow).ge] at hfst
  exact hfst.symm

/-- Compaction that writes a new file is invisible exactly if all rows are in the log's own file and
the first batch is like the others. -/
lemma invisible_iff (path : List Char) (hreplay : dir.replay = .ok (first :: batches))
    (hc : lib.concatBatches first.schema (first :: batches) = .ok c) :
    (∀ stale : List (List Char), stale.Perm ((dir.remove path).files.map LogFile.name) →
      ∀ dir' ∈ (dir.replace path c).removals stale, dir'.taggedRows lib = dir.taggedRows lib) ↔
    (∀ f ∈ dir.files, f.name ≠ path → ∀ b ∈ f.batches, b.rows = []) ∧
      ∀ b ∈ first :: batches, b.rows ≠ [] →
        b.schema.extractWalTx lib = first.schema.extractWalTx lib ∧
          b.schema.columns = first.schema.columns := by
  obtain ⟨hread, hperm⟩ := read_of_replay hreplay
  have hrows : dir.taggedRows lib = .ok (fileRows lib dir.files : Multiset TaggedRow) :=
    taggedRows_of_read hread
  constructor
  · intro h
    -- the crash right after the new file is in place: the other files are still there
    have hcrash := h _ (.refl _) _ self_mem_removals
    rw [taggedRows_of_read (read_replace hread c), hrows, files_replace, fileRows_cons] at hcrash
    have hsame : (c.taggedRows lib ++ fileRows lib (dir.files.filter (·.name ≠ path))).Perm
        (fileRows lib dir.files) := by
      simpa [LogFile.batches, LogFile.read, Except.toOption] using hcrash
    have hnil : fileRows lib (dir.files.filter (·.name ≠ path)) = [] := by
      have hlength := hsame.length_eq
      rw [List.length_append, length_taggedRows_concat hreplay hc] at hlength
      exact List.length_eq_zero_iff.1 (by omega)
    rw [hnil, List.append_nil] at hsame
    refine ⟨fun f hf hname => ?_, fun b hb hne => ?_⟩
    · exact rows_eq_nil_of_fileRows hnil f (List.mem_filter.2 ⟨hf, by simpa using hname⟩)
    · refine alike_of_taggedRows_mem (lib.schema_concatBatches hc) (fun x hx => ?_) hne
      exact hsame.mem_iff.2 (List.mem_flatMap.2 ⟨b, hperm.mem_iff.1 hb, hx⟩)
  · rintro ⟨hquiet, halike⟩ stale hstale dir' hdir'
    obtain ⟨left, hleft, hdir'⟩ := taggedRows_of_mem_removals lib hread hstale hdir'
    have hnil : fileRows lib left = [] := by
      refine fileRows_eq_nil fun f hf => ?_
      obtain ⟨hmem, hname⟩ := List.mem_filter.1 (hleft hf)
      exact hquiet f hmem (by simpa using hname)
    rw [hdir', hrows, hnil, List.append_nil, taggedRows_concat hc halike]
    exact congrArg Except.ok (Multiset.coe_eq_coe.2 (hperm.flatMap_right _))

end Compaction

/-- A replay after a compaction, or after a crash between two of its steps, gives what a replay
before it gives, exactly under the condition. -/
theorem taggedRows_compactStates_iff (lib : WalLib) (dir : WalDir) (path : List Char) :
    (∀ stale : List (List Char), stale.Perm ((dir.remove path).files.map LogFile.name) →
      ∀ dir' ∈ dir.compactStates lib path stale, dir'.taggedRows lib = dir.taggedRows lib) ↔
    dir.CompactSafe lib path := by
  have hidle : (∀ stale : List (List Char), dir.compactStates lib path stale = [dir]) →
      ∀ stale : List (List Char), stale.Perm ((dir.remove path).files.map LogFile.name) →
        ∀ dir' ∈ dir.compactStates lib path stale, dir'.taggedRows lib = dir.taggedRows lib := by
    intro h stale _ dir' hdir'
    rw [h, List.mem_singleton] at hdir'
    rw [hdir']
  unfold CompactSafe
  cases hreplay : dir.replay with
  | error msg => exact iff_of_true (hidle (by simp [compactStates, hreplay])) (by simp)
  | ok bs =>
    cases bs with
    | nil => exact iff_of_true (hidle (by simp [compactStates, hreplay])) (by simp)
    | cons first batches =>
      by_cases hone : batches = []
      · refine iff_of_true (hidle (by simp [compactStates, hreplay, hone])) ?_
        rintro _ _ _ ⟨⟩ hne
        exact absurd hone hne
      · cases hc : lib.concatBatches first.schema (first :: batches) with
        | error msg =>
          refine iff_of_true (hidle (by simp [compactStates, hreplay, hone, hc])) ?_
          rintro _ _ c ⟨⟩ _ hok
          rw [hc] at hok
          cases hok
        | ok c =>
          have hstates : ∀ stale, dir.compactStates lib path stale =
              dir :: (dir.replace path c).removals stale := by
            simp [compactStates, hreplay, hone, hc]
          have hiff := invisible_iff path hreplay hc
          constructor
          · rintro h _ _ c' ⟨⟩ _ hc'
            rw [hc] at hc'
            cases hc'
            refine hiff.1 fun stale hstale dir' hdir' => h stale hstale dir' ?_
            rw [hstates]
            exact List.mem_cons_of_mem _ hdir'
          · intro h stale hstale dir' hdir'
            rw [hstates] at hdir'
            rcases List.mem_cons.1 hdir' with rfl | hdir'
            · rfl
            · exact hiff.2 (h first batches c rfl hone hc) stale hstale dir' hdir'

end WalDir

/-! ### Two transactions -/

/-- The UUIDs 1 and 2. -/
def txUuid (n : ℕ) : String :=
  if n = 1 then "00000000-0000-0000-0000-000000000001"
  else "00000000-0000-0000-0000-000000000002"

/-- Texts of these UUIDs, and the concatenation of batches. -/
def plainWal : WalLib where
  showUuid := txUuid
  parseUuid s := [1, 2].find? fun n => txUuid n = s
  showU64 _ := "0"
  parseU64 _ := some 0
  concatBatches schema bs :=
    let rows := bs.flatMap fun x => x.rows.map (List.take schema.columns.length)
    if h : ∀ row ∈ rows, row.length = schema.columns.length then .ok ⟨schema, rows, h⟩
    else .error "index out of bounds"
  schema_concatBatches h := by
    simp only at h
    split_ifs at h
    exact Except.ok.inj h ▸ rfl
  rows_concatBatches h := by
    simp only at h
    split_ifs at h
    exact Except.ok.inj h ▸ rfl

/-- The batch with the row `x = i` of a transaction. -/
def txBatch (txId : ℕ) (i : ℤ) : WalBatch where
  schema := (⟨[⟨"x", .int64⟩], ∅⟩ : WalSchema).tag plainWal txId 0
  rows := [[some (.int i)]]
  length_of_mem := by simp [WalSchema.tag]

/-- The log of the transactions 1 and 2, the second one in the log's own file. -/
def txLog : WalDir where
  files := [⟨['a'], .stream ⟨_, [txBatch 1 10], fun _ hb => congrArg _ (List.mem_singleton.1 hb)⟩⟩,
    ⟨['b'], .stream ⟨_, [txBatch 2 20], fun _ hb => congrArg _ (List.mem_singleton.1 hb)⟩⟩]
  nodup := by simp

/-- The row `x = i` with the tag of a transaction. -/
def txRow (txId : ℕ) (i : ℤ) : TaggedRow := (some ⟨txId, 0⟩, [(⟨"x", .int64⟩, some (.int i))])

/-- The row of transaction 2 becomes one of transaction 1, and after a crash before the removal of
the first file the row of transaction 1 is read twice. -/
theorem taggedRows_compactStates_txLog :
    txLog.taggedRows plainWal = .ok {txRow 1 10, txRow 2 20} ∧
    (txLog.compactStates plainWal ['b'] [['a']]).map (WalDir.taggedRows plainWal) =
      [.ok {txRow 1 10, txRow 2 20}, .ok {txRow 1 10, txRow 1 10, txRow 1 20},
        .ok {txRow 1 10, txRow 1 20}] ∧
    ({txRow 1 10, txRow 2 20} : Multiset TaggedRow) ≠ {txRow 1 10, txRow 1 20} := by
  refine ⟨rfl, rfl, by decide⟩

end BenoStreamDB

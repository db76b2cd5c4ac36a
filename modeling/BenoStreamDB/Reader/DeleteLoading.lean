import BenoStreamDB.Foundations.Failing
import BenoStreamDB.Reader.MergedDeletes

/-!
# Loading of deletes when reads fail

`load_merged_deletes` (`reader/delete.rs`) and the readers of position-delete files
(`iceberg/delete.rs`), with their caches and with the errors of the object store and the decoders.
An error is logged and the file taken for an empty one; the merged positions are then cached.

What the files record for a data file is `Recorded`. A call gives all of it, or fails and caches
nothing, exactly if it is `Careful`: `failsClosed_iff`.
-/

namespace BenoStreamDB

/-! ### Position-delete files -/

/-- A value of a field of an Avro record. -/
inductive AvroField where
  | string (s : Path)
  | long (i : ℤ)
  | other

inductive AvroDatum where
  | record (fields : List (String × AvroField))
  | other

/-- A column of a Parquet batch. -/
inductive DeleteColumn where
  | strings (values : List Path)
  | int64s (values : List ℤ)
  | other

/-- The columns `file_path` and `pos` of a batch. -/
structure DeleteBatch where
  filePath : Option DeleteColumn
  pos : Option DeleteColumn

/-- The positions in a delete file by the paths of the data files. -/
abbrev DeleteMap := List (Path × Finset ℤ)

namespace DeleteMap

/-- `entry(fp).or_default().insert(p)` -/
def insertPos (fp : Path) (p : ℤ) : DeleteMap → DeleteMap
  | [] => [(fp, {p})]
  | (q, ps) :: m => if q = fp then (q, insert p ps) :: m else (q, ps) :: insertPos fp p m

/-- The map has the position for the path. -/
def Has (m : DeleteMap) (fp : Path) (p : ℤ) : Prop := ∃ ps, (fp, ps) ∈ m ∧ p ∈ ps

@[simp]
lemma has_nil {fp : Path} {p : ℤ} : ¬ Has [] fp p := by
  rintro ⟨_, h, _⟩
  cases h

lemma has_cons {x : Path × Finset ℤ} {m : DeleteMap} {fp : Path} {p : ℤ} :
    Has (x :: m) fp p ↔ (x.1 = fp ∧ p ∈ x.2) ∨ Has m fp p := by
  constructor
  · rintro ⟨ps, hmem, hp⟩
    rcases List.mem_cons.1 hmem with rfl | hmem
    · exact .inl ⟨rfl, hp⟩
    · exact .inr ⟨ps, hmem, hp⟩
  · rintro (⟨rfl, hp⟩ | ⟨ps, hmem, hp⟩)
    · exact ⟨x.2, List.mem_cons_self, hp⟩
    · exact ⟨ps, List.mem_cons_of_mem _ hmem, hp⟩

lemma has_insertPos {m : DeleteMap} {fp fp' : Path} {p p' : ℤ} :
    Has (insertPos fp p m) fp' p' ↔ (fp' = fp ∧ p' = p) ∨ Has m fp' p' := by
  induction m with
  | nil => simp [insertPos, has_cons, eq_comm]
  | cons x m ih =>
    obtain ⟨q, ps⟩ := x
    rw [insertPos]
    split_ifs with hq
    · subst hq
      simp only [has_cons, Finset.mem_insert]
      constructor
      · rintro (⟨rfl, rfl | hp⟩ | hm)
        · exact .inl ⟨rfl, rfl⟩
        · exact .inr (.inl ⟨rfl, hp⟩)
        · exact .inr (.inr hm)
      · rintro (⟨rfl, rfl⟩ | ⟨rfl, hp⟩ | hm)
        · exact .inl ⟨rfl, .inl rfl⟩
        · exact .inl ⟨rfl, .inr hp⟩
        · exact .inr hm
    · simp only [has_cons, ih]
      tauto

/-- Many positions at once. -/
def insertAll (m : DeleteMap) (pairs : List (Path × ℤ)) : DeleteMap :=
  pairs.foldl (fun m x => insertPos x.1 x.2 m) m

lemma has_insertAll {m : DeleteMap} {pairs : List (Path × ℤ)} {fp : Path} {p : ℤ} :
    Has (insertAll m pairs) fp p ↔ (fp, p) ∈ pairs ∨ Has m fp p := by
  induction pairs generalizing m with
  | nil => simp [insertAll]
  | cons x pairs ih =>
    rw [insertAll, List.foldl_cons, ← insertAll, ih, has_insertPos, List.mem_cons, Prod.ext_iff]
    tauto

variable {α : Type} {pairs : α → Except String (List (Path × ℤ))} {items : List (Except String α)}
  {m m₀ : DeleteMap} {fp : Path} {p : ℤ}

/-- The positions of the items of a file, up to the first error. -/
def collect (pairs : α → Except String (List (Path × ℤ))) (items : List (Except String α)) :
    Except String DeleteMap :=
  items.foldlM (fun m item => do
    let value ← item
    let found ← pairs value
    .ok (m.insertAll found)) []

lemma has_foldlM
    (h : items.foldlM (fun m item => do
      let value ← item
      let found ← pairs value
      .ok (insertAll m found)) m₀ = .ok m) :
    m.Has fp p ↔ m₀.Has fp p ∨
      ∃ value found, .ok value ∈ items ∧ pairs value = .ok found ∧ (fp, p) ∈ found := by
  induction items generalizing m₀ with
  | nil =>
    obtain rfl : m₀ = m := Except.ok.inj h
    simp
  | cons item items ih =>
    rw [List.foldlM_cons] at h
    obtain ⟨m₁, hm₁, h⟩ := Failing.exists_of_bind_eq_ok h
    obtain ⟨value, rfl, hm₁⟩ := Failing.exists_of_bind_eq_ok (x := item) hm₁
    obtain ⟨found, hfound, hm₁⟩ := Failing.exists_of_bind_eq_ok (x := pairs value) hm₁
    obtain rfl : insertAll m₀ found = m₁ := Except.ok.inj hm₁
    rw [ih h, has_insertAll]
    constructor
    · rintro ((hmem | hm₀) | ⟨value', found', hvalue, hpairs, hmem⟩)
      · exact .inr ⟨value, found, List.mem_cons_self, hfound, hmem⟩
      · exact .inl hm₀
      · exact .inr ⟨value', found', List.mem_cons_of_mem _ hvalue, hpairs, hmem⟩
    · rintro (hm₀ | ⟨value', found', hvalue, hpairs, hmem⟩)
      · exact .inl (.inr hm₀)
      · rcases List.mem_cons.1 hvalue with heq | hvalue
        · obtain rfl := Except.ok.inj heq
          obtain rfl : found' = found := Except.ok.inj (hpairs.symm.trans hfound)
          exact .inl (.inl hmem)
        · exact .inr ⟨value', found', hvalue, hpairs, hmem⟩

/-- What is collected is what the items have. -/
lemma has_collect (h : collect pairs items = .ok m) :
    m.Has fp p ↔ ∃ value found, .ok value ∈ items ∧ pairs value = .ok found ∧ (fp, p) ∈ found := by
  rw [has_foldlM h]
  simp

lemma exists_collect
    (h : ∀ item ∈ items, ∃ value found, item = .ok value ∧ pairs value = .ok found) :
    ∃ m, collect pairs items = .ok m := by
  rw [collect]
  generalize ([] : DeleteMap) = m₀
  induction items generalizing m₀ with
  | nil => exact ⟨m₀, rfl⟩
  | cons item items ih =>
    obtain ⟨value, found, rfl, hfound⟩ := h item List.mem_cons_self
    obtain ⟨m, hm⟩ := ih (fun i hi => h i (List.mem_cons_of_mem _ hi)) (insertAll m₀ found)
    exact ⟨m, by simpa [List.foldlM_cons, hfound, bind, Except.bind] using hm⟩

end DeleteMap

/-- The path and the position of a record: the last string and the last long of these names. -/
def AvroDatum.pair : AvroDatum → Option (Path × ℤ)
  | .record fields =>
    let found := fields.foldl (fun (found : Option Path × Option ℤ) field =>
      match field.1, field.2 with
      | "file_path", .string s => (some s, found.2)
      | "pos", .long p => (found.1, some p)
      | _, _ => found) (none, none)
    found.1.bind fun fp => found.2.map fun p => (fp, p)
  | .other => none

/-- The paths and positions of a batch; a batch without one of the columns has none. -/
def DeleteBatch.pairs (batch : DeleteBatch) : Except String (List (Path × ℤ)) :=
  match batch.filePath, batch.pos with
  | some (.strings fps), some (.int64s ps) => .ok (fps.zip ps)
  | some (.strings _), some _ => .error "pos column is not int64"
  | some _, some _ => .error "file_path column is not string"
  | _, _ => .ok []

/-- What the decoders make of the bytes of a file. -/
structure DeleteLib (β : Type) where
  avro : β → Except String (List (Except String AvroDatum))
  parquet : β → Except String (List (Except String DeleteBatch))
  /-- `RoaringBitmap::deserialize_from` -/
  bitmap : β → Except String (Finset ℕ)
  bitmap_lt : ∀ b bits, bitmap b = .ok bits → ∀ n ∈ bits, n < 2 ^ 32

namespace DeleteLib

variable {β : Type} (lib : DeleteLib β)

/-- `read_deletes_avro_static`; records of another form are left out. -/
def readDeletesAvro (b : β) : Except String DeleteMap :=
  (lib.avro b).bind (DeleteMap.collect fun value => .ok value.pair.toList)

/-- `read_deletes_parquet_static` -/
def readDeletesParquet (b : β) : Except String DeleteMap :=
  (lib.parquet b).bind (DeleteMap.collect DeleteBatch.pairs)

def isAvro (path : Path) : Bool := ".avro".toList.isSuffixOf path

/-- The content of a position-delete file. -/
def readDeletes (path : Path) (b : β) : Except String DeleteMap :=
  if isAvro path then lib.readDeletesAvro b else lib.readDeletesParquet b

/-- The file records the position for the path. -/
def Records (path : Path) (b : β) (fp : Path) (p : ℤ) : Prop :=
  if isAvro path then
    ∃ records, lib.avro b = .ok records ∧ ∃ value, .ok value ∈ records ∧ value.pair = some (fp, p)
  else
    ∃ batches, lib.parquet b = .ok batches ∧ ∃ batch pairs, .ok batch ∈ batches ∧
      batch.pairs = .ok pairs ∧ (fp, p) ∈ pairs

/-- The file can be decoded, and each of its records has a path and a position. -/
def WellFormed (path : Path) (b : β) : Prop :=
  if isAvro path then
    ∃ records, lib.avro b = .ok records ∧ ∀ record ∈ records, ∃ value x,
      record = .ok value ∧ value.pair = some x
  else
    ∃ batches, lib.parquet b = .ok batches ∧ ∀ batch ∈ batches, ∃ fps ps,
      batch = .ok ⟨some (.strings fps), some (.int64s ps)⟩

variable {lib} {path fp : Path} {b : β} {p : ℤ} {m : DeleteMap}

/-- The map of a file has what the file records. -/
lemma has_readDeletes (h : lib.readDeletes path b = .ok m) :
    m.Has fp p ↔ lib.Records path b fp p := by
  rw [readDeletes] at h
  rw [Records]
  split_ifs at h ⊢ with havro
  · obtain ⟨records, hrecords, h⟩ := Failing.exists_of_bind_eq_ok h
    rw [DeleteMap.has_collect h, hrecords]
    simp
  · obtain ⟨batches, hbatches, h⟩ := Failing.exists_of_bind_eq_ok h
    rw [DeleteMap.has_collect h, hbatches]
    simp

lemma WellFormed.exists_readDeletes (h : lib.WellFormed path b) :
    ∃ m, lib.readDeletes path b = .ok m := by
  rw [WellFormed] at h
  rw [readDeletes]
  split_ifs at h ⊢ with havro
  · obtain ⟨records, hrecords, hall⟩ := h
    rw [readDeletesAvro, hrecords]
    refine DeleteMap.exists_collect fun record hrecord => ?_
    obtain ⟨value, x, rfl, hx⟩ := hall record hrecord
    exact ⟨value, _, rfl, rfl⟩
  · obtain ⟨batches, hbatches, hall⟩ := h
    rw [readDeletesParquet, hbatches]
    refine DeleteMap.exists_collect fun batch hbatch => ?_
    obtain ⟨fps, ps, rfl⟩ := hall batch hbatch
    exact ⟨_, _, rfl, rfl⟩

end DeleteLib

/-! ### The reader of a segment -/

/-- The configuration of the reader of a segment, with the number of its object store. -/
structure DeleteConfig where
  store : ℕ
  rootUri : Path
  parquetPath : Option Path
  basePath : Path
  segmentId : Path
  deleteFiles : List DeleteFile

namespace DeleteConfig

variable (c : DeleteConfig)

def targetPath : Path :=
  c.parquetPath.getD (c.basePath ++ '/' :: c.segmentId ++ ".parquet".toList)

/-- `unique_delete_files` -/
def uniqueDeleteFiles : List DeleteFile := c.deleteFiles.foldl pushNewDelete []

def pathBytes (p : Path) : List ℕ := (String.ofList p).toUTF8.data.toList.map UInt8.toNat

/-- A step of the FNV-1a hash. -/
def fnv (h b : ℕ) : ℕ := (h ^^^ b) * 0x100000001b3 % 2 ^ 64

/-- One lane of the fingerprint. -/
def lane (seed : ℕ) (parts : List Path) (target : Path) : ℕ :=
  (pathBytes target).foldl fnv
    (parts.foldl (fun h part => fnv ((pathBytes part).foldl fnv h) 0xff) seed)

/-- `merged_deletes_cache_key` -/
def mergedDeletesCacheKey : Option String :=
  if c.deleteFiles.isEmpty then none
  else
    let parts := (c.uniqueDeleteFiles.map DeleteFile.filePath).insertionSort fun p q => p ≤ q
    some (toString (pathBytes c.targetPath).length ++ ":" ++
      toString (lane 0xcbf29ce484222325 parts c.targetPath) ++ ":" ++
      toString (lane 0x84222325cbf29ce4 parts c.targetPath))

end DeleteConfig

/-- What the object stores hold, and the readers. Objects are never changed. -/
structure DeleteWorld (β : Type) where
  lib : DeleteLib β
  objects : ℕ → Path → Option β
  ranges : ℕ → Path → ℤ → ℤ → Option β
  readers : ℕ → DeleteConfig

/-- The errors of reads during a call. -/
structure DeleteFaults where
  get : Path → Option String := fun _ => none
  getRange : Path → ℤ → ℤ → Option String := fun _ _ _ => none

/-- The caches: the cells of the readers, `POSITION_DELETE_CACHE` and `FULL_DELETE_FILE_CACHE`.
All readers share the last two, those of other tables too. -/
structure DeleteCaches where
  cell : ℕ → Option (Finset ℕ) := fun _ => none
  merged : String → Option (Finset ℤ) := fun _ => none
  files : Path → Option DeleteMap := fun _ => none

/-- The deletes of one file, before they are merged. -/
inductive FileDeletes where
  | map (m : DeleteMap)
  | bitmap (bits : Finset ℕ)

/-- The bitmap of a file for the data file `target`. -/
def FileDeletes.toBits (target : Path) : FileDeletes → Finset ℕ
  | .map m => filterMapToBitmap m target
  | .bitmap bits => bits

/-- The positions that a bitmap can hold. -/
def toBitmap (positions : Finset ℤ) : Finset ℕ :=
  (positions.filter fun p => 0 ≤ p ∧ p < 2 ^ 32).image Int.toNat

namespace DeleteWorld

variable {β : Type} (W : DeleteWorld β) (faults : DeleteFaults) (c : DeleteConfig)

def getObject (path : Path) : Except String β :=
  match faults.get path, W.objects c.store path with
  | some e, _ => .error e
  | none, some b => .ok b
  | none, none => .error "Object not found"

def getRange (path : Path) (offset size : ℤ) : Except String β :=
  match faults.getRange path offset size, W.ranges c.store path offset size with
  | some e, _ => .error e
  | none, some b => .ok b
  | none, none => .error "Object not found"

/-- `fetch_deletes_map` -/
def fetchDeletesMap (path : Path) (s : DeleteCaches) : Except String DeleteMap × DeleteCaches :=
  match s.files path with
  | some m => (.ok m, s)
  | none =>
    match (W.getObject faults c path).bind (W.lib.readDeletes path) with
    | .ok m => (.ok m, { s with files := Function.update s.files path (some m) })
    | .error e => (.error ("Failed to read delete file: " ++ e), s)

/-- A position-delete file; an error is logged and the file taken for an empty one. -/
def readPositionFile (d : DeleteFile) (s : DeleteCaches) :
    FileDeletes × DeleteCaches :=
  let resolvedPath := resolveDeletePath c.rootUri d.filePath
  if isDeleteTable resolvedPath then
    match W.fetchDeletesMap faults c resolvedPath s with
    | (.ok m, s) => (.map m, s)
    | (.error _, s) => (.map [], s)
  else
    match (W.getObject faults c d.filePath).bind W.lib.bitmap with
    | .ok bits => (.bitmap bits, s)
    | .error _ => (.bitmap ∅, s)

/-- The position-delete files among the delete files. -/
def readPositionFiles :
    List DeleteFile → DeleteCaches → List FileDeletes × DeleteCaches
  | [], s => ([], s)
  | d :: ds, s =>
    match d.content with
    | .position =>
      let (first, s) := W.readPositionFile faults c d s
      let (rest, s) := readPositionFiles ds s
      (first :: rest, s)
    | _ => readPositionFiles ds s

/-- A deletion vector; an error is logged and the vector taken for an empty one. -/
def readDeletionVector (d : DeleteFile) : Finset ℕ :=
  match d.content with
  | .deletionVector puffin offset size =>
    match (W.getRange faults c puffin offset size).bind W.lib.bitmap with
    | .ok bits => bits
    | .error _ => ∅
  | _ => ∅

/-- The union of the deletes of all files: first the maps, then the bitmaps, then the vectors. -/
def mergeDeletes (results : List FileDeletes) : Finset ℕ :=
  let target := stripScheme c.targetPath
  let maps := results.filter fun
    | .map _ => true
    | .bitmap _ => false
  let bitmaps := results.filter fun
    | .map _ => false
    | .bitmap _ => true
  let bm := maps.foldl (fun bm r => bm ∪ r.toBits target) ∅
  let bm := bitmaps.foldl (fun bm r => bm ∪ r.toBits target) bm
  c.uniqueDeleteFiles.foldl (fun bm d => bm ∪ W.readDeletionVector faults c d) bm

/-- `load_merged_deletes_inner` -/
def loadMergedDeletesInner (s : DeleteCaches) :
    Except String (Finset ℕ) × DeleteCaches :=
  match c.mergedDeletesCacheKey.bind s.merged with
  | some cached => (.ok (toBitmap cached), s)
  | none =>
    let (results, s) := W.readPositionFiles faults c c.uniqueDeleteFiles s
    let bm := W.mergeDeletes faults c results
    (.ok bm, match c.mergedDeletesCacheKey with
      | some key => { s with merged := Function.update s.merged key (some (bm.image Nat.cast)) }
      | none => s)

/-- `load_merged_deletes` -/
def loadMergedDeletes (i : ℕ) (s : DeleteCaches) : Except String (Finset ℕ) × DeleteCaches :=
  match s.cell i with
  | some bm => (.ok bm, s)
  | none =>
    match W.loadMergedDeletesInner faults (W.readers i) s with
    | (.ok bm, s) => (.ok bm, { s with cell := Function.update s.cell i (some bm) })
    | (.error e, s) => (.error e, s)

/-! ### What the delete files record -/

/-- The delete file has the position, in a table under a path with `names`. -/
def HoldsFor (names : Path → Prop) (d : DeleteFile) (n : ℤ) : Prop :=
  match d.content with
  | .position =>
    if isDeleteTable (resolveDeletePath c.rootUri d.filePath) then
      ∃ b fp, W.objects c.store (resolveDeletePath c.rootUri d.filePath) = some b ∧
        W.lib.Records (resolveDeletePath c.rootUri d.filePath) b fp n ∧ names fp
    else ∃ b bits, W.objects c.store d.filePath = some b ∧ W.lib.bitmap b = .ok bits ∧
      ∃ k ∈ bits, (k : ℤ) = n
  | .deletionVector puffin offset size =>
    ∃ b bits, W.ranges c.store puffin offset size = some b ∧ W.lib.bitmap b = .ok bits ∧
      ∃ k ∈ bits, (k : ℤ) = n
  | .equality _ => False

/-- The path is that of the data file, as it is written or below the root of the table. -/
def Names (fp : Path) : Prop := fp = c.targetPath ∨ relativizeFilePath c.rootUri fp = c.targetPath

/-- An attached delete file records the position for the segment of the reader. -/
def Recorded (i : ℕ) (n : ℤ) : Prop :=
  ∃ d ∈ (W.readers i).deleteFiles, W.HoldsFor (W.readers i) (Names (W.readers i)) d n

/-- The delete file can be read and decoded, or its content is cached. -/
def Readable (s : DeleteCaches) (d : DeleteFile) : Prop :=
  match d.content with
  | .position =>
    if isDeleteTable (resolveDeletePath c.rootUri d.filePath) then
      (s.files (resolveDeletePath c.rootUri d.filePath)).isSome = true ∨
        ∃ b, W.getObject faults c (resolveDeletePath c.rootUri d.filePath) = .ok b ∧
          W.lib.WellFormed (resolveDeletePath c.rootUri d.filePath) b
    else ∃ b bits, W.getObject faults c d.filePath = .ok b ∧ W.lib.bitmap b = .ok bits
  | .deletionVector puffin offset size =>
    ∃ b bits, W.getRange faults c puffin offset size = .ok b ∧ W.lib.bitmap b = .ok bits
  | .equality _ => True

/-- The call has to read the delete files. -/
def Misses (i : ℕ) (s : DeleteCaches) : Prop :=
  s.cell i = none ∧ (W.readers i).mergedDeletesCacheKey.bind s.merged = none

/-- The bitmap has all positions that are recorded. -/
def Contains (i : ℕ) (bm : Finset ℕ) : Prop := ∀ n, W.Recorded i n → 0 ≤ n ∧ n.toNat ∈ bm

/-- A bitmap that is returned has all recorded positions, and if a file that the call needs cannot
be read then the call fails and no merged positions are cached. -/
def FailsClosed (i : ℕ) (s : DeleteCaches) : Prop :=
  (∀ bm, (W.loadMergedDeletes faults i s).1 = .ok bm → W.Contains i bm) ∧
  (W.Misses i s → (∃ d ∈ (W.readers i).deleteFiles, ¬ W.Readable faults (W.readers i) s d) →
    (∃ e, (W.loadMergedDeletes faults i s).1 = .error e) ∧
      (W.loadMergedDeletes faults i s).2.cell = s.cell ∧
      (W.loadMergedDeletes faults i s).2.merged = s.merged)

/-- If the call has to read the delete files then it can read all of them, the recorded positions
fit into a bitmap, and leaving out files of equal paths loses none of them. -/
def Careful (i : ℕ) (s : DeleteCaches) : Prop :=
  W.Misses i s →
    (∀ d ∈ (W.readers i).deleteFiles, W.Readable faults (W.readers i) s d) ∧
    ∀ n, W.Recorded i n → 0 ≤ n ∧ n < 2 ^ 32 ∧ ∃ d ∈ (W.readers i).uniqueDeleteFiles,
      W.HoldsFor (W.readers i)
        (fun fp => namesTarget fp (stripScheme (W.readers i).targetPath) = true) d n

/-- The reader reads the table at the path. -/
def ReadsTable (i : ℕ) (path : Path) : Prop :=
  ∃ d ∈ (W.readers i).deleteFiles, d.content = .position ∧
    resolveDeletePath (W.readers i).rootUri d.filePath = path ∧ isDeleteTable path = true

/-- What readers share a cache entry for is the same for them. -/
structure KeysTell : Prop where
  recorded : ∀ i j key, (W.readers i).mergedDeletesCacheKey = some key →
    (W.readers j).mergedDeletesCacheKey = some key → ∀ n, W.Recorded i n → W.Recorded j n
  objects : ∀ i j path, W.ReadsTable i path → W.ReadsTable j path →
    W.objects (W.readers i).store path = W.objects (W.readers j).store path

/-- Some entries have been evicted, and readers dropped. -/
structure Evicts (s s' : DeleteCaches) : Prop where
  cell : ∀ i bm, s'.cell i = some bm → s.cell i = some bm
  merged : ∀ key ps, s'.merged key = some ps → s.merged key = some ps
  files : ∀ path m, s'.files path = some m → s.files path = some m

/-- The caches after careful calls. -/
inductive Reachable : DeleteCaches → Prop
  | start : Reachable {}
  | load {s : DeleteCaches} (i : ℕ) (faults : DeleteFaults) (hs : Reachable s)
      (hcall : W.Careful faults i s) : Reachable (W.loadMergedDeletes faults i s).2
  | evict {s s' : DeleteCaches} (hs : Reachable s) (h : Evicts s s') : Reachable s'

/-! ### What a call reads -/

variable {W faults c} {s : DeleteCaches} {d d' : DeleteFile} {path path' : Path} {i n : ℕ}

/-- What a fetch gives depends on one cache entry only. -/
lemma fetchDeletesMap_congr {s s' : DeleteCaches} (h : s'.files path = s.files path) :
    (W.fetchDeletesMap faults c path s').1 = (W.fetchDeletesMap faults c path s).1 := by
  rw [fetchDeletesMap, fetchDeletesMap, h]
  cases s.files path with
  | some m => rfl
  | none => cases (W.getObject faults c path).bind (W.lib.readDeletes path) <;> rfl

/-- What a fetch gives does not depend on whether another one was made before. -/
lemma fetchDeletesMap_fetchDeletesMap :
    (W.fetchDeletesMap faults c path (W.fetchDeletesMap faults c path' s).2).1 =
      (W.fetchDeletesMap faults c path s).1 := by
  cases hcached : s.files path' with
  | some m => simp only [fetchDeletesMap, hcached]
  | none =>
    cases hread : (W.getObject faults c path').bind (W.lib.readDeletes path') with
    | error e => simp only [fetchDeletesMap, hcached, hread]
    | ok m =>
      by_cases hpath : path = path'
      · subst hpath
        simp only [fetchDeletesMap, hcached, hread, Function.update_self]
      · apply fetchDeletesMap_congr
        simp only [fetchDeletesMap, hcached, hread, Function.update_of_ne hpath]

lemma readPositionFile_snd :
    (W.readPositionFile faults c d s).2 =
      if isDeleteTable (resolveDeletePath c.rootUri d.filePath) then
        (W.fetchDeletesMap faults c (resolveDeletePath c.rootUri d.filePath) s).2
      else s := by
  rw [readPositionFile]
  split_ifs
  · rcases W.fetchDeletesMap faults c (resolveDeletePath c.rootUri d.filePath) s with ⟨_ | _, s'⟩
      <;> rfl
  · cases (W.getObject faults c d.filePath).bind W.lib.bitmap <;> rfl

/-- What a position-delete file gives depends on what the fetch of its table gives. -/
lemma readPositionFile_congr {s s' : DeleteCaches}
    (h : (W.fetchDeletesMap faults c (resolveDeletePath c.rootUri d.filePath) s').1 =
      (W.fetchDeletesMap faults c (resolveDeletePath c.rootUri d.filePath) s).1) :
    (W.readPositionFile faults c d s').1 = (W.readPositionFile faults c d s).1 := by
  simp only [readPositionFile]
  split_ifs
  · revert h
    rcases W.fetchDeletesMap faults c (resolveDeletePath c.rootUri d.filePath) s' with ⟨_ | _, _⟩
      <;> rcases W.fetchDeletesMap faults c (resolveDeletePath c.rootUri d.filePath) s
        with ⟨_ | _, _⟩ <;> intro h <;> cases h <;> rfl
  · cases (W.getObject faults c d.filePath).bind W.lib.bitmap <;> rfl

lemma readPositionFile_readPositionFile :
    (W.readPositionFile faults c d (W.readPositionFile faults c d' s).2).1 =
      (W.readPositionFile faults c d s).1 := by
  apply readPositionFile_congr
  rw [readPositionFile_snd]
  split_ifs
  · exact fetchDeletesMap_fetchDeletesMap
  · rfl

/-- Each position-delete file gives what it gives alone. -/
lemma readPositionFiles_fst (ds : List DeleteFile) :
    (W.readPositionFiles faults c ds s).1 =
      (ds.filter fun d => d.content = .position).map fun d =>
        (W.readPositionFile faults c d s).1 := by
  induction ds generalizing s with
  | nil => rfl
  | cons d ds ih =>
    rw [readPositionFiles]
    cases hcontent : d.content with
    | position =>
      rw [List.filter_cons_of_pos (by simpa using hcontent), List.map_cons]
      simp only [ih, readPositionFile_readPositionFile]
    | equality ids => rw [List.filter_cons_of_neg (by simp [hcontent]), ← ih]
    | deletionVector puffin offset size =>
      rw [List.filter_cons_of_neg (by simp [hcontent]), ← ih]

/-- The positions that a delete file gives in a call. -/
def taken (W : DeleteWorld β) (faults : DeleteFaults) (c : DeleteConfig) (s : DeleteCaches)
    (d : DeleteFile) : Finset ℕ :=
  match d.content with
  | .position => (W.readPositionFile faults c d s).1.toBits (stripScheme c.targetPath)
  | _ => W.readDeletionVector faults c d

lemma mem_mergeDeletes {results : List FileDeletes} :
    n ∈ W.mergeDeletes faults c results ↔
      (∃ r ∈ results, n ∈ r.toBits (stripScheme c.targetPath)) ∨
        ∃ d ∈ c.uniqueDeleteFiles, n ∈ W.readDeletionVector faults c d := by
  simp only [mergeDeletes, mem_foldl_union, Finset.notMem_empty, false_or, List.mem_filter]
  refine or_congr_left ?_
  constructor
  · rintro (⟨r, ⟨hr, -⟩, hn⟩ | ⟨r, ⟨hr, -⟩, hn⟩) <;> exact ⟨r, hr, hn⟩
  · rintro ⟨r, hr, hn⟩
    cases r with
    | map m => exact .inl ⟨.map m, ⟨hr, rfl⟩, hn⟩
    | bitmap bits => exact .inr ⟨.bitmap bits, ⟨hr, rfl⟩, hn⟩

/-- The merged positions are those of the delete files. -/
lemma mem_mergeDeletes_readPositionFiles :
    n ∈ W.mergeDeletes faults c (W.readPositionFiles faults c c.uniqueDeleteFiles s).1 ↔
      ∃ d ∈ c.uniqueDeleteFiles, n ∈ W.taken faults c s d := by
  rw [mem_mergeDeletes, readPositionFiles_fst]
  constructor
  · rintro (⟨r, hr, hn⟩ | ⟨d, hd, hn⟩)
    · obtain ⟨d, hd, rfl⟩ := List.mem_map.1 hr
      obtain ⟨hd, hcontent⟩ := List.mem_filter.1 hd
      refine ⟨d, hd, ?_⟩
      rw [taken, of_decide_eq_true hcontent]
      exact hn
    · refine ⟨d, hd, ?_⟩
      cases hcontent : d.content with
      | position => simp [readDeletionVector, hcontent] at hn
      | equality ids => rwa [taken, hcontent]
      | deletionVector puffin offset size => rwa [taken, hcontent]
  · rintro ⟨d, hd, hn⟩
    cases hcontent : d.content with
    | position =>
      rw [taken, hcontent] at hn
      exact .inl ⟨_, List.mem_map_of_mem (List.mem_filter.2 ⟨hd, decide_eq_true hcontent⟩), hn⟩
    | equality ids => exact .inr ⟨d, hd, by rwa [taken, hcontent] at hn⟩
    | deletionVector puffin offset size => exact .inr ⟨d, hd, by rwa [taken, hcontent] at hn⟩

/-! ### The files as a layout and contents

A call returns what `DeleteLayout.loadMergedDeletes` gives for the files that can be read in it and
for the caches it finds, so that `Snapshot.deletesExact_iff` is about these calls. -/

section Layout

variable (W faults c)

/-- The map of a table, if it can be read and decoded in the call. -/
def tableMap (path : Path) : Option DeleteMap :=
  ((W.getObject faults c path).bind (W.lib.readDeletes path)).toOption

def plainBits (path : Path) : Option (Finset ℕ) :=
  ((W.getObject faults c path).bind W.lib.bitmap).toOption

def vectorBits (puffin : Path) (offset size : ℤ) : Option (Finset ℕ) :=
  ((W.getRange faults c puffin offset size).bind W.lib.bitmap).toOption

def layout : DeleteLayout where
  readable path := (W.tableMap faults c path).isSome
  bitmapReadable path := (W.plainBits faults c path).isSome
  vectorReadable puffin offset size := (W.vectorBits faults c puffin offset size).isSome
  names path := ((W.tableMap faults c path).getD []).map Prod.fst

def contents : DeleteContents where
  positions path fp :=
    (((W.tableMap faults c path).getD []).filter fun x => x.1 = fp).foldl (fun ps x => ps ∪ x.2) ∅
  bitmap path := (W.plainBits faults c path).getD ∅
  vector puffin offset size := (W.vectorBits faults c puffin offset size).getD ∅

/-- What the reader finds in the caches. -/
def cachedFor (i : ℕ) (s : DeleteCaches) : CachedDeletes where
  merged _ := (s.cell i).orElse fun _ =>
    ((W.readers i).mergedDeletesCacheKey.bind s.merged).map toBitmap
  files := s.files

end Layout

/-- A map and its list of names with their positions mark the same rows. -/
lemma filterMapToBitmap_names (m : DeleteMap) (target : Path) :
    filterMapToBitmap ((m.map Prod.fst).map fun fp =>
      (fp, (m.filter fun x => x.1 = fp).foldl (fun ps x => ps ∪ x.2) ∅)) target =
        filterMapToBitmap m target := by
  ext n
  simp only [mem_filterMapToBitmap, List.mem_map, exists_exists_and_eq_and, mem_foldl_union,
    Finset.notMem_empty, false_or, List.mem_filter, decide_eq_true_eq]
  refine and_congr_right fun _ => ?_
  constructor
  · rintro ⟨x, -, hname, y, ⟨hy, hxy⟩, hn⟩
    exact ⟨y, hy, hxy ▸ hname, hn⟩
  · rintro ⟨x, hx, hname, hn⟩
    exact ⟨x, hx, hname, x, ⟨hx, rfl⟩, hn⟩

lemma fileDeletes_layout :
    (W.layout faults c).fileDeletes (W.contents faults c) (W.cachedFor i s) c.rootUri
      (stripScheme c.targetPath) d = W.taken faults c s d := by
  rw [DeleteLayout.fileDeletes, taken]
  cases hcontent : d.content with
  | equality ids => simp only [readDeletionVector, hcontent]
  | deletionVector puffin offset size =>
    simp only [readDeletionVector, hcontent]
    rcases hread : (W.getRange faults c puffin offset size).bind W.lib.bitmap with e | bits <;>
      simp [layout, contents, vectorBits, hread, Except.toOption]
  | position =>
    simp only [readPositionFile]
    by_cases htable : isDeleteTable (resolveDeletePath c.rootUri d.filePath) = true
    · rw [if_pos htable, if_pos htable]
      simp only [DeleteLayout.fetchDeletesMap, DeleteWorld.fetchDeletesMap, cachedFor]
      cases hcached : s.files (resolveDeletePath c.rootUri d.filePath) with
      | some m => rfl
      | none =>
        rcases hread : (W.getObject faults c (resolveDeletePath c.rootUri d.filePath)).bind
          (W.lib.readDeletes (resolveDeletePath c.rootUri d.filePath)) with e | m
        · simp [layout, tableMap, hread, Except.toOption, FileDeletes.toBits]
        · simpa [layout, contents, tableMap, hread, Except.toOption, FileDeletes.toBits]
            using filterMapToBitmap_names m _
    · rw [if_neg htable, if_neg htable]
      rcases hread : (W.getObject faults c d.filePath).bind W.lib.bitmap with e | bits <;>
        simp [layout, contents, plainBits, hread, Except.toOption, FileDeletes.toBits]

/-- A call returns the merged deletes of the files that it can read. -/
theorem loadMergedDeletes_layout {e : ManifestEntry} (hpath : e.filePath = (W.readers i).targetPath)
    (hfiles : e.deleteFiles = (W.readers i).deleteFiles) :
    (W.loadMergedDeletes faults i s).1 = .ok ((W.layout faults (W.readers i)).loadMergedDeletes
      (W.contents faults (W.readers i)) (W.cachedFor i s) (W.readers i).rootUri e) := by
  rw [loadMergedDeletes, DeleteLayout.loadMergedDeletes]
  cases hcell : s.cell i with
  | some bm => simp only [cachedFor, hcell, Option.orElse]
  | none =>
    cases hmerged : (W.readers i).mergedDeletesCacheKey.bind s.merged with
    | some ps =>
      simp only [loadMergedDeletesInner, cachedFor, hcell, hmerged, Option.orElse, Option.map_some]
    | none =>
      simp only [loadMergedDeletesInner, cachedFor, hcell, hmerged, Option.orElse, Option.map_none]
      congr 1
      ext n
      rw [mem_mergeDeletes_readPositionFiles, mem_foldl_union, hpath, hfiles]
      simp only [Finset.notMem_empty, false_or]
      refine exists_congr fun d => and_congr_right fun _ => ?_
      rw [← fileDeletes_layout (i := i)]
      rfl

lemma mem_deleteFiles_of_mem_unique (h : d ∈ c.uniqueDeleteFiles) : d ∈ c.deleteFiles :=
  (mem_or_mem_of_mem_pushed h).resolve_left List.not_mem_nil

lemma getObject_eq_ok {b : β} (h : W.getObject faults c path = .ok b) :
    W.objects c.store path = some b := by
  rw [getObject] at h
  split at h <;> simp_all

lemma getRange_eq_ok {offset size : ℤ} {b : β}
    (h : W.getRange faults c path offset size = .ok b) :
    W.ranges c.store path offset size = some b := by
  rw [getRange] at h
  split at h <;> simp_all

/-! ### The caches -/

/-- Cached positions are all that is recorded, and cached maps are the contents of the files. -/
structure Sound (W : DeleteWorld β) (s : DeleteCaches) : Prop where
  cell : ∀ i bm, s.cell i = some bm → W.Contains i bm
  merged : ∀ i key ps, (W.readers i).mergedDeletesCacheKey = some key →
    s.merged key = some ps → W.Contains i (toBitmap ps)
  files : ∀ i path m, W.ReadsTable i path → s.files path = some m →
    ∃ b, W.objects (W.readers i).store path = some b ∧ W.lib.readDeletes path b = .ok m

lemma Sound.empty : W.Sound {} where
  cell _ _ h := by cases h
  merged _ _ _ _ h := by cases h
  files _ _ _ _ h := by cases h

lemma Sound.evict {s' : DeleteCaches} (hs : W.Sound s) (h : Evicts s s') : W.Sound s' where
  cell i bm hcell := hs.cell i bm (h.cell i bm hcell)
  merged i key ps hkey hmerged := hs.merged i key ps hkey (h.merged key ps hmerged)
  files i path m hreads hfile := hs.files i path m hreads (h.files path m hfile)

lemma Sound.fetchDeletesMap (hkeys : W.KeysTell) (hs : W.Sound s) (hreads : W.ReadsTable i path) :
    W.Sound (W.fetchDeletesMap faults (W.readers i) path s).2 := by
  rw [DeleteWorld.fetchDeletesMap]
  cases hcached : s.files path with
  | some m => exact hs
  | none =>
    cases hread : (W.getObject faults (W.readers i) path).bind (W.lib.readDeletes path) with
    | error e => exact hs
    | ok m =>
      refine ⟨hs.cell, hs.merged, fun j path' m' hj hfile => ?_⟩
      by_cases hpath : path' = path
      · subst hpath
        obtain rfl : m = m' := by simpa using hfile
        obtain ⟨b, hb, hm⟩ := Failing.exists_of_bind_eq_ok hread
        exact ⟨b, (hkeys.objects j i path' hj hreads).trans (getObject_eq_ok hb), hm⟩
      · exact hs.files j path' m' hj (by simpa [Function.update_of_ne hpath] using hfile)

lemma Sound.readPositionFile (hkeys : W.KeysTell) (hs : W.Sound s)
    (hd : d ∈ (W.readers i).deleteFiles) (hcontent : d.content = .position) :
    W.Sound (W.readPositionFile faults (W.readers i) d s).2 := by
  rw [readPositionFile_snd]
  split_ifs with htable
  · exact hs.fetchDeletesMap hkeys ⟨d, hd, hcontent, rfl, htable⟩
  · exact hs

lemma Sound.readPositionFiles (hkeys : W.KeysTell) (hs : W.Sound s) {ds : List DeleteFile}
    (hds : ∀ d ∈ ds, d ∈ (W.readers i).deleteFiles) :
    W.Sound (W.readPositionFiles faults (W.readers i) ds s).2 := by
  induction ds generalizing s with
  | nil => exact hs
  | cons d ds ih =>
    have hrest : ∀ d ∈ ds, d ∈ (W.readers i).deleteFiles := fun d hd =>
      hds d (List.mem_cons_of_mem _ hd)
    rw [DeleteWorld.readPositionFiles]
    cases hcontent : d.content with
    | position => exact ih (hs.readPositionFile hkeys (hds d List.mem_cons_self) hcontent) hrest
    | equality ids => exact ih hs hrest
    | deletionVector puffin offset size => exact ih hs hrest

/-- A table that can be read gives its content. -/
lemma Sound.fetchDeletesMap_eq_ok (hs : W.Sound s) (hreads : W.ReadsTable i path)
    (h : (s.files path).isSome = true ∨ ∃ b, W.getObject faults (W.readers i) path = .ok b ∧
      W.lib.WellFormed path b) :
    ∃ b m, W.objects (W.readers i).store path = some b ∧ W.lib.readDeletes path b = .ok m ∧
      (W.fetchDeletesMap faults (W.readers i) path s).1 = .ok m := by
  rw [DeleteWorld.fetchDeletesMap]
  cases hcached : s.files path with
  | some m =>
    obtain ⟨b, hb, hm⟩ := hs.files i path m hreads hcached
    exact ⟨b, m, hb, hm, rfl⟩
  | none =>
    obtain ⟨b, hb, hform⟩ := h.resolve_left (by simp [hcached])
    obtain ⟨m, hm⟩ := hform.exists_readDeletes
    refine ⟨b, m, getObject_eq_ok hb, hm, ?_⟩
    rw [hb, show (Except.ok b).bind (W.lib.readDeletes path) = .ok m from hm]

lemma mem_bits_iff {bits : Finset ℕ} : (∃ k ∈ bits, (k : ℤ) = n) ↔ n ∈ bits := by
  simp

/-- A file that can be read gives the positions it has under a path that matches. -/
lemma Sound.mem_taken (hs : W.Sound s) (hd : d ∈ (W.readers i).deleteFiles)
    (h : W.Readable faults (W.readers i) s d) :
    n ∈ W.taken faults (W.readers i) s d ↔ n < 2 ^ 32 ∧ W.HoldsFor (W.readers i)
      (fun fp => namesTarget fp (stripScheme (W.readers i).targetPath) = true) d n := by
  cases hcontent : d.content with
  | equality ids => simp [taken, HoldsFor, readDeletionVector, hcontent]
  | deletionVector puffin offset size =>
    simp only [Readable, hcontent] at h
    obtain ⟨b, bits, hb, hbits⟩ := h
    simp only [taken, HoldsFor, readDeletionVector, hcontent, hb, getRange_eq_ok hb, Except.bind,
      hbits, Option.some.injEq, exists_and_left, exists_eq_left', Except.ok.injEq, mem_bits_iff]
    exact ⟨fun hn => ⟨W.lib.bitmap_lt b bits hbits n hn, hn⟩, And.right⟩
  | position =>
    simp only [Readable, hcontent] at h
    simp only [taken, HoldsFor, hcontent, DeleteWorld.readPositionFile]
    split_ifs at h ⊢ with htable
    · obtain ⟨b, m, hb, hm, hfetch⟩ :=
        hs.fetchDeletesMap_eq_ok ⟨d, hd, hcontent, rfl, htable⟩ h
      obtain ⟨s', hfetch⟩ : ∃ s', W.fetchDeletesMap faults (W.readers i)
          (resolveDeletePath (W.readers i).rootUri d.filePath) s = (.ok m, s') :=
        ⟨_, Prod.ext hfetch rfl⟩
      rw [hfetch]
      simp only [FileDeletes.toBits, mem_filterMapToBitmap]
      simp only [hb, Option.some.injEq, exists_and_left, exists_eq_left',
        ← DeleteLib.has_readDeletes hm, DeleteMap.Has]
      refine and_congr_right fun _ => ?_
      constructor
      · rintro ⟨x, hx, hname, hpos⟩
        exact ⟨x.1, ⟨x.2, hx, hpos⟩, hname⟩
      · rintro ⟨fp, ⟨ps, hx, hpos⟩, hname⟩
        exact ⟨(fp, ps), hx, hname, hpos⟩
    · obtain ⟨b, bits, hb, hbits⟩ := h
      simp only [hb, getObject_eq_ok hb, Except.bind, hbits, FileDeletes.toBits,
        Option.some.injEq, exists_and_left, exists_eq_left', Except.ok.injEq, mem_bits_iff]
      exact ⟨fun hn => ⟨W.lib.bitmap_lt b bits hbits n hn, hn⟩, And.right⟩

/-! ### Calls -/

lemma fetchDeletesMap_frame :
    (W.fetchDeletesMap faults c path s).2.cell = s.cell ∧
      (W.fetchDeletesMap faults c path s).2.merged = s.merged := by
  rw [DeleteWorld.fetchDeletesMap]
  cases s.files path with
  | some m => exact ⟨rfl, rfl⟩
  | none =>
    cases (W.getObject faults c path).bind (W.lib.readDeletes path) <;> exact ⟨rfl, rfl⟩

lemma readPositionFile_frame :
    (W.readPositionFile faults c d s).2.cell = s.cell ∧
      (W.readPositionFile faults c d s).2.merged = s.merged := by
  rw [readPositionFile_snd]
  split_ifs
  · exact fetchDeletesMap_frame
  · exact ⟨rfl, rfl⟩

/-- Reading the files changes only the cache of their contents. -/
lemma readPositionFiles_frame (ds : List DeleteFile) :
    (W.readPositionFiles faults c ds s).2.cell = s.cell ∧
      (W.readPositionFiles faults c ds s).2.merged = s.merged := by
  induction ds generalizing s with
  | nil => exact ⟨rfl, rfl⟩
  | cons d ds ih =>
    rw [DeleteWorld.readPositionFiles]
    cases d.content with
    | position =>
      obtain ⟨hcell, hmerged⟩ := @readPositionFile_frame β W faults c s d
      exact ⟨ih.1.trans hcell, ih.2.trans hmerged⟩
    | equality ids => exact ih
    | deletionVector puffin offset size => exact ih

/-- A call that reads the delete files returns their union, and caches it. -/
lemma load_of_misses (h : W.Misses i s) :
    ∃ bm s', W.loadMergedDeletes faults i s = (.ok bm, s') ∧
      (∀ n, n ∈ bm ↔ ∃ d ∈ (W.readers i).uniqueDeleteFiles,
        n ∈ W.taken faults (W.readers i) s d) ∧
      s'.cell = Function.update s.cell i (some bm) ∧
      s'.files = (W.readPositionFiles faults (W.readers i)
        (W.readers i).uniqueDeleteFiles s).2.files ∧
      ∀ key ps, s'.merged key = some ps → s.merged key = some ps ∨
        ((W.readers i).mergedDeletesCacheKey = some key ∧ ps = bm.image Nat.cast) := by
  obtain ⟨hcell, hmerged⟩ := h
  obtain ⟨hcell', hmerged'⟩ := @readPositionFiles_frame β W faults (W.readers i) s
    (W.readers i).uniqueDeleteFiles
  simp only [loadMergedDeletes, hcell, loadMergedDeletesInner, hmerged]
  cases hkey : (W.readers i).mergedDeletesCacheKey with
  | none =>
    refine ⟨_, _, rfl, fun n => mem_mergeDeletes_readPositionFiles, ?_, rfl, ?_⟩
    · rw [hcell']
    · intro key ps hps
      exact .inl (hmerged' ▸ hps)
  | some key =>
    refine ⟨_, _, rfl, fun n => mem_mergeDeletes_readPositionFiles, ?_, rfl, ?_⟩
    · rw [hcell']
    · intro key' ps hps
      by_cases hne : key' = key
      · subst hne
        refine .inr ⟨rfl, ?_⟩
        simpa using hps.symm
      · refine .inl ?_
        simpa [Function.update_of_ne hne, hmerged'] using hps

/-- A call that reads no files returns what is cached. -/
lemma load_of_not_misses (hs : W.Sound s) (h : ¬ W.Misses i s) :
    ∃ bm s', W.loadMergedDeletes faults i s = (.ok bm, s') ∧ W.Contains i bm ∧ W.Sound s' := by
  cases hcell : s.cell i with
  | some bm => exact ⟨bm, s, by simp only [loadMergedDeletes, hcell], hs.cell i bm hcell, hs⟩
  | none =>
    cases hmerged : (W.readers i).mergedDeletesCacheKey.bind s.merged with
    | none => exact absurd ⟨hcell, hmerged⟩ h
    | some ps =>
      obtain ⟨key, hkey, hps⟩ := Option.bind_eq_some_iff.1 hmerged
      have hall : W.Contains i (toBitmap ps) := hs.merged i key ps hkey hps
      refine ⟨toBitmap ps, { s with cell := Function.update s.cell i (some (toBitmap ps)) },
        by simp only [loadMergedDeletes, hcell, loadMergedDeletesInner, hmerged], hall,
        fun j bm hj => ?_, hs.merged, hs.files⟩
      by_cases hji : j = i
      · subst hji
        obtain rfl : toBitmap ps = bm := by simpa using hj
        exact hall
      · exact hs.cell j bm (by simpa [Function.update_of_ne hji] using hj)

/-- A careful call reads all that is recorded. -/
lemma Careful.contains (hcall : W.Careful faults i s) (hs : W.Sound s) (hmiss : W.Misses i s)
    {bm : Finset ℕ} (hbm : ∀ n, n ∈ bm ↔ ∃ d ∈ (W.readers i).uniqueDeleteFiles,
      n ∈ W.taken faults (W.readers i) s d) : W.Contains i bm := by
  intro n hn
  obtain ⟨hread, hrecorded⟩ := hcall hmiss
  obtain ⟨h0, hlt, d, hd, hholds⟩ := hrecorded n hn
  lift n to ℕ using h0
  have hmem : d ∈ (W.readers i).deleteFiles := mem_deleteFiles_of_mem_unique hd
  refine ⟨by omega, (hbm n).2 ⟨d, hd, (hs.mem_taken hmem (hread d hmem)).2 ⟨?_, hholds⟩⟩⟩
  exact_mod_cast hlt

/-- The positions that are cached for a bitmap give it back. -/
lemma Contains.toBitmap_image {bm : Finset ℕ} (h : W.Contains i bm)
    (hlt : ∀ n, W.Recorded i n → n < 2 ^ 32) : W.Contains i (toBitmap (bm.image Nat.cast)) := by
  intro n hn
  obtain ⟨h0, hmem⟩ := h n hn
  refine ⟨h0, Finset.mem_image.2 ⟨n, Finset.mem_filter.2 ⟨?_, h0, hlt n hn⟩, rfl⟩⟩
  exact Finset.mem_image.2 ⟨n.toNat, hmem, Int.toNat_of_nonneg h0⟩

lemma Sound.load (hkeys : W.KeysTell) (hs : W.Sound s) (hcall : W.Careful faults i s) :
    W.Sound (W.loadMergedDeletes faults i s).2 := by
  by_cases hmiss : W.Misses i s
  · obtain ⟨bm, s', hload, hbm, hcell, hfiles, hmerged⟩ := @load_of_misses β W faults s i hmiss
    have hall : W.Contains i bm := hcall.contains hs hmiss hbm
    rw [hload]
    refine ⟨fun j bm' hj => ?_, fun j key ps hkey hps => ?_, ?_⟩
    · change s'.cell j = some bm' at hj
      rw [hcell] at hj
      by_cases hji : j = i
      · subst hji
        obtain rfl : bm = bm' := by simpa using hj
        exact hall
      · exact hs.cell j bm' (by simpa [Function.update_of_ne hji] using hj)
    · rcases hmerged key ps hps with hold | ⟨hi, rfl⟩
      · exact hs.merged j key ps hkey hold
      · -- the reader `j` has the key of `i`, so nothing is recorded for it alone
        have hcached := hall.toBitmap_image fun n hn => ((hcall hmiss).2 n hn).2.1
        exact fun n hn => hcached n (hkeys.recorded j i key hkey hi n hn)
    · intro j path m hreads hfile
      change s'.files path = some m at hfile
      rw [hfiles] at hfile
      have hread : W.Sound (W.readPositionFiles faults (W.readers i)
          (W.readers i).uniqueDeleteFiles s).2 :=
        hs.readPositionFiles hkeys fun d => mem_deleteFiles_of_mem_unique
      exact hread.files j path m hreads hfile
  · obtain ⟨bm, s', hload, -, hs'⟩ := @load_of_not_misses β W faults s i hs hmiss
    rw [hload]
    exact hs'

lemma Reachable.sound (hkeys : W.KeysTell) (hs : W.Reachable s) : W.Sound s := by
  induction hs with
  | start => exact Sound.empty
  | load i faults _ hcall ih => exact ih.load hkeys hcall
  | evict _ h ih => exact ih.evict h

/-- In a run of careful calls, the next one fails closed exactly if it is careful too. -/
theorem failsClosed_iff (W : DeleteWorld β) (hkeys : W.KeysTell) (s : DeleteCaches)
    (hs : W.Reachable s) (faults : DeleteFaults) (i : ℕ) :
    W.FailsClosed faults i s ↔ W.Careful faults i s := by
  have hsound := hs.sound hkeys
  by_cases hmiss : W.Misses i s
  · obtain ⟨bm, s', hload, hbm, -⟩ := @load_of_misses β W faults s i hmiss
    constructor
    · rintro ⟨hok, herr⟩ -
      have hread : ∀ d ∈ (W.readers i).deleteFiles, W.Readable faults (W.readers i) s d := by
        intro d hd
        by_contra hnot
        -- the call returns a bitmap whether or not the file can be read
        obtain ⟨⟨e, he⟩, -⟩ := herr hmiss ⟨d, hd, hnot⟩
        rw [hload] at he
        cases he
      refine ⟨hread, fun n hn => ?_⟩
      obtain ⟨h0, hmem⟩ := hok bm (by rw [hload]) n hn
      lift n to ℕ using h0
      obtain ⟨d, hd, htaken⟩ := (hbm n).1 hmem
      have hattached := mem_deleteFiles_of_mem_unique hd
      obtain ⟨hlt, hholds⟩ := (hsound.mem_taken hattached (hread d hattached)).1 htaken
      exact ⟨by omega, by exact_mod_cast hlt, d, hd, hholds⟩
    · intro hcall
      refine ⟨fun bm' hbm' => ?_, fun _ ⟨d, hd, hnot⟩ => absurd ((hcall hmiss).1 d hd) hnot⟩
      rw [hload] at hbm'
      obtain rfl : bm = bm' := Except.ok.inj hbm'
      exact hcall.contains hsound hmiss hbm
  · obtain ⟨bm, s', hload, hall, -⟩ := @load_of_not_misses β W faults s i hsound hmiss
    refine iff_of_true ⟨fun bm' hbm' => ?_, fun h => absurd h hmiss⟩ fun h => absurd h hmiss
    rw [hload] at hbm'
    exact Except.ok.inj hbm' ▸ hall

/-- The deletion vector of the file `p`. -/
def oneDelete : DeleteFile where
  filePath := ['v']
  content := .deletionVector ['v'] 0 1
  fileSizeBytes := 1
  recordCount := 1
  partitionValues := ∅

/-- Decoders of bytes that are the bitmap. -/
def plainLib : DeleteLib (Finset ℕ) where
  avro _ := .error "not Avro"
  parquet _ := .error "not Parquet"
  bitmap b := .ok (b.filter fun n => n < 2 ^ 32)
  bitmap_lt b bits h n hn := by
    obtain rfl := Except.ok.inj h
    exact (Finset.mem_filter.1 hn).2

/-- Readers of the segment `p`, whose row 3 is deleted. -/
def vectorWorld : DeleteWorld (Finset ℕ) where
  lib := plainLib
  objects _ _ := none
  ranges _ _ _ _ := some {3}
  readers _ := ⟨0, [], some ['p'], [], [], [oneDelete]⟩

lemma vectorWorld_keysTell : vectorWorld.KeysTell where
  recorded _ _ _ _ _ _ h := h
  objects _ _ _ _ _ := rfl

lemma vectorWorld_holdsFor {j : ℕ} {names : Path → Prop} {k : ℤ} :
    vectorWorld.HoldsFor (vectorWorld.readers j) names oneDelete k ↔ k = 3 := by
  have hbits : vectorWorld.lib.bitmap {3} = .ok {3} := rfl
  constructor
  · rintro ⟨b, bits, hb, hdecode, m, hm, rfl⟩
    obtain rfl : {3} = b := Option.some.inj hb
    obtain rfl : {3} = bits := Except.ok.inj (hbits.symm.trans hdecode)
    rw [Finset.mem_singleton.1 hm]
    rfl
  · rintro rfl
    exact ⟨{3}, {3}, rfl, hbits, 3, Finset.mem_singleton_self 3, rfl⟩

lemma vectorWorld_recorded {j : ℕ} {k : ℤ} : vectorWorld.Recorded j k ↔ k = 3 := by
  constructor
  · rintro ⟨d, hd, h⟩
    obtain rfl : d = oneDelete := List.mem_singleton.1 hd
    exact vectorWorld_holdsFor.1 h
  · intro h
    exact ⟨oneDelete, List.mem_singleton_self _, vectorWorld_holdsFor.2 h⟩

lemma vectorWorld_careful {j : ℕ} {s : DeleteCaches} : vectorWorld.Careful {} j s := by
  refine fun _ => ⟨fun d hd => ?_, fun k hk => ?_⟩
  · obtain rfl : d = oneDelete := List.mem_singleton.1 hd
    exact ⟨{3}, {3}, rfl, rfl⟩
  · obtain rfl := vectorWorld_recorded.1 hk
    exact ⟨by decide, by decide, oneDelete, List.mem_singleton_self _, vectorWorld_holdsFor.2 rfl⟩

theorem failsClosed_iff_vectorWorld :
    vectorWorld.KeysTell ∧ vectorWorld.Reachable (vectorWorld.loadMergedDeletes {} 0 {}).2 ∧
      vectorWorld.FailsClosed {} 1 (vectorWorld.loadMergedDeletes {} 0 {}).2 := by
  have hs := Reachable.load 0 {} (Reachable.start (W := vectorWorld)) vectorWorld_careful
  exact ⟨vectorWorld_keysTell, hs,
    (failsClosed_iff vectorWorld vectorWorld_keysTell _ hs {} 1).2 vectorWorld_careful⟩

/-- The store fails once. -/
def rangeFault : DeleteFaults where
  getRange _ _ _ := some "timeout"

/-- One failed read makes the deleted row visible, also for later calls of the same and of another
reader that would find the file. -/
theorem not_failsClosed :
    vectorWorld.Recorded 0 3 ∧ vectorWorld.Recorded 1 3 ∧
      ¬ vectorWorld.FailsClosed rangeFault 0 {} ∧
      (vectorWorld.loadMergedDeletes rangeFault 0 {}).1 = .ok ∅ ∧
      (vectorWorld.loadMergedDeletes {} 0
        (vectorWorld.loadMergedDeletes rangeFault 0 {}).2).1 = .ok ∅ ∧
      (vectorWorld.loadMergedDeletes {} 1
        (vectorWorld.loadMergedDeletes rangeFault 0 {}).2).1 = .ok ∅ := by
  have hload : (vectorWorld.loadMergedDeletes rangeFault 0 {}).1 = .ok ∅ := by rfl
  refine ⟨vectorWorld_recorded.2 rfl, vectorWorld_recorded.2 rfl, ?_, hload, by rfl, by rfl⟩
  rintro ⟨hok, -⟩
  exact Finset.notMem_empty _ (hok ∅ hload 3 (vectorWorld_recorded.2 rfl)).2

end DeleteWorld

end BenoStreamDB

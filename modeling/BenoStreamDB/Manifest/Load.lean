import BenoStreamDB.Manifest.Types

/-!
# Manifest storage and loading

The objects of the manifest directory and the functions of `manifest/manager/load.rs` that turn
a manifest into the map of its live entries.

A manifest file stores the partition values of its objects as records, in the order of the fields
of the spec that was current when it was written, and they are named after the fields of the spec
that is current when it is read. An entry that is read under the field names under which it was
written is taken to be read as it was written; `Table.SpecEvolution` has the records themselves.
The column statistics, which are decoded with the current schema, are in `Table.MetadataFrame`.

Manifest lists and Avro manifest files carry a fresh UUID in their names, are written once and
are never removed (`vacuum` skips everything in `_manifest/` but `v{N}.json`), so the caches in
front of them return what the store holds, under the names with which it was read first, and are
left out here. The caches of `v{N}.json` are in `Manifest.Caches`.
-/

namespace BenoStreamDB

/-- Iceberg entry status: 0 = existing, 1 = added, 2 = deleted. -/
inductive IcebergStatus where
  | existing
  | added
  | deleted
  deriving DecidableEq

inductive IcebergObject where
  | data (e : ManifestEntry)
  | delete (d : DeleteFile)
  deriving DecidableEq

structure IcebergEntry where
  status : IcebergStatus
  object : IcebergObject
  deriving DecidableEq

/-- An Avro manifest file: its objects, and the partition spec under which they were written. -/
structure AvroManifest where
  spec : PartitionSpec
  entries : List IcebergEntry
  deriving DecidableEq

lemma versions_pos_empty : ∀ v ∈ (∅ : Finmap fun _ : ℕ => Manifest), 0 < v := by
  simp [Finmap.notMem_empty]

lemma lists_lt_empty :
    ∀ n ∈ (∅ : Finmap fun _ : ListName => List ManifestListEntry), n.uuid < 0 := by
  simp [Finmap.notMem_empty]

lemma files_lt_empty :
    ∀ n ∈ (∅ : Finmap fun _ : ManifestFileName => AvroManifest), n.uuid < 0 := by
  simp [Finmap.notMem_empty]

/-- The manifest directory. The first version is 1. UUIDs are drawn from a counter that is above
every UUID in use, which is what makes a new one fresh. -/
structure ManifestStore where
  versions : Finmap (fun _ : ℕ => Manifest) := ∅
  lists : Finmap (fun _ : ListName => List ManifestListEntry) := ∅
  files : Finmap (fun _ : ManifestFileName => AvroManifest) := ∅
  nextUuid : Uuid := 0
  versions_pos : ∀ v ∈ versions, 0 < v := by exact versions_pos_empty
  lists_lt : ∀ n ∈ lists, n.uuid < nextUuid := by exact lists_lt_empty
  files_lt : ∀ n ∈ files, n.uuid < nextUuid := by exact files_lt_empty
  deriving DecidableEq

inductive LoadError where
  | listNotFound (n : ListName)
  | fileNotFound (n : ManifestFileName)
  | versionNotFound (v : ℕ)
  deriving DecidableEq

/-! ### Partition records -/

def PartitionSpec.names (spec : PartitionSpec) : List String := spec.fields.map PartitionField.name

/-- The value of a field in a partition record. -/
def fieldValue (pv : PartitionValues) (field : PartitionField) : Value :=
  (pv.lookup field.name).getD .null

/-- The values of a partition record under the names of the spec's fields: none unless the record
has as many values as the spec has fields. -/
def PartitionSpec.recordValues (spec : PartitionSpec) (record : List Value) : PartitionValues :=
  if record ≠ [] ∧ spec.fields.length = record.length then
    (spec.fields.zip record).foldl (fun pv x => pv.insert x.1.name x.2) ∅
  else ∅

/-- The partition values that are read under the spec `current` for those that were written under
the spec `written`. -/
def readValues (written current : PartitionSpec) (pv : PartitionValues) : PartitionValues :=
  if current.names = written.names then pv
  else current.recordValues (written.fields.map (fieldValue pv))

section Names

variable {spec spec' : PartitionSpec}

lemma PartitionSpec.recordValues_congr (hnames : spec'.names = spec.names) (record : List Value) :
    spec'.recordValues record = spec.recordValues record := by
  have hfold : ∀ fields : List PartitionField,
      (fields.zip record).foldl (fun pv x => pv.insert x.1.name x.2) (∅ : PartitionValues) =
        ((fields.map PartitionField.name).zip record).foldl (fun pv x => pv.insert x.1 x.2) ∅ := by
    intro fields
    rw [List.zip_map_left, List.foldl_map]
    rfl
  have hlength : spec'.fields.length = spec.fields.length := by
    simpa [names] using congrArg List.length hnames
  rw [recordValues, recordValues, hlength, hfold, hfold, ← names, hnames]
  rfl

/-- Only the names of the fields matter for what is read. -/
lemma readValues_congr (hnames : spec'.names = spec.names) (written : PartitionSpec)
    (pv : PartitionValues) : readValues written spec' pv = readValues written spec pv := by
  rw [readValues, readValues, hnames, PartitionSpec.recordValues_congr hnames]

end Names

/-! ### Avro manifest files -/

def IcebergObject.readAs (written current : PartitionSpec) : IcebergObject → IcebergObject
  | .data e => .data { e with partitionValues := readValues written current e.partitionValues }
  | .delete d => .delete { d with partitionValues := readValues written current d.partitionValues }

/-- The content of a manifest file as it is read under a spec. -/
def AvroManifest.read (spec : PartitionSpec) (file : AvroManifest) : List IcebergEntry :=
  file.entries.map fun ie => { ie with object := ie.object.readAs file.spec spec }

/-- Push a delete file unless its path is already listed. -/
def pushNewDelete (acc : List DeleteFile) (d : DeleteFile) : List DeleteFile :=
  if d.filePath ∈ acc.map DeleteFile.filePath then acc else acc ++ [d]

/-- The objects with status existing or added. -/
def liveObjects (content : List IcebergEntry) : List IcebergObject :=
  (content.filter fun ie => ie.status ≠ .deleted).map IcebergEntry.object

/-- The deduplicated delete list of one Avro manifest. -/
def avroDeleteFiles (rootUri : Path) (content : List IcebergEntry) : List DeleteFile :=
  ((liveObjects content).flatMap fun
    | .data e => e.deleteFiles
    | .delete d => [{ d with filePath := relativizeFilePath rootUri d.filePath }]).foldl
      pushNewDelete []

/-- The delete files that apply to a partition. -/
def deletesOf (deletes : List DeleteFile) (pv : PartitionValues) : List DeleteFile :=
  deletes.filter fun d => pv = d.partitionValues

/-- The data entries of `load_avro_manifest_static`. -/
def loadAvroManifest (rootUri : Path) (spec : PartitionSpec) (file : AvroManifest) :
    List ManifestEntry :=
  let content := file.read spec
  (liveObjects content).filterMap fun
    | .data e => some
        { e with
          filePath := relativizeFilePath rootUri e.filePath
          deleteFiles := deletesOf (avroDeleteFiles rootUri content) e.partitionValues }
    | .delete _ => none

/-! ### Manifest lists -/

/-- The order in which a set of concurrent futures completes. -/
structure Arrival (α : Type*) where
  order : List α → List α
  perm : ∀ l, (order l).Perm l

/-- Futures that complete in the order they were started. -/
def Arrival.fifo (α : Type*) : Arrival α := ⟨id, fun _ => List.Perm.refl _⟩

namespace ManifestStore

def loadManifestList (s : ManifestStore) (n : ListName) :
    Except LoadError (List ManifestListEntry) :=
  match s.lists.lookup n with
  | some files => .ok files
  | none => .error (.listNotFound n)

def loadManifestFile (s : ManifestStore) (rootUri : Path) (spec : PartitionSpec)
    (f : ManifestListEntry) : Except LoadError (List ManifestEntry) :=
  match s.files.lookup f.manifestPath with
  | some file => .ok (loadAvroManifest rootUri spec file)
  | none => .error (.fileNotFound f.manifestPath)

/-- Load the given manifest files one after the other and concatenate their entries. -/
def loadManifestFiles (s : ManifestStore) (rootUri : Path) (spec : PartitionSpec) :
    List ManifestListEntry → Except LoadError (List ManifestEntry)
  | [] => .ok []
  | f :: fs => do
    let es ← s.loadManifestFile rootUri spec f
    let rest ← s.loadManifestFiles rootUri spec fs
    return es ++ rest

/-- Step 1 of `load_all_entries`: the entries found through the manifest list, in the order the
manifest files arrive. -/
def listedEntries (s : ManifestStore) (rootUri : Path) (arrival : Arrival ManifestListEntry)
    (m : Manifest) : Except LoadError (List ManifestEntry) :=
  match m.manifestListPath with
  | none => .ok []
  | some n => do
    let files ← s.loadManifestList n
    s.loadManifestFiles rootUri m.partitionSpec (arrival.order files)

end ManifestStore

def relativizeEntry (rootUri : Path) (e : ManifestEntry) : ManifestEntry :=
  { e with filePath := relativizeFilePath rootUri e.filePath }

/-- Step 3 of `load_all_entries`: rebuild the per-entry delete lists from the global one, unless
the global one is empty. -/
def attachDeletes (deletes : List DeleteFile) (map : EntryMap) : EntryMap :=
  if deletes = [] then map
  else map.mapValues (fun e => { e with deleteFiles := deletesOf deletes e.partitionValues })
    fun _ => rfl

/-- `load_all_entries`. The source returns the values of the map as a vector in hash order; every
caller collects them into a map by `file_path` again. -/
def ManifestStore.loadAllEntries (s : ManifestStore) (rootUri : Path)
    (arrival : Arrival ManifestListEntry) (m : Manifest) : Except LoadError EntryMap := do
  let listed ← s.listedEntries rootUri arrival m
  let entryMap : EntryMap := KeyedMap.ofList listed
  let entryMap := entryMap.insertAll (m.entries.map (relativizeEntry rootUri))
  return attachDeletes m.deleteFiles entryMap

end BenoStreamDB

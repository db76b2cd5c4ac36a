import BenoStreamDB.Manifest.Iceberg
import BenoStreamDB.Query.Partitioning
import BenoStreamDB.Table.Rows

/-!
# Changes of the partition spec

A data manifest stores the partition values of a file as a record, one value for each field of the
table's partition spec, and a reader gives the values the names of the fields of the spec that is
current when it reads (`iceberg/writer.rs`, `iceberg/manifest.rs`). A delete file is attached to the
data files with the same partition values (`manifest/manager/load.rs`). The delete files themselves
are listed in the JSON manifest, with the names under which they were written.

`update_spec` (`table/schema.rs`) and `update_partition_spec` (`manifest/manager/partition.rs`)
change the spec of a table that has data. If the new spec has the same field names in the same
order, or the table has no data files, and all writers use the names of the current spec, then all
files keep their partition values and their delete files: `preserved_of_reachable`. Otherwise the
values get other names, and deleted rows are visible again: `rowsOf_regionDay`.

The paths of data files are taken relative to the table, see `Manifest.Representation`. The column
statistics and the order in which manifest files are read are left out.
-/

namespace BenoStreamDB

/-! ### Partition records -/

/-- A value of an Avro record. -/
inductive AvroValue where
  | null
  | boolean (b : Bool)
  | int (i : ℤ)
  | long (i : ℤ)
  | double (x : Double)
  | string (s : String)
  deriving DecidableEq

/-- `json_to_avro_value` -/
def Value.toAvro : Value → AvroValue
  | .null => .null
  | .bool b => .boolean b
  | .int i =>
    if IsSigned 64 i then if IsSigned 32 i then .int i else .long i
    else .double (Double.ofInt i)
  | .real q => .double (.num q)
  | .string s => .string s

/-- `avro_to_json` -/
def AvroValue.toJson : AvroValue → Value
  | .null => .null
  | .boolean b => .bool b
  | .int i | .long i => .int i
  | .double x => .ofDouble x
  | .string s => .string s

/-- All values but integers that do not fit into 64 bits are stored exactly. -/
def Value.Storable (v : Value) : Prop := ∀ i, v = .int i → IsSigned 64 i

lemma Value.toJson_toAvro {v : Value} (h : v.Storable) : v.toAvro.toJson = v := by
  cases v with
  | int i =>
    rw [Value.toAvro, if_pos (h i rfl)]
    split_ifs <;> rfl
  | _ => rfl

/-- Avro: the value that a reader finds for a written one, or none if the type of the field does
not have it. -/
structure AvroLib where
  write : PartitionField → AvroValue → Option AvroValue
  toJson_of_write : ∀ {field v v'}, write field v = some v' → v'.toJson = v.toJson

/-- The values have the names of the spec's fields and can be stored. -/
structure PartitionSpec.Fits (spec : PartitionSpec) (pv : PartitionValues) : Prop where
  mem_iff : ∀ name, name ∈ pv ↔ name ∈ spec.names
  storable : ∀ name v, pv.lookup name = some v → v.Storable

/-- The values of the partition record of an entry, as they are read again. -/
def partitionRecord (A : AvroLib) (pv : PartitionValues) :
    List PartitionField → Option (List Value)
  | [] => some []
  | field :: fields => do
    let v ← A.write field (fieldValue pv field).toAvro
    let vs ← partitionRecord A pv fields
    return v.toJson :: vs

/-- The record of an entry in `write_manifest_chunks`. -/
def ManifestEntry.toRecord (A : AvroLib) (spec : PartitionSpec) (e : ManifestEntry) :
    Option IcebergDataFile := do
  let values ← partitionRecord A e.partitionValues spec.fields
  return {
    content := 0
    filePath := e.filePath
    partition := values
    recordCount := e.recordCount
    fileSizeInBytes := e.fileSizeBytes
    indexFiles := e.indexFiles
    firstRowId := e.firstRowId }

section Codec

variable {A : AvroLib} {spec spec' : PartitionSpec} {pv : PartitionValues}

lemma PartitionSpec.Fits.congr (h : spec.Fits pv) (hnames : spec'.names = spec.names) :
    spec'.Fits pv :=
  ⟨fun name => by rw [h.mem_iff, hnames], h.storable⟩

lemma PartitionSpec.Fits.storable_fieldValue (h : spec.Fits pv) (field : PartitionField) :
    (fieldValue pv field).Storable := by
  rw [fieldValue]
  cases hlookup : pv.lookup field.name with
  | none =>
    intro i hi
    cases hi
  | some v => exact h.storable _ v hlookup

lemma partitionRecord_eq (hfits : spec.Fits pv) {fields : List PartitionField} {vs : List Value}
    (h : partitionRecord A pv fields = some vs) : vs = fields.map (fieldValue pv) := by
  induction fields generalizing vs with
  | nil => exact (Option.some.inj h).symm
  | cons field fields ih =>
    cases hv : A.write field (fieldValue pv field).toAvro with
    | none => simp [partitionRecord, hv] at h
    | some v =>
      cases hvs : partitionRecord A pv fields with
      | none => simp [partitionRecord, hv, hvs] at h
      | some rest =>
        obtain rfl : v.toJson :: rest = vs := by simpa [partitionRecord, hv, hvs] using h
        rw [A.toJson_of_write hv, Value.toJson_toAvro (hfits.storable_fieldValue field), ih hvs,
          List.map_cons]

/-- Naming the values of a map by its own keys gives the map. -/
lemma valuesOf_map_fieldValue (hfits : spec.Fits pv) :
    PartitionSpec.valuesOf spec.fields (spec.fields.map (fieldValue pv)) = pv := by
  have hlookup : ∀ (fields : List PartitionField) (name : String),
      (PartitionSpec.valuesOf fields (fields.map (fieldValue pv))).lookup name =
        if name ∈ fields.map PartitionField.name then some ((pv.lookup name).getD .null)
        else none := by
    intro fields name
    rw [PartitionSpec.valuesOf]
    -- the fold inserts from the left, so the induction is on the list from its end
    induction fields using List.reverseRecOn with
    | nil => rfl
    | append_singleton fields field ih =>
      rw [List.map_append, List.zip_append (by simp), List.foldl_append, List.map_append]
      by_cases hname : field.name = name
      · subst hname
        simp [fieldValue]
      · simp [Finmap.lookup_insert_of_ne _ (Ne.symm hname), ih, Ne.symm hname]
  refine Finmap.ext_lookup fun name => ?_
  rw [hlookup, ← PartitionSpec.names]
  by_cases hmem : name ∈ pv
  · obtain ⟨v, hv⟩ := Option.isSome_iff_exists.1 (Finmap.lookup_isSome.2 hmem)
    rw [if_pos ((hfits.mem_iff name).1 hmem), hv, Option.getD_some]
  · rw [if_neg fun h => hmem ((hfits.mem_iff name).2 h), Finmap.lookup_eq_none.2 hmem]

lemma PartitionSpec.recordValues_eq_valuesOf {record : List Value}
    (h : record.length = spec.fields.length) :
    spec.recordValues record = PartitionSpec.valuesOf spec.fields record := by
  rw [recordValues]
  split_ifs with hif
  · rfl
  · have hnil : record = [] := by
      by_contra hne
      exact hif ⟨hne, h.symm⟩
    simp [valuesOf, hnil]

/-- What is read for a record is what `Manifest.Load` takes for the entry. -/
lemma ManifestEntry.toManifestEntry_toRecord {e : ManifestEntry} {df : IcebergDataFile}
    (hfits : spec.Fits e.partitionValues) (h : e.toRecord A spec = some df)
    (current : PartitionSpec) : df.toManifestEntry current =
      { e with
        partitionValues := readValues spec current e.partitionValues
        deleteFiles := [] } := by
  cases hvs : partitionRecord A e.partitionValues spec.fields with
  | none => simp [toRecord, hvs] at h
  | some vs =>
    obtain rfl := partitionRecord_eq hfits hvs
    obtain rfl : _ = df := by simpa [toRecord, hvs] using h
    have hvalues : current.recordValues (spec.fields.map (fieldValue e.partitionValues)) =
        readValues spec current e.partitionValues := by
      rw [readValues]
      split_ifs with hnames
      · rw [PartitionSpec.recordValues_congr hnames,
          PartitionSpec.recordValues_eq_valuesOf (by simp), valuesOf_map_fieldValue hfits]
      · rfl
    rw [IcebergDataFile.toManifestEntry, IcebergDataFile.partitionValues, hvalues]

/-- Only the names of the spec's fields matter for what is read. -/
lemma IcebergDataFile.toManifestEntry_congr (hnames : spec'.names = spec.names)
    (df : IcebergDataFile) : df.toManifestEntry spec' = df.toManifestEntry spec := by
  rw [toManifestEntry, toManifestEntry, partitionValues, partitionValues,
    PartitionSpec.recordValues_congr hnames]

end Codec

/-! ### Data manifests -/

/-- `load_avro_manifest_static`, if the file is not in the cache -/
def DataManifest.decode (spec : PartitionSpec) (m : DataManifest) : List ManifestEntry :=
  m.records.map (IcebergDataFile.toManifestEntry spec)

/-- The records of some entries; a value that its field does not have is an error. -/
def encodeEntries (A : AvroLib) (spec : PartitionSpec) :
    List ManifestEntry → Option (List IcebergDataFile)
  | [] => some []
  | e :: es => do
    let df ← e.toRecord A spec
    let dfs ← encodeEntries A spec es
    return df :: dfs

/-- One data manifest for each chunk. -/
def writeChunks (A : AvroLib) (spec : PartitionSpec) :
    Uuid → List (List ManifestEntry) → Option (List DataManifest)
  | _, [] => some []
  | uuid, chunk :: chunks => do
    let records ← encodeEntries A spec chunk
    let ms ← writeChunks A spec (uuid + 1) chunks
    return ⟨uuid, records⟩ :: ms

section Manifests

variable {A : AvroLib} {spec spec' : PartitionSpec}

lemma DataManifest.decode_congr (hnames : spec'.names = spec.names) (m : DataManifest) :
    m.decode spec' = m.decode spec :=
  List.map_congr_left fun df _ => df.toManifestEntry_congr hnames

lemma DataManifest.deleteFiles_of_mem_decode {m : DataManifest} {e : ManifestEntry}
    (h : e ∈ m.decode spec) : e.deleteFiles = [] := by
  obtain ⟨df, -, rfl⟩ := List.mem_map.1 h
  rfl

/-- The records of some entries are read as `load_avro_manifest_static` reads the entries. -/
lemma decode_encodeEntries {es : List ManifestEntry} {dfs : List IcebergDataFile}
    (hfits : ∀ e ∈ es, spec.Fits e.partitionValues) (h : encodeEntries A spec es = some dfs)
    (current : PartitionSpec) : dfs.map (IcebergDataFile.toManifestEntry current) =
      es.map fun e =>
        { e with
          partitionValues := readValues spec current e.partitionValues
          deleteFiles := [] } := by
  induction es generalizing dfs with
  | nil =>
    obtain rfl := Option.some.inj h
    rfl
  | cons e es ih =>
    cases hdf : e.toRecord A spec with
    | none => simp [encodeEntries, hdf] at h
    | some df =>
      cases hdfs : encodeEntries A spec es with
      | none => simp [encodeEntries, hdf, hdfs] at h
      | some rest =>
        obtain rfl : df :: rest = dfs := by simpa [encodeEntries, hdf, hdfs] using h
        rw [List.map_cons, List.map_cons, ih (fun e' he' => hfits e' (by simp [he'])) hdfs,
          ManifestEntry.toManifestEntry_toRecord (hfits e (by simp)) hdf]

/-- The two forms of a manifest file, with records and with entries, are read alike under every
spec. -/
lemma loadAvroManifest_eq_decode {es : List ManifestEntry} {dfs : List IcebergDataFile}
    (hfits : ∀ e ∈ es, spec.Fits e.partitionValues) (hcleared : ∀ e ∈ es, e.deleteFiles = [])
    (h : encodeEntries A spec es = some dfs) (rootUri : Path) (current : PartitionSpec) :
    loadAvroManifest rootUri current ⟨spec, es.map fun e => ⟨.added, .data e⟩⟩ =
      (dfs.map (IcebergDataFile.toManifestEntry current)).map (relativizeEntry rootUri) := by
  rw [(ManifestStore.unmixed_added spec hcleared).loadAvroManifest_eq,
    ManifestStore.dataEntries_added, decode_encodeEntries hfits h, List.map_map]
  rfl

/-- The manifests of some chunks hold the entries of the chunks under new names. -/
lemma decode_writeChunks {uuid : Uuid} {chunks : List (List ManifestEntry)}
    {ms : List DataManifest} (hfits : ∀ e ∈ chunks.flatten, spec.Fits e.partitionValues)
    (h : writeChunks A spec uuid chunks = some ms) :
    ms.flatMap (DataManifest.decode spec) = chunks.flatten.map ManifestEntry.clearDeletes ∧
      ms.map DataManifest.uuid = List.range' uuid ms.length := by
  induction chunks generalizing uuid ms with
  | nil =>
    obtain rfl := Option.some.inj h
    exact ⟨rfl, rfl⟩
  | cons chunk chunks ih =>
    cases hrecords : encodeEntries A spec chunk with
    | none => simp [writeChunks, hrecords] at h
    | some records =>
      cases hms : writeChunks A spec (uuid + 1) chunks with
      | none => simp [writeChunks, hrecords, hms] at h
      | some rest =>
        obtain rfl : ⟨uuid, records⟩ :: rest = ms := by
          simpa [writeChunks, hrecords, hms] using h
        rw [List.flatten_cons] at hfits
        obtain ⟨hdecode, huuids⟩ := ih (fun e he => hfits e (List.mem_append_right _ he)) hms
        refine ⟨?_, ?_⟩
        · rw [List.flatMap_cons, hdecode, List.flatten_cons, List.map_append,
            DataManifest.decode,
            decode_encodeEntries (fun e he => hfits e (List.mem_append_left _ he)) hrecords]
          simp [readValues, ManifestEntry.clearDeletes]
        · rw [List.map_cons, huuids, List.length_cons, List.range'_succ]

end Manifests

/-! ### Tables -/

/-- The newest manifest of a table, the data manifests of its manifest list, and the cache of data
manifests of a process. -/
structure SpecTable where
  /-- `partition_spec` -/
  spec : PartitionSpec
  /-- `partition_specs` -/
  specs : List PartitionSpec
  deletes : List DeleteFile
  /-- None without a manifest list. -/
  manifests : Option (List DataManifest)
  nextUuid : Uuid
  cache : Uuid → Option (List ManifestEntry)

/-- A data file that is written with the partition key `key`. -/
structure NewFile where
  path : Path
  key : List Value
  recordCount : ℤ := 0
  fileSizeBytes : ℤ := 0
  indexFiles : List IndexFile := []

/-- The entry of a file that is written through a handle of the table. The handle has the spec with
which the table was opened. -/
def NewFile.entry (handle : PartitionSpec) (f : NewFile) : ManifestEntry where
  filePath := f.path
  fileSizeBytes := f.fileSizeBytes
  recordCount := f.recordCount
  indexFiles := f.indexFiles
  partitionValues := PartitionSpec.valuesOf handle.fields f.key

/-- A position-delete file, if `delete_async` marks rows of a data file. -/
structure NewDelete where
  path : Path
  fileSizeBytes : ℤ := 0
  recordCount : ℤ := 0

/-- The entry with the delete file that is written for it. -/
def markEntry (marks : Path → Option NewDelete) (e : ManifestEntry) : ManifestEntry :=
  match marks e.filePath with
  | none => e
  | some d =>
    { e with
      deleteFiles := e.deleteFiles ++
        [⟨d.path, .position, d.fileSizeBytes, d.recordCount, e.partitionValues⟩] }

section Marks

variable (marks : Path → Option NewDelete)

lemma filePath_comp_markEntry :
    ManifestEntry.filePath ∘ markEntry marks = ManifestEntry.filePath := by
  funext e
  rw [Function.comp_apply, markEntry]
  split <;> rfl

lemma clearDeletes_comp_markEntry :
    ManifestEntry.clearDeletes ∘ markEntry marks = ManifestEntry.clearDeletes := by
  funext e
  rw [Function.comp_apply, markEntry]
  split <;> rfl

lemma partitionValues_markEntry (e : ManifestEntry) :
    (markEntry marks e).partitionValues = e.partitionValues := by
  rw [markEntry]
  split <;> rfl

end Marks

inductive SpecOp where
  | append (handle : PartitionSpec) (files : List NewFile)
  | delete (marks : Path → Option NewDelete)
  | updateSpec (fields : List PartitionField)
  | updatePartitionSpec (spec : PartitionSpec)
  /-- A commit that neither adds nor removes files nor changes the spec. -/
  | metadataOnly
  /-- A read of the entries, which fills the cache. -/
  | load
  | evict (uuid : Uuid)

/-- The operation writes data files or delete files. -/
def SpecOp.writesFiles : SpecOp → Bool
  | .append _ _ | .delete _ => true
  | _ => false

namespace SpecTable

/-- A new table. -/
def create (spec : PartitionSpec) : SpecTable where
  spec := spec
  specs := [spec]
  deletes := []
  manifests := none
  nextUuid := 0
  cache _ := none

variable (t : SpecTable)

def dataManifests : List DataManifest := t.manifests.getD []

/-- The entries of a data manifest, from the cache or as they are read. -/
def loadManifest (m : DataManifest) : List ManifestEntry :=
  (t.cache m.uuid).getD (m.decode t.spec)

/-- `load_all_entries` -/
def view : EntryMap :=
  attachDeletes t.deletes (KeyedMap.ofList (t.dataManifests.flatMap t.loadManifest))

/-- The table after `load_all_entries`. -/
def warm : SpecTable :=
  { t with
    cache := fun uuid => (t.cache uuid).or
      ((t.dataManifests.find? fun m => m.uuid = uuid).map (DataManifest.decode t.spec)) }

/-- The number of files of the manifest list, with the delete manifest. -/
def manifestFileCount : ℕ := t.dataManifests.length + if t.deletes = [] then 0 else 1

/-- Only the added entries are written. -/
def AppendsOnly (env : CommitEnv) (add : List ManifestEntry) : Prop :=
  add ≠ [] ∧ (∀ e ∈ add, t.view.contains e.filePath = false) ∧
    (t.manifests = none ∨ t.manifestFileCount < env.maxManifestFiles)

instance (env : CommitEnv) (add : List ManifestEntry) : Decidable (t.AppendsOnly env add) :=
  inferInstanceAs (Decidable (_ ∧ _ ∧ _))

/-- The spec of the manifest that a commit writes. -/
def newSpec (specs : Option (List PartitionSpec)) : PartitionSpec :=
  (specs.bind List.getLast?).getD t.spec

/-- The table after a commit that wrote `written` data manifests. -/
def propose (add : List ManifestEntry) (specs : Option (List PartitionSpec))
    (manifests : Option (List DataManifest)) (written : ℕ) : SpecTable where
  spec := t.newSpec specs
  specs := specs.getD t.specs
  deletes := globalDeleteFiles t.deletes add
  manifests := manifests
  nextUuid := t.nextUuid + written
  cache := t.warm.cache

/-- `commit` without removals. The data manifests are written with the current spec, also when the
commit changes it. There is no new manifest if Avro does not accept a value. -/
def commit (A : AvroLib) (env : CommitEnv) (add : List ManifestEntry)
    (specs : Option (List PartitionSpec)) : Option SpecTable :=
  let newEntries := env.values (addEntries t.view add)
  let prev := if t.AppendsOnly env add then t.dataManifests else []
  let toWrite := if t.AppendsOnly env add then add else newEntries
  if newEntries = [] then some (t.propose add specs none 0)
  else
    (writeChunks A t.spec t.nextUuid (env.chunks (toWrite.map ManifestEntry.clearDeletes))).map
      fun ms => t.propose add specs (some (prev ++ ms)) ms.length

/-- The id of a further spec. -/
def nextSpecId : ℤ := (t.specs.map PartitionSpec.specId).max?.getD (-1) + 1

/-- The table after an operation, if it succeeds. -/
def apply (A : AvroLib) (env : CommitEnv) : SpecOp → Option SpecTable
  | .append handle files => t.commit A env (files.map (NewFile.entry handle)) none
  | .delete marks =>
    if t.view = ∅ then some t.warm
    else t.commit A env ((env.values t.view).map (markEntry marks)) none
  | .updateSpec fields => t.commit A env [] (some (t.specs ++ [⟨t.nextSpecId, fields⟩]))
  | .updatePartitionSpec spec => some { t with spec := spec, specs := [spec] }
  | .metadataOnly => t.commit A env [] none
  | .load => some t.warm
  | .evict uuid => some { t with cache := fun u => if u = uuid then none else t.cache u }

/-! ### What the manifests hold -/

/-- The entries of the data manifests, as they are read. -/
def stored : List ManifestEntry := t.dataManifests.flatMap (DataManifest.decode t.spec)

/-- The entries and the delete files as the users of the table see them. -/
def model : TableModel where
  entries := KeyedMap.ofList t.stored
  deletes := t.deletes

/-- The cache agrees with the files, and all entries have partition values of the current spec. -/
structure Inv : Prop where
  uuids : (t.dataManifests.map DataManifest.uuid).Nodup
  uuid_lt : ∀ m ∈ t.dataManifests, m.uuid < t.nextUuid
  cache_lt : ∀ uuid es, t.cache uuid = some es → uuid < t.nextUuid
  cached : ∀ m ∈ t.dataManifests, ∀ es, t.cache m.uuid = some es → es = m.decode t.spec
  fits : ∀ e ∈ t.stored, t.spec.Fits e.partitionValues
  distinct : (t.stored.map ManifestEntry.filePath).Nodup

variable {t} {t' : SpecTable} {A : AvroLib} {env : CommitEnv} {add : List ManifestEntry}
  {specs : Option (List PartitionSpec)}

lemma inv_of_dataManifests_eq_nil (h : t.dataManifests = [])
    (hcache : ∀ uuid es, t.cache uuid = some es → uuid < t.nextUuid) : t.Inv where
  uuids := by simp [h]
  uuid_lt := by simp [h]
  cache_lt := hcache
  cached := by simp [h]
  fits := by simp [stored, h]
  distinct := by simp [stored, h]

lemma deleteFiles_of_mem_stored {e : ManifestEntry} (h : e ∈ t.stored) : e.deleteFiles = [] := by
  obtain ⟨m, -, he⟩ := List.mem_flatMap.1 h
  exact DataManifest.deleteFiles_of_mem_decode he

lemma clear_model_entries : EntryMap.clear t.model.entries = t.model.entries :=
  clear_ofList fun _ => deleteFiles_of_mem_stored

lemma Inv.view_eq (hinv : t.Inv) : t.view = t.model.view := by
  have hload : t.dataManifests.flatMap t.loadManifest = t.stored := by
    refine List.flatMap_congr fun m hm => ?_
    rw [loadManifest]
    cases hcache : t.cache m.uuid with
    | none => rfl
    | some es => exact hinv.cached m hm es hcache
  rw [view, hload, attachDeletes, TableModel.view]
  split_ifs with hnil
  · rw [model, hnil]
    exact (clear_model_entries (t := t)).symm
  · rfl

lemma Inv.clear_view (hinv : t.Inv) : EntryMap.clear t.view = t.model.entries := by
  rw [hinv.view_eq]
  exact BenoStreamDB.clear_view clear_model_entries

lemma Inv.contains_view (hinv : t.Inv) (p : Path) :
    t.view.contains p = t.model.entries.contains p := by
  rw [hinv.view_eq, TableModel.contains_view]

/-- Every entry of the table is stored, but for its delete files. -/
lemma Inv.clearDeletes_mem_stored (hinv : t.Inv) {p : Path} {e : ManifestEntry}
    (h : t.view.get? p = some e) : e.clearDeletes ∈ t.stored := by
  have hget : t.model.entries.get? p = some e.clearDeletes := by
    rw [← hinv.clear_view, EntryMap.get?_clear, h, Option.map_some]
  exact KeyedMap.mem_of_get?_ofList hget

lemma Inv.fits_of_get?_view (hinv : t.Inv) {p : Path} {e : ManifestEntry}
    (h : t.view.get? p = some e) : t.spec.Fits e.partitionValues :=
  hinv.fits e.clearDeletes (hinv.clearDeletes_mem_stored h)

lemma Inv.stored_eq_nil (hinv : t.Inv) (hempty : t.view = ∅) : t.stored = [] := by
  refine List.eq_nil_iff_forall_not_mem.2 fun e he => ?_
  have hcontains : t.model.entries.contains e.filePath = true :=
    (KeyedMap.contains_insertAll _ _ _).2 (.inl (List.mem_map_of_mem he))
  rw [← hinv.contains_view, hempty] at hcontains
  cases hcontains

/-! ### Caches -/

lemma Inv.warm (hinv : t.Inv) : t.warm.Inv where
  uuids := hinv.uuids
  uuid_lt := hinv.uuid_lt
  cache_lt uuid es h := by
    rcases Option.or_eq_some_iff.1 h with h | ⟨-, h⟩
    · exact hinv.cache_lt uuid es h
    · obtain ⟨m, hm, -⟩ := Option.map_eq_some_iff.1 h
      obtain rfl : m.uuid = uuid := by simpa using List.find?_some hm
      exact hinv.uuid_lt m (List.mem_of_find?_eq_some hm)
  cached m hm es h := by
    rcases Option.or_eq_some_iff.1 h with h | ⟨-, h⟩
    · exact hinv.cached m hm es h
    · obtain ⟨m', hm', rfl⟩ := Option.map_eq_some_iff.1 h
      have huuid : m'.uuid = m.uuid := by simpa using List.find?_some hm'
      rw [List.inj_on_of_nodup_map hinv.uuids (List.mem_of_find?_eq_some hm') hm huuid]
      rfl
  fits := hinv.fits
  distinct := hinv.distinct

lemma Inv.evict (hinv : t.Inv) (uuid : Uuid) :
    ({ t with cache := fun u => if u = uuid then none else t.cache u } : SpecTable).Inv where
  uuids := hinv.uuids
  uuid_lt := hinv.uuid_lt
  cache_lt u es h := by
    simp only at h
    split_ifs at h
    exact hinv.cache_lt u es h
  cached m hm es h := by
    simp only at h
    split_ifs at h
    exact hinv.cached m hm es h
  fits := hinv.fits
  distinct := hinv.distinct

/-! ### Commits -/

/-- The table after the entries `es` are written, `prev` being the manifests that are kept. -/
lemma Inv.writeChunks (hinv : t.Inv) {prev ms : List DataManifest} {es : List ManifestEntry}
    (hms : BenoStreamDB.writeChunks A t.spec t.nextUuid
      (env.chunks (es.map ManifestEntry.clearDeletes)) = some ms)
    (hprev : prev.Sublist t.dataManifests) (hnames : (t.newSpec specs).names = t.spec.names)
    (hfits : ∀ e ∈ es, t.spec.Fits e.partitionValues)
    (hdistinct : ((prev.flatMap (DataManifest.decode t.spec) ++ es).map
      ManifestEntry.filePath).Nodup) :
    (t.propose add specs (some (prev ++ ms)) ms.length).Inv ∧
    (t.propose add specs (some (prev ++ ms)) ms.length).stored =
      prev.flatMap (DataManifest.decode t.spec) ++ es.map ManifestEntry.clearDeletes := by
  obtain ⟨hentries, huuids⟩ := decode_writeChunks (A := A) (by
    rw [env.flatten_chunks]
    intro e he
    obtain ⟨e', he', rfl⟩ := List.mem_map.1 he
    exact hfits e' he') hms
  rw [env.flatten_chunks, List.map_map] at hentries
  have hnew : ∀ m ∈ ms, t.nextUuid ≤ m.uuid ∧ m.uuid < t.nextUuid + ms.length := by
    intro m hm
    have hmem : m.uuid ∈ List.range' t.nextUuid ms.length :=
      huuids ▸ List.mem_map_of_mem hm
    exact List.mem_range'_1.1 hmem
  have hstored : (t.propose add specs (some (prev ++ ms)) ms.length).stored =
      prev.flatMap (DataManifest.decode t.spec) ++ es.map ManifestEntry.clearDeletes := by
    change (prev ++ ms).flatMap (DataManifest.decode (t.newSpec specs)) = _
    rw [List.flatMap_congr fun m _ => m.decode_congr hnames, List.flatMap_append, hentries]
    rfl
  refine ⟨?_, hstored⟩
  exact {
    uuids := by
      change ((prev ++ ms).map DataManifest.uuid).Nodup
      rw [List.map_append, List.nodup_append]
      refine ⟨hinv.uuids.sublist (hprev.map _), huuids ▸ List.nodup_range', ?_⟩
      intro u hu v hv huv
      obtain ⟨m, hm, rfl⟩ := List.mem_map.1 hu
      obtain ⟨m', hm', rfl⟩ := List.mem_map.1 hv
      have hlt := hinv.uuid_lt m (hprev.subset hm)
      rw [huv] at hlt
      exact absurd hlt (Nat.not_lt.2 (hnew m' hm').1)
    uuid_lt := by
      intro m hm
      rcases List.mem_append.1 hm with hm | hm
      · exact Nat.lt_add_right _ (hinv.uuid_lt m (hprev.subset hm))
      · exact (hnew m hm).2
    cache_lt := fun uuid es h => Nat.lt_add_right _ (hinv.warm.cache_lt uuid es h)
    cached := by
      intro m hm es h
      change es = m.decode (t.newSpec specs)
      rw [m.decode_congr hnames]
      rcases List.mem_append.1 hm with hm | hm
      · exact hinv.warm.cached m (hprev.subset hm) es h
      · exact absurd (hinv.warm.cache_lt m.uuid es h) (Nat.not_lt.2 (hnew m hm).1)
    fits := by
      intro e he
      refine PartitionSpec.Fits.congr ?_ hnames
      rw [hstored] at he
      rcases List.mem_append.1 he with he | he
      · obtain ⟨m, hm, he⟩ := List.mem_flatMap.1 he
        exact hinv.fits e (List.mem_flatMap.2 ⟨m, hprev.subset hm, he⟩)
      · obtain ⟨e', he', rfl⟩ := List.mem_map.1 he
        exact hfits e' he'
    distinct := by
      rw [hstored]
      simpa [Function.comp_def] using hdistinct }

lemma partitionValues_keepIndexes (x : Option ManifestEntry) (e : ManifestEntry) :
    (keepIndexes x e).partitionValues = e.partitionValues := by
  cases x with
  | none => rfl
  | some x =>
    simp only [keepIndexes]
    split_ifs <;> rfl

/-- A new entry has the partition values of an added one or is in the table. -/
lemma partitionValues_of_get?_addEntries {active : EntryMap} {p : Path} {e : ManifestEntry}
    (h : (addEntries active add).get? p = some e) :
    (∃ a ∈ add, e.partitionValues = a.partitionValues) ∨ active.get? p = some e := by
  induction add generalizing active with
  | nil => exact .inr h
  | cons a add ih =>
    rcases ih h with ⟨b, hb, heq⟩ | h
    · exact .inl ⟨b, by simp [hb], heq⟩
    · rw [get?_addEntry] at h
      split_ifs at h with hpath
      · refine .inl ⟨a, by simp, ?_⟩
        obtain rfl := Option.some.inj h
        exact partitionValues_keepIndexes _ a
      · exact .inr h

/-- A commit whose entries fit the current spec does to the table what it does to the model. -/
lemma Inv.commit (hinv : t.Inv) (hpaths : (add.map ManifestEntry.filePath).Nodup)
    (hfits : ∀ e ∈ add, t.spec.Fits e.partitionValues)
    (hspecs : (t.newSpec specs).names = t.spec.names ∨ add = [] ∧ t.view = ∅)
    (h : t.commit A env add specs = some t') :
    t'.Inv ∧ t'.deletes = globalDeleteFiles t.deletes add ∧
      t'.model.entries = (add.map ManifestEntry.clearDeletes).foldl upsert t.model.entries := by
  have hcoe := env.coe_values (addEntries t.view add)
  have hclear : EntryMap.clear (addEntries t.view add) =
      (add.map ManifestEntry.clearDeletes).foldl upsert t.model.entries := by
    rw [clear_addEntries, hinv.clear_view]
  rw [SpecTable.commit] at h
  by_cases hnil : env.values (addEntries t.view add) = []
  · rw [if_pos hnil] at h
    obtain rfl := Option.some.inj h
    have hempty : addEntries t.view add = ∅ := by
      rw [hnil] at hcoe
      exact (KeyedMap.ofList_of_coe hcoe).symm
    refine ⟨inv_of_dataManifests_eq_nil rfl hinv.warm.cache_lt, rfl, ?_⟩
    rw [← hclear, hempty]
    exact KeyedMap.ext fun k => by rw [EntryMap.get?_clear]; rfl
  · have hnames : (t.newSpec specs).names = t.spec.names := by
      refine hspecs.resolve_right ?_
      rintro ⟨rfl, hview⟩
      rw [addEntries_nil, hview] at hcoe hnil
      exact hnil (List.eq_nil_iff_forall_not_mem.2 fun e he => by
        simpa using (KeyedMap.mem_of_coe hcoe).1 he)
    rw [if_neg hnil] at h
    obtain ⟨ms, hms, rfl⟩ := Option.map_eq_some_iff.1 h
    have hnew : ∀ e ∈ env.values (addEntries t.view add), t.spec.Fits e.partitionValues := by
      intro e he
      rcases partitionValues_of_get?_addEntries ((KeyedMap.mem_of_coe hcoe).1 he) with
        ⟨a, ha, heq⟩ | hview
      · exact heq ▸ hfits a ha
      · exact hinv.fits_of_get?_view hview
    by_cases happend : t.AppendsOnly env add
    · -- the added entries are new, so that adding them is inserting them
      rw [if_pos happend] at hms ⊢
      have hfresh : ∀ e ∈ add.map ManifestEntry.clearDeletes,
          t.model.entries.contains e.filePath = false := by
        intro e he
        obtain ⟨e', he', rfl⟩ := List.mem_map.1 he
        rw [ManifestEntry.filePath_clearDeletes, ← hinv.contains_view]
        exact happend.2.1 e' he'
      have hdistinct : ((t.stored ++ add).map ManifestEntry.filePath).Nodup := by
        rw [List.map_append, List.nodup_append]
        refine ⟨hinv.distinct, hpaths, ?_⟩
        rintro p hp q hq rfl
        obtain ⟨e, he, rfl⟩ := List.mem_map.1 hq
        have hnot := hfresh e.clearDeletes (List.mem_map_of_mem he)
        have hmem : t.model.entries.contains e.filePath = true :=
          (KeyedMap.contains_insertAll _ _ _).2 (.inl hp)
        rw [ManifestEntry.filePath_clearDeletes, hmem] at hnot
        cases hnot
      obtain ⟨hinv', hstored⟩ := hinv.writeChunks hms (List.Sublist.refl _) hnames hfits hdistinct
      refine ⟨hinv', rfl, ?_⟩
      rw [← addEntries_eq_foldl,
        addEntries_of_new hfresh (by simpa [Function.comp_def] using hpaths), model, hstored]
      exact KeyedMap.insertAll_append _ _ _
    · rw [if_neg happend] at hms ⊢
      obtain ⟨hinv', hstored⟩ := hinv.writeChunks hms (List.nil_sublist _) hnames hnew
        (by simpa using KeyedMap.nodup_map_key_of_coe hcoe)
      refine ⟨hinv', rfl, ?_⟩
      rw [← hclear, model, hstored]
      exact KeyedMap.ofList_map_of_coe _ _ hcoe

/-- A change of the names of an empty table or to the same names. -/
lemma Inv.updatePartitionSpec (hinv : t.Inv) {spec : PartitionSpec}
    (h : spec.names = t.spec.names ∨ t.view = ∅) :
    ({ t with spec := spec, specs := [spec] } : SpecTable).Inv ∧
      ({ t with spec := spec, specs := [spec] } : SpecTable).stored = t.stored := by
  have hdecode : ∀ m ∈ t.dataManifests, m.decode spec = m.decode t.spec := by
    intro m hm
    rcases h with hnames | hempty
    · exact m.decode_congr hnames
    · have hnil : m.decode t.spec = [] :=
        List.flatMap_eq_nil_iff.1 (hinv.stored_eq_nil hempty) m hm
      rw [hnil, DataManifest.decode, List.map_eq_nil_iff]
      exact List.map_eq_nil_iff.1 hnil
  have hstored : ({ t with spec := spec, specs := [spec] } : SpecTable).stored = t.stored :=
    List.flatMap_congr hdecode
  refine ⟨?_, hstored⟩
  exact {
    uuids := hinv.uuids
    uuid_lt := hinv.uuid_lt
    cache_lt := hinv.cache_lt
    cached := fun m hm es hcache => (hinv.cached m hm es hcache).trans (hdecode m hm).symm
    fits := by
      intro e he
      rw [hstored] at he
      rcases h with hnames | hempty
      · exact (hinv.fits e he).congr hnames
      · rw [hinv.stored_eq_nil hempty] at he
        cases he
    distinct := by
      rw [hstored]
      exact hinv.distinct }

/-! ### Operations that keep partition values and delete files -/

/-- Names carry a fresh UUID, a partition key has a value for each field of the handle's spec, and
the transforms return 64-bit integers. -/
def Legal (t : SpecTable) : SpecOp → Prop
  | .append handle files => (files.map NewFile.path).Nodup ∧ ∀ f ∈ files,
      t.view.contains f.path = false ∧ f.key.length = handle.fields.length ∧
        ∀ v ∈ f.key, v.Storable
  | _ => True

/-- The condition on an operation: a handle that writes has the field names of the current spec, and
a table with data files gets no spec with other field names. -/
def Careful (t : SpecTable) : SpecOp → Prop
  | .append handle _ => handle.names = t.spec.names
  | .updateSpec fields => fields.map PartitionField.name = t.spec.names ∨ t.view = ∅
  | .updatePartitionSpec spec => spec.names = t.spec.names ∨ t.view = ∅
  | _ => True

/-- An operation keeps what is visible. -/
structure Preserved (op : SpecOp) (t t' : SpecTable) : Prop where
  /-- A file keeps its partition values and its delete files, and no deleted row reappears. -/
  kept : ∀ p e, t.view.get? p = some e → ∃ e', t'.view.get? p = some e' ∧
    e'.partitionValues = e.partitionValues ∧ e.deleteFiles ⊆ e'.deleteFiles ∧
      ∀ (ρ : Type) (L : Lake ρ), L.deleted e ⊆ L.deleted e'
  /-- A new file has the partition values it was written with. -/
  written : ∀ handle files, op = .append handle files → ∀ f ∈ files, ∃ e',
    t'.view.get? f.path = some e' ∧
      e'.partitionValues = PartitionSpec.valuesOf handle.fields f.key
  /-- Only appends and deletes change what is visible. -/
  unchanged : op.writesFiles = false → t'.view = t.view ∧
    ∀ (ρ : Type) (L : Lake ρ), L.rowsOf t'.view = L.rowsOf t.view

lemma kept_of_model {m m' : TableModel} (hdeletes : m.deletes ⊆ m'.deletes)
    (hentries : ∀ p e, m.entries.get? p = some e → m'.entries.get? p = some e) {p : Path}
    {e : ManifestEntry} (h : m.view.get? p = some e) :
    ∃ e', m'.view.get? p = some e' ∧ e'.partitionValues = e.partitionValues ∧
      e.deleteFiles ⊆ e'.deleteFiles ∧ ∀ (ρ : Type) (L : Lake ρ), L.deleted e ⊆ L.deleted e' := by
  rw [TableModel.get?_view] at h
  obtain ⟨x, hx, rfl⟩ := Option.map_eq_some_iff.1 h
  have hsub : deletesOf m.deletes x.partitionValues ⊆ deletesOf m'.deletes x.partitionValues :=
    fun d hd => List.mem_filter.2 ⟨hdeletes (List.mem_filter.1 hd).1, (List.mem_filter.1 hd).2⟩
  refine ⟨{ x with deleteFiles := deletesOf m'.deletes x.partitionValues }, ?_, rfl, hsub, ?_⟩
  · rw [TableModel.get?_view, hentries p x hx, Option.map_some]
  · intro ρ L n hn
    obtain ⟨d, hd, hmark⟩ := List.mem_flatMap.1 hn
    exact List.mem_flatMap.2 ⟨d, List.mem_filter.2
      ⟨hsub (List.mem_filter.1 hd).1, (List.mem_filter.1 hd).2⟩, hmark⟩

/-- An operation that keeps the model keeps what is visible. -/
lemma preserved_of_model_eq {op : SpecOp} (hinv : t.Inv) (hinv' : t'.Inv)
    (hmodel : t'.model = t.model) (hop : ∀ handle files, op ≠ .append handle files) :
    Preserved op t t' := by
  have hview : t'.view = t.view := by rw [hinv.view_eq, hinv'.view_eq, hmodel]
  refine ⟨fun p e h => ⟨e, hview ▸ h, rfl, fun _ hd => hd, fun _ _ _ hn => hn⟩, ?_, fun _ =>
    ⟨hview, fun _ _ => by rw [hview]⟩⟩
  intro handle files heq
  exact absurd heq (hop handle files)

lemma fits_valuesOf {handle : PartitionSpec} (hnames : handle.names = t.spec.names)
    {key : List Value} (hlength : key.length = handle.fields.length)
    (hstorable : ∀ v ∈ key, v.Storable) :
    t.spec.Fits (PartitionSpec.valuesOf handle.fields key) where
  mem_iff name := by rw [PartitionSpec.mem_valuesOf hlength, ← hnames, PartitionSpec.names]
  storable name v h := by
    obtain ⟨field, hmem, -⟩ := PartitionSpec.mem_zip_of_lookup_valuesOf h
    exact hstorable v (List.of_mem_zip hmem).2

lemma foldl_upsert_self {m : EntryMap} {es : List ManifestEntry}
    (h : ∀ e ∈ es, m.get? e.filePath = some e) : es.foldl upsert m = m := by
  induction es with
  | nil => rfl
  | cons e es ih =>
    have hupsert : upsert m e = m := by
      rw [upsert, h e (by simp)]
      refine KeyedMap.ext fun k => ?_
      have hkeep : keepIndexes (some e) e = e := by simp [keepIndexes]
      rw [hkeep, KeyedMap.get?_insert]
      split_ifs with hk
      · rw [← hk, h e (by simp)]
      · rfl
    rw [List.foldl_cons, hupsert]
    exact ih fun e' he' => h e' (by simp [he'])

lemma deletes_subset (h : t'.deletes = globalDeleteFiles t.deletes add) :
    t.model.deletes ⊆ t'.model.deletes := by
  intro d hd
  change d ∈ t'.deletes
  rw [h]
  exact mem_pushed_of_mem hd

lemma Inv.append (hinv : t.Inv) {handle : PartitionSpec} {files : List NewFile}
    (hlegal : t.Legal (.append handle files)) (hnames : handle.names = t.spec.names)
    (h : t.apply A env (.append handle files) = some t') :
    t'.Inv ∧ Preserved (.append handle files) t t' := by
  obtain ⟨hpaths, hfiles⟩ := hlegal
  have hadd : ((files.map (NewFile.entry handle)).map ManifestEntry.filePath).Nodup := by
    rw [List.map_map]
    exact hpaths
  obtain ⟨hinv', hdeletes, hentries⟩ := hinv.commit hadd (by
    intro e he
    obtain ⟨f, hf, rfl⟩ := List.mem_map.1 he
    obtain ⟨-, hlength, hstorable⟩ := hfiles f hf
    exact fits_valuesOf hnames hlength hstorable) (.inl rfl) h
  have hinsert : t'.model.entries =
      t.model.entries.insertAll (files.map (NewFile.entry handle)) := by
    have hclear : (files.map (NewFile.entry handle)).map ManifestEntry.clearDeletes =
        files.map (NewFile.entry handle) := by
      rw [List.map_map]
      rfl
    rw [hentries, hclear, ← addEntries_eq_foldl, addEntries_of_new _ hadd]
    intro e he
    obtain ⟨f, hf, rfl⟩ := List.mem_map.1 he
    rw [← hinv.contains_view]
    exact (hfiles f hf).1
  refine ⟨hinv', ?_, ?_, fun hop => by cases hop⟩
  · intro p e he
    rw [hinv.view_eq] at he
    rw [hinv'.view_eq]
    refine kept_of_model (deletes_subset hdeletes) (fun p e hp => ?_) he
    rw [hinsert, KeyedMap.get?_insertAll_of_notMem, hp]
    intro hmem
    obtain ⟨e', he', hpath⟩ := List.mem_map.1 hmem
    obtain ⟨f, hf, rfl⟩ := List.mem_map.1 he'
    have hnot := (hfiles f hf).1
    rw [hinv.contains_view, show f.path = p from hpath, KeyedMap.contains, hp] at hnot
    cases hnot
  · rintro _ _ ⟨⟩ f hf
    rw [hinv'.view_eq, TableModel.get?_view, hinsert]
    exact ⟨_, by rw [show f.path = (f.entry handle).filePath from rfl,
      KeyedMap.get?_insertAll_of_mem hadd (List.mem_map_of_mem hf), Option.map_some], rfl⟩

lemma Inv.delete (hinv : t.Inv) {marks : Path → Option NewDelete}
    (h : t.apply A env (.delete marks) = some t') : t'.Inv ∧ Preserved (.delete marks) t t' := by
  rw [apply] at h
  split_ifs at h with hempty
  · obtain rfl := Option.some.inj h
    exact ⟨hinv.warm, preserved_of_model_eq hinv hinv.warm rfl (by simp)⟩
  · have hcoe := env.coe_values t.view
    obtain ⟨hinv', hdeletes, hentries⟩ := hinv.commit (by
      rw [List.map_map, filePath_comp_markEntry]
      exact KeyedMap.nodup_map_key_of_coe hcoe) (by
      intro e he
      obtain ⟨e', he', rfl⟩ := List.mem_map.1 he
      rw [partitionValues_markEntry]
      exact hinv.fits_of_get?_view ((KeyedMap.mem_of_coe hcoe).1 he')) (.inl rfl) h
    -- the entries are written again as they are, but for their delete files
    have hsame : t'.model.entries = t.model.entries := by
      rw [hentries, List.map_map, clearDeletes_comp_markEntry]
      refine foldl_upsert_self fun e he => ?_
      obtain ⟨e', he', rfl⟩ := List.mem_map.1 he
      rw [← hinv.clear_view, EntryMap.get?_clear, ManifestEntry.filePath_clearDeletes,
        (KeyedMap.mem_of_coe hcoe).1 he', Option.map_some]
    refine ⟨hinv', ?_, (by simp), fun hop => by cases hop⟩
    intro p e he
    rw [hinv.view_eq] at he
    rw [hinv'.view_eq]
    exact kept_of_model (deletes_subset hdeletes) (fun p e hp => hsame ▸ hp) he

/-- A commit without files that keeps the names, or of an empty table. -/
lemma Inv.commit_nil (hinv : t.Inv)
    (hspecs : (t.newSpec specs).names = t.spec.names ∨ t.view = ∅)
    (h : t.commit A env [] specs = some t') : t'.Inv ∧ t'.model = t.model := by
  obtain ⟨hinv', hdeletes, hentries⟩ := hinv.commit (by simp) (by simp)
    (hspecs.imp_right fun hempty => ⟨rfl, hempty⟩) h
  refine ⟨hinv', ?_⟩
  rw [model, TableModel.mk.injEq]
  exact ⟨hentries, hdeletes, rfl, rfl⟩

lemma Inv.apply (hinv : t.Inv) {op : SpecOp} (hlegal : t.Legal op) (hcareful : t.Careful op)
    (h : t.apply A env op = some t') : t'.Inv ∧ Preserved op t t' := by
  cases op with
  | append handle files => exact hinv.append hlegal hcareful h
  | delete marks => exact hinv.delete h
  | updateSpec fields =>
    have hspec : t.newSpec (some (t.specs ++ [⟨t.nextSpecId, fields⟩])) =
        ⟨t.nextSpecId, fields⟩ := by simp [newSpec]
    obtain ⟨hinv', hmodel⟩ := hinv.commit_nil (by rw [hspec]; exact hcareful) h
    exact ⟨hinv', preserved_of_model_eq hinv hinv' hmodel (by simp)⟩
  | updatePartitionSpec spec =>
    obtain rfl := Option.some.inj h
    obtain ⟨hinv', hstored⟩ := hinv.updatePartitionSpec hcareful
    exact ⟨hinv', preserved_of_model_eq hinv hinv' (by rw [model, hstored]; rfl) (by simp)⟩
  | metadataOnly =>
    obtain ⟨hinv', hmodel⟩ := hinv.commit_nil (.inl rfl) h
    exact ⟨hinv', preserved_of_model_eq hinv hinv' hmodel (by simp)⟩
  | load =>
    obtain rfl := Option.some.inj h
    exact ⟨hinv.warm, preserved_of_model_eq hinv hinv.warm rfl (by simp)⟩
  | evict uuid =>
    obtain rfl := Option.some.inj h
    exact ⟨hinv.evict uuid, preserved_of_model_eq hinv (hinv.evict uuid) rfl (by simp)⟩

/-! ### Runs -/

/-- An operation that meets the condition and succeeds. -/
def CarefulStep (t t' : SpecTable) : Prop :=
  ∃ A env op, t.Legal op ∧ t.Careful op ∧ t.apply A env op = some t'

/-- In every state of a run whose operations meet the condition, a further one that meets it keeps
all partition values, all attached delete files and, if it writes no files, all visible rows. -/
theorem preserved_of_reachable (spec : PartitionSpec) (t t' : SpecTable) (A : AvroLib)
    (env : CommitEnv) (op : SpecOp)
    (hrun : Relation.ReflTransGen CarefulStep (create spec) t) (hlegal : t.Legal op)
    (hcareful : t.Careful op) (hstep : t.apply A env op = some t') : Preserved op t t' := by
  have hinv : t.Inv := by
    clear hlegal hcareful hstep
    induction hrun with
    | refl => exact inv_of_dataManifests_eq_nil rfl (by simp [create])
    | tail _ hstep ih =>
      obtain ⟨A, env, op, hlegal, hcareful, h⟩ := hstep
      exact (ih.apply hlegal hcareful h).1
  exact (hinv.apply hlegal hcareful hstep).2

/-! ### A table that is partitioned by region -/

/-- Avro with types that have all values. -/
def plainAvro : AvroLib where
  write _ v := some v
  toJson_of_write h := Option.some.inj h ▸ rfl

/-- A partition field on the first column. -/
def firstColumn (name transform : String) : PartitionField :=
  ⟨[1], some 1, some 1000, name, transform⟩

def regionSpec : PartitionSpec := ⟨0, [firstColumn "region" "identity"]⟩

/-- The file `a` of the region `eu`. -/
def appendEu : SpecOp := .append regionSpec [{ path := ['a'], key := [.string "eu"] }]

/-- The first row of `a` is deleted. -/
def deleteFirst : SpecOp := .delete fun p => if p = ['a'] then some { path := ['d'] } else none

/-- The file `a` has the rows 10 and 20. -/
def regionLake : Lake ℕ where
  rows _ := [10, 20]
  marks _ := [(['a'], 0)]

lemma legal_appendEu : (create regionSpec).Legal appendEu := by
  refine ⟨List.nodup_singleton _, ?_⟩
  intro f hf
  obtain rfl := List.mem_singleton.1 hf
  refine ⟨rfl, rfl, fun v hv i hi => ?_⟩
  rw [List.mem_singleton.1 hv] at hi
  cases hi

/-- A change of the transform keeps the partition of `a`. -/
theorem preserved_regionTruncate : ∃ t t',
    (create regionSpec).apply plainAvro CommitEnv.inOrder appendEu = some t ∧
    t.apply plainAvro CommitEnv.inOrder (.updateSpec [firstColumn "region" "truncate(2)"]) =
      some t' ∧
    Preserved (.updateSpec [firstColumn "region" "truncate(2)"]) t t' := by
  have hrun : (((create regionSpec).apply plainAvro CommitEnv.inOrder appendEu).bind fun t =>
      t.apply plainAvro CommitEnv.inOrder
        (.updateSpec [firstColumn "region" "truncate(2)"])).isSome = true := by decide +kernel
  have hspec : ((create regionSpec).apply plainAvro CommitEnv.inOrder appendEu).map SpecTable.spec =
      some regionSpec := by decide
  obtain ⟨t', ht'⟩ := Option.isSome_iff_exists.1 hrun
  obtain ⟨t, ht, hstep⟩ := Option.bind_eq_some_iff.1 ht'
  rw [ht, Option.map_some, Option.some.injEq] at hspec
  refine ⟨t, t', ht, hstep, preserved_of_reachable regionSpec t t' plainAvro CommitEnv.inOrder _
    (.single ⟨_, _, _, legal_appendEu, rfl, ht⟩) trivial (.inl ?_) hstep⟩
  rw [hspec]
  rfl

/-- After a change from `region` to `day` the file `a` is of the day `eu`, its delete file is of the
region `eu`, and the deleted row is visible again. -/
theorem rowsOf_regionDay :
    (create regionSpec).Legal appendEu ∧ (do
      let t₁ ← (create regionSpec).apply plainAvro CommitEnv.inOrder appendEu
      let t₂ ← t₁.apply plainAvro CommitEnv.inOrder deleteFirst
      let t₃ ← t₂.apply plainAvro CommitEnv.inOrder (.updateSpec [firstColumn "day" "identity"])
      return (regionLake.rowsOf t₂.view, regionLake.rowsOf t₃.view)) =
        some ({20}, {10, 20}) :=
  ⟨legal_appendEu, by decide +kernel⟩

end SpecTable

end BenoStreamDB

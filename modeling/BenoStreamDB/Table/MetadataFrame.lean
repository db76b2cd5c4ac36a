import BenoStreamDB.Manifest.Iceberg
import BenoStreamDB.Manifest.Operations
import BenoStreamDB.Table.Rows

/-!
# What metadata updates leave alone

The five metadata updates of `manifest/manager/schema.rs` and `manifest/manager/partition.rs` are
expected to change the part of the table state that they are named after, and nothing else.
`update_properties` copies the manifest and does so. The others build a new manifest with
`Manifest::new_with_spec`, which resets the properties, the sort orders, the history of partition
specs and the last column id, and copy only a part of these back.

`frame_iff` says for every update when nothing is lost.

The entries are those that a process without cached manifest files reads, with paths relative to
the table, see `Manifest.Representation`. Their column statistics are decoded with the schema of the
new manifest, so that an update of the schema that renames, drops or retypes a column changes them.
-/

namespace BenoStreamDB

/-! ### The updates -/

section IndexSpecs

variable (columnIndexes : Finmap fun _ : String => List IndexAlgorithm)

/-- The field with the indexes that are given for its column, if there are any. -/
def SchemaField.setIndexes (field : SchemaField) : SchemaField :=
  match columnIndexes.lookup field.name with
  | some newIndexes => { field with indexes := newIndexes }
  | none => field

lemma SchemaField.id_setIndexes (field : SchemaField) :
    (field.setIndexes columnIndexes).id = field.id := by
  rw [setIndexes]
  split <;> rfl

lemma SchemaField.name_setIndexes (field : SchemaField) :
    (field.setIndexes columnIndexes).name = field.name := by
  rw [setIndexes]
  split <;> rfl

lemma SchemaField.typeStr_setIndexes (field : SchemaField) :
    (field.setIndexes columnIndexes).typeStr = field.typeStr := by
  rw [setIndexes]
  split <;> rfl

def Schema.setIndexes (schema : Schema) : Schema :=
  { schema with
    schemaId := schema.schemaId + 1
    fields := schema.fields.map (SchemaField.setIndexes columnIndexes) }

lemma Schema.fieldOf_setIndexes (schema : Schema) (id : ℤ) :
    (schema.setIndexes columnIndexes).fieldOf id =
      (schema.fieldOf id).map (SchemaField.setIndexes columnIndexes) := by
  rw [fieldOf, setIndexes, ← List.map_reverse, List.find?_map, fieldOf]
  simp only [Function.comp_def, SchemaField.id_setIndexes]

/-- The manifest of an update of the index specs. Sort orders, the history of partition specs and
the last column id are not carried over. -/
def indexSpecsManifest (nowMs : ℤ) (current : Manifest) (currentVer : ℕ) (schema : Schema) :
    Manifest :=
  { Manifest.newWithSpec nowMs (currentVer + 1) current.entries (some currentVer)
      (current.schemas ++ [schema.setIndexes columnIndexes])
      (schema.setIndexes columnIndexes).schemaId current.partitionSpec with
    manifestListPath := current.manifestListPath
    properties := current.properties
    formatVersion := current.formatVersion
    deleteFiles := current.deleteFiles }

/-- Nothing is created if all columns have the given indexes already. -/
def proposeIndexSpecs (nowMs : ℤ) (current : Manifest) (currentVer : ℕ) :
    Except CommitError (Option Manifest) :=
  match current.schemas.getLast? with
  | none => .error .noSchema
  | some schema =>
    if schema.fields.map (SchemaField.setIndexes columnIndexes) = schema.fields then .ok none
    else .ok (some (indexSpecsManifest columnIndexes nowMs current currentVer schema))

lemma proposeIndexSpecs_eq_ok {nowMs : ℤ} {current : Manifest} {currentVer : ℕ} {m : Manifest}
    (h : proposeIndexSpecs columnIndexes nowMs current currentVer = .ok (some m)) :
    ∃ schema, current.schemas.getLast? = some schema ∧
      m = indexSpecsManifest columnIndexes nowMs current currentVer schema := by
  rw [proposeIndexSpecs] at h
  cases hlast : current.schemas.getLast? with
  | none => simp [hlast] at h
  | some schema =>
    rw [hlast] at h
    simp only at h
    split_ifs at h
    · cases h
    · cases h
      exact ⟨schema, rfl, rfl⟩

/-- `update_index_specs` -/
def indexSpecsOp (nowMs : ℕ → ℤ) : VersionOp where
  name := .indexSpecUpdate
  maxRetries := 10
  attempts := 10
  startsCached attempt := attempt = 0
  nowMs := nowMs
  propose attempt w current currentVer :=
    (proposeIndexSpecs columnIndexes (nowMs attempt) current currentVer, w)
  prepares _ w _ _ := .refl w
  numbered h := by
    obtain ⟨schema, -, rfl⟩ := proposeIndexSpecs_eq_ok columnIndexes h
    exact ⟨rfl, rfl⟩
  cachesLatest := true
  invalidatesOnConflict := true

end IndexSpecs

/-- The manifest of an update of the partition spec. The new spec is the only one of the history;
sort orders and the last column id are not carried over. -/
def partitionSpecManifest (newSpec : PartitionSpec) (nowMs : ℤ) (current : Manifest)
    (currentVer : ℕ) : Manifest :=
  { Manifest.newWithSpec nowMs (currentVer + 1) current.entries (some currentVer)
      current.schemas current.currentSchemaId newSpec with
    manifestListPath := current.manifestListPath
    properties := current.properties
    formatVersion := current.formatVersion
    deleteFiles := current.deleteFiles }

/-- `update_partition_spec` -/
def partitionSpecOp (newSpec : PartitionSpec) (nowMs : ℕ → ℤ) : VersionOp where
  name := .partitionSpecUpdate
  maxRetries := 10
  attempts := 10
  startsCached attempt := attempt = 0
  nowMs := nowMs
  propose attempt w current currentVer :=
    (.ok (some (partitionSpecManifest newSpec (nowMs attempt) current currentVer)), w)
  prepares _ w _ _ := .refl w
  numbered h := by
    cases h
    exact ⟨rfl, rfl⟩
  cachesLatest := true
  invalidatesOnConflict := true

/-- The next version of a schema, with the given identifier fields, which must not be null. -/
def Schema.setIdentifiers (newIds : List ℤ) (schema : Schema) : Schema where
  schemaId := schema.schemaId + 1
  fields := schema.fields.map fun field =>
    if newIds.contains field.id then { field with required := true } else field
  identifierFieldIds := newIds

/-- `update_identifier_fields` up to the call of `update_schema`, on the manifest that it loads
first. Nothing is called if the identifier fields are the given ones already. -/
def identifierCall (newIds : List ℤ) (nowMs : ℕ → ℤ) (seen : Manifest) :
    Except CommitError (Option SchemaCall) :=
  match seen.schemas.getLast? with
  | none => .error .noIdentifierSchema
  | some latest =>
    if latest.identifierFieldIds = newIds then .ok none
    else .ok (some {
      newSchemas := seen.schemas ++ [latest.setIdentifiers newIds]
      newSchemaId := latest.schemaId + 1
      nowMs := nowMs })

inductive MetadataOp where
  | updateSchema (call : SchemaCall)
  | updateProperties (call : PropertiesCall)
  | updateIndexSpecs (columnIndexes : Finmap fun _ : String => List IndexAlgorithm)
      (nowMs : ℕ → ℤ)
  | updatePartitionSpec (newSpec : PartitionSpec) (nowMs : ℕ → ℤ)
  /-- With the manifest that is loaded before `update_schema` is called. -/
  | updateIdentifierFields (newIds : List ℤ) (nowMs : ℕ → ℤ) (seen : Manifest)

/-- The optimistic loop that the update enters, if it enters one. -/
def MetadataOp.versionOp : MetadataOp → Except CommitError (Option VersionOp)
  | updateSchema call => .ok (some (schemaOp call))
  | updateProperties call => .ok (some (propertiesOp call))
  | updateIndexSpecs columnIndexes nowMs => .ok (some (indexSpecsOp columnIndexes nowMs))
  | updatePartitionSpec newSpec nowMs => .ok (some (partitionSpecOp newSpec nowMs))
  | updateIdentifierFields newIds nowMs seen =>
    (identifierCall newIds nowMs seen).map (Option.map schemaOp)

/-- The update creates the version `m` on top of the version `current`. -/
def MetadataOp.Creates (op : MetadataOp) (current m : Manifest) : Prop :=
  ∃ vop attempt w w' currentVer, op.versionOp = .ok (some vop) ∧
    vop.propose attempt w current currentVer = (.ok (some m), w')

/-- The manifests that an update can create on top of `current`. -/
inductive MetadataOp.Makes (current : Manifest) : MetadataOp → Manifest → Prop
  | schema (call : SchemaCall) (nowMs : ℤ) (currentVer : ℕ) :
      Makes current (.updateSchema call) (schemaManifest call nowMs current currentVer)
  | properties (call : PropertiesCall) (properties : Properties) (nowMs : ℤ) (currentVer : ℕ) :
      Makes current (.updateProperties call)
        { current with
          version := currentVer + 1
          prevVersion := some currentVer
          timestampMs := nowMs
          properties := properties }
  | indexSpecs (columnIndexes : Finmap fun _ : String => List IndexAlgorithm) (clock : ℕ → ℤ)
      (nowMs : ℤ) (currentVer : ℕ) {schema : Schema}
      (last : current.schemas.getLast? = some schema) :
      Makes current (.updateIndexSpecs columnIndexes clock)
        (indexSpecsManifest columnIndexes nowMs current currentVer schema)
  | partitionSpec (newSpec : PartitionSpec) (clock : ℕ → ℤ) (nowMs : ℤ) (currentVer : ℕ) :
      Makes current (.updatePartitionSpec newSpec clock)
        (partitionSpecManifest newSpec nowMs current currentVer)
  | identifierFields (newIds : List ℤ) (clock : ℕ → ℤ) (seen : Manifest) {call : SchemaCall}
      (called : identifierCall newIds clock seen = .ok (some call)) (nowMs : ℤ) (currentVer : ℕ) :
      Makes current (.updateIdentifierFields newIds clock seen)
        (schemaManifest call nowMs current currentVer)

lemma MetadataOp.Creates.makes {op : MetadataOp} {current m : Manifest}
    (h : op.Creates current m) : op.Makes current m := by
  obtain ⟨vop, attempt, w, w', currentVer, hop, hpropose⟩ := h
  cases op with
  | updateSchema call =>
    cases hop
    cases hpropose
    exact .schema call _ currentVer
  | updateProperties call =>
    cases hop
    obtain rfl := proposeIfKept_eq_ok (congrArg Prod.fst hpropose)
    exact .properties call _ _ currentVer
  | updateIndexSpecs columnIndexes nowMs =>
    cases hop
    obtain ⟨schema, hmem, rfl⟩ := proposeIndexSpecs_eq_ok columnIndexes (congrArg Prod.fst hpropose)
    exact .indexSpecs columnIndexes nowMs _ currentVer hmem
  | updatePartitionSpec newSpec nowMs =>
    cases hop
    cases hpropose
    exact .partitionSpec newSpec nowMs _ currentVer
  | updateIdentifierFields newIds nowMs seen =>
    rw [versionOp] at hop
    cases hcall : identifierCall newIds nowMs seen with
    | error e =>
      rw [hcall] at hop
      cases hop
    | ok call =>
      rw [hcall] at hop
      cases call with
      | none => cases hop
      | some call =>
        cases hop
        cases hpropose
        exact .identifierFields newIds nowMs seen hcall _ currentVer

lemma lastColumnId_of_identifierCall {newIds : List ℤ} {clock : ℕ → ℤ} {seen : Manifest}
    {call : SchemaCall} (h : identifierCall newIds clock seen = .ok (some call)) :
    call.lastColumnId = none := by
  rw [identifierCall] at h
  cases hlast : seen.schemas.getLast? with
  | none => simp [hlast] at h
  | some latest =>
    rw [hlast] at h
    simp only at h
    split_ifs at h
    · cases h
    · cases h
      rfl

/-! ### The table state -/

/-- The schema with which statistics are decoded: the one with the given id, or the last. -/
def resolveSchema (schemas : List Schema) (id : ℤ) : Schema :=
  ((schemas.find? fun schema => schema.schemaId = id).or schemas.getLast?).getD {}

def Manifest.currentSchema (m : Manifest) : Schema := resolveSchema m.schemas m.currentSchemaId

/-- An entry with its column statistics. -/
structure StatsEntry extends ManifestEntry where
  columnStats : ColumnStatistics

abbrev StatsMap := KeyedMap fun e : StatsEntry => e.filePath

/-- The entry of a data file with the statistics that are read for it. -/
def IcebergDataFile.toStatsEntry (base64 : List UInt8 → String) (schema : Schema)
    (spec : PartitionSpec) (df : IcebergDataFile) : StatsEntry :=
  { df.toManifestEntry spec with columnStats := df.columnStats base64 schema }

/-- What the manifests of a table refer to. -/
structure TableFiles where
  /-- The manifest lists, with the manifest files that they name. -/
  lists : ListName → List DataManifest
  /-- The statistics of an entry that a manifest itself holds; they are stored with the entry. -/
  inlineStats : ManifestEntry → ColumnStatistics
  base64 : List UInt8 → String

section Entries

variable (F : TableFiles)

/-- The records of the data files that are found through the manifest list. -/
def listedRecords (m : Manifest) : List IcebergDataFile :=
  (m.manifestListPath.toList.flatMap F.lists).flatMap DataManifest.records

/-- Step 3 of `load_all_entries`, see `attachDeletes`. -/
def StatsMap.attachDeletes (deletes : List DeleteFile) (map : StatsMap) : StatsMap :=
  if deletes = [] then map
  else map.mapValues (fun e => { e with deleteFiles := deletesOf deletes e.partitionValues })
    fun _ => rfl

/-- `load_all_entries` -/
def loadEntries (m : Manifest) : StatsMap :=
  StatsMap.attachDeletes m.deleteFiles
    ((KeyedMap.ofList ((listedRecords F m).map (IcebergDataFile.toStatsEntry F.base64
      m.currentSchema m.partitionSpec))).insertAll
        (m.entries.map fun e => { e with columnStats := F.inlineStats e }))

/-- A record whose data file the manifest shows: no later record and no entry of the manifest itself
has the same path. -/
def ShowsRecord (m : Manifest) (df : IcebergDataFile) : Prop :=
  df.filePath ∉ m.entries.map ManifestEntry.filePath ∧
    ∃ before after, listedRecords F m = before ++ df :: after ∧
      df.filePath ∉ after.map IcebergDataFile.filePath

/-- Another schema gives the shown data files the statistics that they have. -/
def KeepsStats (m : Manifest) (schema : Schema) : Prop :=
  ∀ df, ShowsRecord F m df →
    df.columnStats F.base64 schema = df.columnStats F.base64 m.currentSchema

variable {F}

lemma readOff_get?_attachDeletes (deletes : List DeleteFile) (map : StatsMap) (p : Path) :
    ((StatsMap.attachDeletes deletes map).get? p).map
        (fun e => (e.partitionValues, e.columnStats)) =
      (map.get? p).map fun e => (e.partitionValues, e.columnStats) := by
  rw [StatsMap.attachDeletes]
  split_ifs
  · rfl
  · rw [KeyedMap.get?_mapValues, Option.map_map]
    rfl

lemma get?_ofList_listed {base64 : List UInt8 → String} {schema : Schema} {spec : PartitionSpec}
    {before after : List IcebergDataFile} {df : IcebergDataFile}
    (h : df.filePath ∉ after.map IcebergDataFile.filePath) :
    (KeyedMap.ofList ((before ++ df :: after).map
        (IcebergDataFile.toStatsEntry base64 schema spec)) : StatsMap).get? df.filePath =
      some (df.toStatsEntry base64 schema spec) := by
  rw [List.map_append, List.map_cons, KeyedMap.ofList]
  apply KeyedMap.get?_insertAll_append_cons (b := df.toStatsEntry base64 schema spec)
  rw [List.map_map]
  exact h

/-- Of all records of a path, the last one is shown. -/
lemma exists_last_record {records : List IcebergDataFile} {p : Path}
    (h : p ∈ records.map IcebergDataFile.filePath) :
    ∃ before df after, records = before ++ df :: after ∧ df.filePath = p ∧
      p ∉ after.map IcebergDataFile.filePath := by
  have hmem : p ∈ (records.map IcebergDataFile.filePath).reverse := List.mem_reverse.2 h
  rw [← List.map_reverse] at hmem
  obtain ⟨front, back, hsplit, hfront⟩ := List.eq_append_cons_of_mem hmem
  obtain ⟨after, rest, hreverse, hafter, hrest⟩ := List.map_eq_append_iff.1 hsplit
  obtain ⟨df, before, rfl, hdf, -⟩ := List.map_eq_cons_iff.1 hrest
  refine ⟨before.reverse, df, after.reverse, ?_, hdf, ?_⟩
  · rw [← List.reverse_reverse records, hreverse]
    simp
  · rw [List.map_reverse, hafter, List.mem_reverse]
    exact hfront

/-- The entries are the same exactly if the shown data files have the same partition values and the
same statistics. -/
lemma loadEntries_eq_iff {m m' : Manifest} (hlist : m'.manifestListPath = m.manifestListPath)
    (hentries : m'.entries = m.entries) (hdeletes : m'.deleteFiles = m.deleteFiles) :
    loadEntries F m' = loadEntries F m ↔
      (∀ df, ShowsRecord F m df →
        df.partitionValues m'.partitionSpec = df.partitionValues m.partitionSpec) ∧
      KeepsStats F m m'.currentSchema := by
  have hrecords : listedRecords F m' = listedRecords F m := by
    rw [listedRecords, hlist, listedRecords]
  have hpaths : (m.entries.map fun e =>
      ({ e with columnStats := F.inlineStats e } : StatsEntry)).map (fun e => e.filePath) =
        m.entries.map ManifestEntry.filePath := by
    rw [List.map_map]
    rfl
  constructor
  · intro heq
    have hread : ∀ df, ShowsRecord F m df →
        (df.partitionValues m'.partitionSpec, df.columnStats F.base64 m'.currentSchema) =
          (df.partitionValues m.partitionSpec, df.columnStats F.base64 m.currentSchema) := by
      rintro df ⟨hinline, before, after, hsplit, hafter⟩
      rw [← hpaths] at hinline
      have hpv := congrArg (fun map : StatsMap =>
        (map.get? df.filePath).map fun e => (e.partitionValues, e.columnStats)) heq
      simp only [loadEntries, readOff_get?_attachDeletes, hrecords, hentries, hsplit] at hpv
      rw [KeyedMap.get?_insertAll_of_notMem hinline, KeyedMap.get?_insertAll_of_notMem hinline,
        get?_ofList_listed hafter, get?_ofList_listed hafter] at hpv
      exact Option.some.inj hpv
    exact ⟨fun df hdf => congrArg Prod.fst (hread df hdf),
      fun df hdf => congrArg Prod.snd (hread df hdf)⟩
  · rintro ⟨hvalues, hstats⟩
    rw [loadEntries, loadEntries, hdeletes, hentries, hrecords]
    congr 1
    ext1 p
    by_cases hinline : p ∈ m.entries.map ManifestEntry.filePath
    · rw [← hpaths] at hinline
      rw [KeyedMap.get?_insertAll, KeyedMap.get?_insertAll]
      obtain ⟨e, he, hp⟩ := List.mem_map.1 hinline
      obtain ⟨x, hx⟩ : ∃ x, (m.entries.map fun e =>
          ({ e with columnStats := F.inlineStats e } : StatsEntry)).reverse.find?
            (fun e => e.filePath = p) = some x := by
        rw [← Option.isSome_iff_exists, List.find?_isSome]
        exact ⟨e, List.mem_reverse.2 he, by simpa using hp⟩
      rw [hx, Option.some_or, Option.some_or]
    · have hinline' := hpaths ▸ hinline
      rw [KeyedMap.get?_insertAll_of_notMem hinline', KeyedMap.get?_insertAll_of_notMem hinline']
      by_cases hlisted : p ∈ (listedRecords F m).map IcebergDataFile.filePath
      · obtain ⟨before, df, after, hsplit, rfl, hafter⟩ := exists_last_record hlisted
        have hshows : ShowsRecord F m df := ⟨hinline, before, after, hsplit, hafter⟩
        rw [hsplit, get?_ofList_listed hafter, get?_ofList_listed hafter,
          IcebergDataFile.toStatsEntry, IcebergDataFile.toManifestEntry, hvalues df hshows,
          hstats df hshows]
        rfl
      · have hnone : ∀ schema spec, p ∉ ((listedRecords F m).map (IcebergDataFile.toStatsEntry
            F.base64 schema spec)).map (fun e => e.filePath) := by
          intro schema spec
          rw [List.map_map]
          exact hlisted
        rw [KeyedMap.ofList, KeyedMap.ofList, KeyedMap.get?_insertAll_of_notMem (hnone _ _),
          KeyedMap.get?_insertAll_of_notMem (hnone _ _)]

/-- Only the names and types of the columns matter for the statistics. -/
lemma columnStats_congr {base64 : List UInt8 → String} {schema schema' : Schema}
    (h : ∀ id, (schema'.fieldOf id).map (fun field => (field.name, field.typeStr)) =
      (schema.fieldOf id).map fun field => (field.name, field.typeStr)) (df : IcebergDataFile) :
    df.columnStats base64 schema' = df.columnStats base64 schema := by
  rw [IcebergDataFile.columnStats, IcebergDataFile.columnStats]
  split
  · congr 1
    funext stats lower
    have hfield := h lower.1
    cases hf : schema.fieldOf lower.1 with
    | none =>
      rw [hf, Option.map_none, Option.map_eq_none_iff] at hfield
      rw [hfield]
    | some field =>
      rw [hf, Option.map_some, Option.map_eq_some_iff] at hfield
      obtain ⟨field', hf', heq⟩ := hfield
      rw [Prod.mk.injEq] at heq
      simp only [hf', heq.1, heq.2]
  · rfl

/-- New indexes keep the statistics, if the current schema is the last one and its successor has a
new id. -/
lemma keepsStats_setIndexes (columnIndexes : Finmap fun _ : String => List IndexAlgorithm)
    {m : Manifest} {schema : Schema} (hcurrent : m.currentSchema = schema)
    (hnew : ∀ s ∈ m.schemas, s.schemaId ≠ schema.schemaId + 1) :
    KeepsStats F m (resolveSchema (m.schemas ++ [schema.setIndexes columnIndexes])
      (schema.schemaId + 1)) := by
  have hresolve : resolveSchema (m.schemas ++ [schema.setIndexes columnIndexes])
      (schema.schemaId + 1) = schema.setIndexes columnIndexes := by
    have hnone : m.schemas.find? (fun s => s.schemaId = schema.schemaId + 1) = none := by
      simpa [List.find?_eq_none] using hnew
    simp [resolveSchema, List.find?_append, hnone, Schema.setIndexes]
  intro df _
  rw [hresolve, hcurrent]
  refine columnStats_congr (fun id => ?_) df
  rw [Schema.fieldOf_setIndexes, Option.map_map]
  congr 1
  funext field
  simp [SchemaField.name_setIndexes, SchemaField.typeStr_setIndexes]

end Entries

/-- The parts of the table state. -/
inductive Component where
  | entries
  | deleteFiles
  | properties
  | sortOrders
  | partitionSpecs
  /-- The specs that the table had. -/
  | specHistory
  | formatVersion
  | lastColumnId
  deriving DecidableEq

def Component.Unchanged (F : TableFiles) (old new : Manifest) :
    Component → Prop
  | entries => loadEntries F new = loadEntries F old
  | deleteFiles => new.deleteFiles = old.deleteFiles
  | properties => new.properties = old.properties
  | sortOrders =>
    new.sortOrders = old.sortOrders ∧ new.defaultSortOrderId = old.defaultSortOrderId
  | partitionSpecs =>
    new.partitionSpecs = old.partitionSpecs ∧ new.defaultSpecId = old.defaultSpecId
  | specHistory => ∀ spec ∈ old.partitionSpecs, spec ∈ new.partitionSpecs
  | formatVersion => new.formatVersion = old.formatVersion
  | lastColumnId => new.lastColumnId = old.lastColumnId

namespace MetadataOp

/-- The components that an update is called for. A new partition spec is added to the history. -/
def sets : MetadataOp → Component → Bool
  | updateSchema call, .lastColumnId => call.lastColumnId.isSome
  | updateProperties _, .properties => true
  | updatePartitionSpec _ _, .partitionSpecs => true
  | _, _ => false

/-- All other components stay as they were. -/
def Frame (op : MetadataOp) (F : TableFiles) (old new : Manifest) : Prop :=
  ∀ c, op.sets c = false → c.Unchanged F old new

end MetadataOp

/-- There is nothing that a schema update forgets. -/
structure Manifest.Plain (m : Manifest) : Prop where
  sortOrders : m.sortOrders = []
  defaultSortOrderId : m.defaultSortOrderId = 0
  partitionSpecs : m.partitionSpecs = [m.partitionSpec]
  defaultSpecId : m.defaultSpecId = m.partitionSpec.specId

namespace MetadataOp

/-- The state has only what the update carries over, and the schema that the new manifest resolves
to decodes the stored bounds as before. -/
def FrameSafe (F : TableFiles) (current : Manifest) : MetadataOp → Prop
  | updateSchema call => current.Plain ∧ current.properties = ∅ ∧
      KeepsStats F current (resolveSchema call.newSchemas call.newSchemaId)
  | updateIdentifierFields newIds nowMs seen => current.Plain ∧ current.properties = ∅ ∧
      ∀ call, identifierCall newIds nowMs seen = .ok (some call) →
        KeepsStats F current (resolveSchema call.newSchemas call.newSchemaId)
  | updateProperties _ => True
  | updateIndexSpecs columnIndexes _ => current.Plain ∧
      current.lastColumnId = maxFieldId current.schemas ∧
      ∀ schema, current.schemas.getLast? = some schema → KeepsStats F current
        (resolveSchema (current.schemas ++ [schema.setIndexes columnIndexes])
          (schema.schemaId + 1))
  | updatePartitionSpec newSpec _ =>
    current.sortOrders = [] ∧ current.defaultSortOrderId = 0 ∧
      (∀ spec ∈ current.partitionSpecs, spec = newSpec) ∧
      current.lastColumnId = maxFieldId current.schemas ∧
      ∀ df, ShowsRecord F current df →
        df.partitionValues newSpec = df.partitionValues current.partitionSpec

end MetadataOp

/-- Only the set of the ids matters for the greatest one. -/
lemma maxFieldId_append_singleton {schemas : List Schema} {schema schema' : Schema}
    (hmem : schema ∈ schemas)
    (hids : schema'.fields.map SchemaField.id = schema.fields.map SchemaField.id) :
    maxFieldId (schemas ++ [schema']) = maxFieldId schemas := by
  have hsub : schema.fields.map SchemaField.id ⊆
      schemas.flatMap fun s => s.fields.map SchemaField.id :=
    fun _ hid => List.mem_flatMap.2 ⟨schema, hmem, hid⟩
  rw [maxFieldId, List.flatMap_append, List.flatMap_singleton, hids, maxFieldId]
  generalize schemas.flatMap (fun s => s.fields.map SchemaField.id) = ids at hsub
  cases hmax : ids.max? with
  | none =>
    obtain rfl := List.max?_eq_none_iff.1 hmax
    rw [List.subset_nil.1 hsub]
    rfl
  | some top =>
    rw [List.max?_eq_some_iff] at hmax
    have happend : (ids ++ schema.fields.map SchemaField.id).max? = some top :=
      List.max?_eq_some_iff.2 ⟨List.mem_append_left _ hmax.1, fun id hid =>
        (List.mem_append.1 hid).elim (hmax.2 id) fun h => hmax.2 id (hsub h)⟩
    rw [happend]

namespace MetadataOp

variable {F : TableFiles} {op : MetadataOp} {current : Manifest}

/-- For a manifest with the lists, the entries, the deletes and the spec of another one, only the
statistics matter. -/
lemma unchanged_entries_iff {new : Manifest}
    (hlist : new.manifestListPath = current.manifestListPath)
    (hentries : new.entries = current.entries) (hdeletes : new.deleteFiles = current.deleteFiles)
    (hspec : new.partitionSpec = current.partitionSpec) :
    Component.entries.Unchanged F current new ↔ KeepsStats F current new.currentSchema := by
  refine (loadEntries_eq_iff hlist hentries hdeletes).trans (and_iff_right fun df _ => ?_)
  rw [hspec]

/-- A new manifest that is plain keeps the sort orders and specs of plain ones only. -/
lemma unchanged_iff_plain {new : Manifest} (hnew : new.Plain)
    (hspec : new.partitionSpec = current.partitionSpec) :
    Component.sortOrders.Unchanged F current new ∧
      Component.partitionSpecs.Unchanged F current new ↔ current.Plain := by
  rw [Component.Unchanged, Component.Unchanged, hnew.sortOrders, hnew.defaultSortOrderId,
    hnew.partitionSpecs, hnew.defaultSpecId, hspec]
  constructor
  · rintro ⟨⟨horders, hdefault⟩, hspecs, hid⟩
    exact ⟨horders.symm, hdefault.symm, hspecs.symm, hid.symm⟩
  · intro h
    exact ⟨⟨h.sortOrders.symm, h.defaultSortOrderId.symm⟩, h.partitionSpecs.symm,
      h.defaultSpecId.symm⟩

lemma frame_schemaManifest (call : SchemaCall) (nowMs : ℤ) (currentVer : ℕ)
    (hsets : ∀ c ≠ Component.lastColumnId, op.sets c = false)
    (hlast : op.sets .lastColumnId = false → call.lastColumnId = none) :
    op.Frame F current (schemaManifest call nowMs current currentVer) ↔
      current.Plain ∧ current.properties = ∅ ∧
        KeepsStats F current (resolveSchema call.newSchemas call.newSchemaId) := by
  have hentries : Component.entries.Unchanged F current
      (schemaManifest call nowMs current currentVer) ↔ KeepsStats F current
        (resolveSchema call.newSchemas call.newSchemaId) :=
    unchanged_entries_iff rfl rfl rfl rfl
  have hplain := @unchanged_iff_plain F current (schemaManifest call nowMs current currentVer)
    ⟨rfl, rfl, rfl, rfl⟩ rfl
  constructor
  · intro hframe
    exact ⟨hplain.1 ⟨hframe _ (hsets _ (by decide)), hframe _ (hsets _ (by decide))⟩,
      (hframe .properties (hsets _ (by decide))).symm,
      hentries.1 (hframe .entries (hsets _ (by decide)))⟩
  · rintro ⟨h, hproperties, hstats⟩ c hc
    cases c with
    | entries => exact hentries.2 hstats
    | deleteFiles => rfl
    | properties => exact hproperties.symm
    | sortOrders => exact (hplain.2 h).1
    | partitionSpecs => exact (hplain.2 h).2
    | specHistory => exact fun _ hspec => (hplain.2 h).2.1 ▸ hspec
    | formatVersion => rfl
    | lastColumnId =>
      show call.lastColumnId.getD current.lastColumnId = current.lastColumnId
      rw [hlast hc, Option.getD_none]

lemma frame_indexSpecsManifest (columnIndexes : Finmap fun _ : String => List IndexAlgorithm)
    (clock : ℕ → ℤ) (nowMs : ℤ) (currentVer : ℕ) {schema : Schema}
    (hschema : current.schemas.getLast? = some schema) :
    (updateIndexSpecs columnIndexes clock).Frame F current
        (indexSpecsManifest columnIndexes nowMs current currentVer schema) ↔
      (updateIndexSpecs columnIndexes clock).FrameSafe F current := by
  have hids : (schema.setIndexes columnIndexes).fields.map SchemaField.id =
      schema.fields.map SchemaField.id := by
    rw [Schema.setIndexes, List.map_map]
    exact List.map_congr_left fun f _ => f.id_setIndexes columnIndexes
  have hlast : (indexSpecsManifest columnIndexes nowMs current currentVer schema).lastColumnId =
      maxFieldId current.schemas :=
    maxFieldId_append_singleton (List.mem_of_getLast? hschema) hids
  have hentries : Component.entries.Unchanged F current
      (indexSpecsManifest columnIndexes nowMs current currentVer schema) ↔ KeepsStats F current
        (resolveSchema (current.schemas ++ [schema.setIndexes columnIndexes])
          (schema.schemaId + 1)) :=
    unchanged_entries_iff rfl rfl rfl rfl
  have hplain := @unchanged_iff_plain F current
    (indexSpecsManifest columnIndexes nowMs current currentVer schema) ⟨rfl, rfl, rfl, rfl⟩ rfl
  constructor
  · intro hframe
    refine ⟨hplain.1 ⟨hframe _ rfl, hframe _ rfl⟩, (hframe .lastColumnId rfl).symm.trans hlast,
      fun schema' hschema' => ?_⟩
    rw [hschema, Option.some.injEq] at hschema'
    exact hschema' ▸ hentries.1 (hframe .entries rfl)
  · rintro ⟨h, hcurrent, hstats⟩ c -
    cases c with
    | entries => exact hentries.2 (hstats schema hschema)
    | deleteFiles => rfl
    | properties => rfl
    | sortOrders => exact (hplain.2 h).1
    | partitionSpecs => exact (hplain.2 h).2
    | specHistory => exact fun _ hspec => (hplain.2 h).2.1 ▸ hspec
    | formatVersion => rfl
    | lastColumnId => exact hlast.trans hcurrent.symm

lemma frame_partitionSpecManifest (newSpec : PartitionSpec) (clock : ℕ → ℤ) (nowMs : ℤ)
    (currentVer : ℕ) :
    (updatePartitionSpec newSpec clock).Frame F current
        (partitionSpecManifest newSpec nowMs current currentVer) ↔
      (updatePartitionSpec newSpec clock).FrameSafe F current := by
  have hentries : Component.entries.Unchanged F current
      (partitionSpecManifest newSpec nowMs current currentVer) ↔
      ∀ df, ShowsRecord F current df →
        df.partitionValues newSpec = df.partitionValues current.partitionSpec := by
    have hschema : KeepsStats F current
        (partitionSpecManifest newSpec nowMs current currentVer).currentSchema := fun _ _ => rfl
    refine (loadEntries_eq_iff ?_ ?_ ?_).trans (and_iff_left hschema) <;> rfl
  constructor
  · intro hframe
    have hsort := hframe .sortOrders rfl
    refine ⟨hsort.1.symm, hsort.2.symm, fun spec hspec => ?_, (hframe .lastColumnId rfl).symm,
      hentries.1 (hframe .entries rfl)⟩
    exact List.mem_singleton.1 (hframe .specHistory rfl spec hspec)
  · rintro ⟨horders, hdefault, hhistory, hlast, hvalues⟩ c hc
    cases c with
    | entries => exact hentries.2 hvalues
    | deleteFiles => rfl
    | properties => rfl
    | sortOrders => exact ⟨horders.symm, hdefault.symm⟩
    | partitionSpecs => cases hc
    | specHistory => exact fun spec hspec => List.mem_singleton.2 (hhistory spec hspec)
    | formatVersion => rfl
    | lastColumnId => exact hlast.symm

/-- An update leaves the rest of the table state alone exactly if the state has nothing that the
update does not carry over and the stored bounds are decoded as before. -/
theorem frame_iff {new : Manifest} (h : op.Creates current new) :
    op.Frame F current new ↔ op.FrameSafe F current := by
  cases h.makes with
  | schema call nowMs currentVer =>
    apply frame_schemaManifest
    · intro c hc
      cases c <;> first | rfl | exact absurd rfl hc
    · intro hlast
      exact Option.isNone_iff_eq_none.1 (Option.isSome_eq_false_iff.1 hlast)
  | properties call properties nowMs currentVer =>
    refine iff_of_true (fun c hc => ?_) trivial
    cases c with
    | entries => exact (unchanged_entries_iff rfl rfl rfl rfl).2 fun _ _ => rfl
    | properties => cases hc
    | sortOrders | partitionSpecs => exact ⟨rfl, rfl⟩
    | specHistory => exact fun _ hspec => hspec
    | deleteFiles | formatVersion | lastColumnId => rfl
  | indexSpecs columnIndexes clock nowMs currentVer hschema =>
    exact frame_indexSpecsManifest columnIndexes clock nowMs currentVer hschema
  | partitionSpec newSpec clock nowMs currentVer =>
    exact frame_partitionSpecManifest newSpec clock nowMs currentVer
  | @identifierFields newIds clock seen call hcall nowMs currentVer =>
    rw [frame_schemaManifest call nowMs currentVer (fun c _ => by cases c <;> rfl) fun _ =>
      lastColumnId_of_identifierCall hcall, FrameSafe]
    refine and_congr_right fun _ => and_congr_right fun _ => ⟨fun h call' hcall' => ?_, fun h =>
      h call hcall⟩
    rw [hcall, Except.ok.injEq, Option.some.injEq] at hcall'
    exact hcall' ▸ h

/-! ### A property that a schema update loses -/

/-- A schema with one column `id`. -/
def idSchema : SchemaCall where
  newSchemas := [{ fields := [⟨1, "id", "long", true, [], []⟩] }]
  newSchemaId := 0
  lastColumnId := some 1

/-- The first version of a table, created by an update of the schema, with a manifest list. -/
def idManifest : Manifest :=
  { schemaManifest idSchema 0 {} 0 with manifestListPath := some ⟨1, 0⟩ }

/-- The manifest list has the data file `a` with the ids 3 to 7. -/
def idFiles : TableFiles where
  lists _ := [⟨1, [{
    content := 0
    filePath := ['a']
    lowerBounds := some [(1, [3, 0, 0, 0, 0, 0, 0, 0])]
    upperBounds := some [(1, [7, 0, 0, 0, 0, 0, 0, 0])]
    nullValueCounts := some [(1, 0)] }]⟩]
  inlineStats _ := ∅
  base64 _ := ""

theorem frame_idManifest :
    (updateIndexSpecs (Finmap.singleton "id" [.bitmap]) fun _ => 0).Frame idFiles idManifest
      (indexSpecsManifest (Finmap.singleton "id" [.bitmap]) 0 idManifest 1
        { fields := [⟨1, "id", "long", true, [], []⟩] }) := by
  refine (frame_iff ⟨_, 0, {}, {}, 1, rfl, ?_⟩).2 ⟨⟨rfl, rfl, rfl, rfl⟩, by decide, ?_⟩
  · rw [indexSpecsOp]
    exact congrArg (fun r => (r, ({} : World))) (by decide +kernel)
  · rintro _ ⟨⟩
    exact keepsStats_setIndexes _ rfl (by decide)

def ownerCall : PropertiesCall where
  properties := Finmap.singleton "owner" "ada"

/-- A client sets the property `owner` of a new table and then updates its schema. -/
def afterOwner : Except CommitError Manifest × World := (propertiesOp ownerCall).run {} {}

theorem not_frame_owner :
    ∃ m m' w', afterOwner.1 = .ok m ∧ (schemaOp idSchema).run {} afterOwner.2 = (.ok m', w') ∧
      (updateSchema idSchema).Creates m m' ∧
      ¬ (updateSchema idSchema).Frame idFiles m m' := by
  refine ⟨{ Manifest.new 0 1 [] (some 0) with properties := Finmap.singleton "owner" "ada" },
    schemaManifest idSchema 0 (Manifest.new 0 1 [] (some 0)) 1, ((schemaOp idSchema).run {}
      afterOwner.2).2, by decide +kernel, Prod.ext (by decide +kernel) rfl,
    ⟨_, 0, {}, {}, 1, rfl, by rfl⟩, fun hframe => ?_⟩
  have hproperties : (∅ : Properties) = Finmap.singleton "owner" "ada" := hframe .properties rfl
  revert hproperties
  decide +kernel

end MetadataOp

end BenoStreamDB

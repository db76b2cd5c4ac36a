import BenoStreamDB.Foundations.KeyedMap
import BenoStreamDB.Manifest.Path
import Mathlib.Data.Rat.Defs

/-!
# Manifest data

The records of `manifest/types.rs`. A `HashMap` of the source is a `Finmap`: its iteration order
is not part of the value. 64-bit counters are unbounded naturals, since no table reaches
`2 ^ 63` versions.
-/

namespace BenoStreamDB

/-- A JSON scalar, the form of a partition value. A JSON number is either an integer or a
finite double, and the two never compare equal. The double `-0.0` is taken for `0.0`, to which
`serde_json` compares it equal; arrays and objects are left out. -/
inductive Value where
  | null
  | bool (b : Bool)
  | int (i : ℤ)
  | real (q : ℚ)
  | string (s : String)
  deriving DecidableEq

abbrev PartitionValues := Finmap (fun _ : String => Value)

abbrev Properties := Finmap (fun _ : String => String)

structure IndexFile where
  indexId : String
  algorithm : String
  columnName : String
  filePath : Path
  deriving DecidableEq

inductive DeleteContent where
  | position
  | equality (equalityIds : List ℤ)
  | deletionVector (puffinFilePath : Path) (contentOffset contentSizeInBytes : ℤ)
  deriving DecidableEq

structure DeleteFile where
  filePath : Path
  content : DeleteContent
  fileSizeBytes : ℤ
  recordCount : ℤ
  partitionValues : PartitionValues
  deriving DecidableEq

structure ManifestEntry where
  filePath : Path
  fileSizeBytes : ℤ := 0
  recordCount : ℤ := 0
  indexFiles : List IndexFile := []
  deleteFiles : List DeleteFile := []
  partitionValues : PartitionValues := ∅
  /-- The `_row_id` of the first row, if the file was written with row lineage. -/
  firstRowId : Option ℤ := none
  deriving DecidableEq

inductive IndexAlgorithm where
  | hnsw (metric : String) (complexity quality : ℕ) (buildDevice searchDevice : Option String)
  | hnswPq (metric : String) (complexity quality compression : ℕ)
  | hnswTq4 (metric : String) (complexity quality : ℕ)
  | hnswTq8 (metric : String) (complexity quality : ℕ)
  | bm25 (k1 b : ℚ) (tokenizer : String)
  | bloom (fpr : ℚ)
  | bitmap
  | compositeBitmap (columns : List String)
  | csrGraph (srcColumn dstColumn : String)
  | jsonPath (paths : List String)
  deriving DecidableEq

structure SchemaField where
  id : ℤ
  name : String
  typeStr : String
  required : Bool
  /-- The members of a struct, or the element of a list. -/
  fields : List SchemaField := []
  indexes : List IndexAlgorithm := []

mutual
/-- Equality of fields, through the nested ones. -/
def SchemaField.decEq : (f g : SchemaField) → Decidable (f = g)
  | ⟨id, name, typeStr, required, fields, indexes⟩,
    ⟨id', name', typeStr', required', fields', indexes'⟩ =>
    have := SchemaField.decEqList fields fields'
    decidable_of_iff (id = id' ∧ name = name' ∧ typeStr = typeStr' ∧ required = required' ∧
      fields = fields' ∧ indexes = indexes') (by rw [SchemaField.mk.injEq])

def SchemaField.decEqList : (fs gs : List SchemaField) → Decidable (fs = gs)
  | [], [] => isTrue rfl
  | [], _ :: _ | _ :: _, [] => isFalse (by simp)
  | f :: fs, g :: gs =>
    have := SchemaField.decEq f g
    have := SchemaField.decEqList fs gs
    decidable_of_iff (f = g ∧ fs = gs) (by rw [List.cons.injEq])
end

instance : DecidableEq SchemaField := SchemaField.decEq

structure Schema where
  schemaId : ℤ := 0
  fields : List SchemaField := []
  identifierFieldIds : List ℤ := []
  deriving DecidableEq

structure PartitionField where
  sourceIds : List ℤ
  sourceId : Option ℤ
  fieldId : Option ℤ
  name : String
  transform : String
  deriving DecidableEq

structure PartitionSpec where
  specId : ℤ := 0
  fields : List PartitionField := []
  deriving DecidableEq

inductive SortDirection where
  | asc
  | desc
  deriving DecidableEq

inductive NullOrder where
  | nullsFirst
  | nullsLast
  deriving DecidableEq

structure SortField where
  sourceId : ℤ
  transform : String
  direction : SortDirection
  nullOrder : NullOrder
  deriving DecidableEq

structure SortOrder where
  orderId : ℤ := 0
  fields : List SortField := []
  deriving DecidableEq

/-! ### Object names

The manifest directory holds `v{N}.json`, `snap-{N}-{uuid}.avro`, `{uuid}-m{idx}.avro` and
`{uuid}-d0.avro`. A path stored in a manifest or a manifest list is only ever resolved through
its last segment, so the segment is what is kept. -/

abbrev Uuid := ℕ

/-- `snap-{version}-{uuid}.avro` -/
structure ListName where
  version : ℕ
  uuid : Uuid
  deriving DecidableEq

inductive ManifestFileName where
  /-- `{uuid}-m{idx}.avro` -/
  | data (uuid : Uuid) (idx : ℕ)
  /-- `{uuid}-d0.avro` -/
  | deletes (uuid : Uuid)
  deriving DecidableEq

def ManifestFileName.uuid : ManifestFileName → Uuid
  | .data uuid _ => uuid
  | .deletes uuid => uuid

/-- The `content` field of a manifest list entry: 0 = data, 1 = deletes. -/
inductive ManifestContent where
  | data
  | deletes
  deriving DecidableEq

structure ManifestListEntry where
  manifestPath : ManifestFileName
  partitionSpecId : ℤ
  content : ManifestContent
  sequenceNumber : ℕ
  addedFilesCount : ℕ
  existingFilesCount : ℕ
  addedRowsCount : ℤ
  deriving DecidableEq

structure Manifest where
  version : ℕ := 0
  formatVersion : ℤ := 0
  timestampMs : ℤ := 0
  manifestListPath : Option ListName := none
  entries : List ManifestEntry := []
  deleteFiles : List DeleteFile := []
  prevVersion : Option ℕ := none
  schemas : List Schema := []
  currentSchemaId : ℤ := 0
  partitionSpec : PartitionSpec := {}
  partitionSpecs : List PartitionSpec := []
  defaultSpecId : ℤ := 0
  sortOrders : List SortOrder := []
  defaultSortOrderId : ℤ := 0
  properties : Properties := ∅
  lastColumnId : ℤ := 0
  deriving DecidableEq

/-- `Manifest::new` -/
def Manifest.new (nowMs : ℤ) (version : ℕ) (entries : List ManifestEntry)
    (prevVersion : Option ℕ) : Manifest where
  version := version
  formatVersion := 2
  timestampMs := nowMs
  entries := entries
  prevVersion := prevVersion

/-- `iter().max().unwrap_or(0)` over the top-level field ids of every schema -/
def maxFieldId (schemas : List Schema) : ℤ :=
  ((schemas.flatMap fun s => s.fields.map SchemaField.id).max?).getD 0

/-- `Manifest::new_with_spec` -/
def Manifest.newWithSpec (nowMs : ℤ) (version : ℕ) (entries : List ManifestEntry)
    (prevVersion : Option ℕ) (schemaList : List Schema) (currentSchemaId : ℤ)
    (partitionSpec : PartitionSpec) : Manifest where
  version := version
  formatVersion := 2
  timestampMs := nowMs
  entries := entries
  prevVersion := prevVersion
  schemas := schemaList
  currentSchemaId := currentSchemaId
  partitionSpec := partitionSpec
  partitionSpecs := [partitionSpec]
  defaultSpecId := partitionSpec.specId
  lastColumnId := maxFieldId schemaList

/-- A map of manifest entries by `file_path`, as `load_all_entries` and `commit` build it. -/
abbrev EntryMap := KeyedMap ManifestEntry.filePath

end BenoStreamDB

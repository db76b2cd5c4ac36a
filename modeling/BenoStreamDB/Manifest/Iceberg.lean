import BenoStreamDB.Manifest.BoundCodec
import BenoStreamDB.Manifest.Load

/-!
# Records of Iceberg manifests

`convert_iceberg_to_object` of `iceberg/manifest.rs`: what becomes of the record of a data file or
of a delete file when a manifest is read. The values of the partition record are named by position
after the fields of the table's current partition spec, the column bounds are decoded with the names
and types of the table's current schema, and a deletion vector loses the name of the data file that
it was written for.

Checksums are left out. The index files stand for their JSON text. The column statistics stand next
to the entry, see `columnStats`.
-/

namespace BenoStreamDB

/-- The path of a delete file relative to the table, as the reader resolves it. -/
def resolveDeletePath (rootUri path : Path) : Path :=
  let rootClean := trimEndSlashes (stripScheme rootUri)
  let pathClean := stripScheme path
  if rootClean = [] then trimStartSlashes pathClean
  else
    match pathClean.dropPrefix? rootClean with
    | some rest => trimStartSlashes rest
    | none => trimStartSlashes pathClean

/-- `ColumnStats` -/
structure ColumnBounds where
  min : Option BoundValue := none
  max : Option BoundValue := none
  nullCount : ℤ := 0
  deriving DecidableEq

/-- The statistics of the columns of a data file, by name. -/
abbrev ColumnStatistics := Finmap (fun _ : String => ColumnBounds)

/-- `field_map`: of two fields with one id, the last. -/
def Schema.fieldOf (schema : Schema) (id : ℤ) : Option SchemaField :=
  schema.fields.reverse.find? fun field => field.id = id

structure IcebergDataFile where
  /-- 0 = data, 1 = position deletes, 2 = equality deletes, 3 = deletion vector. -/
  content : ℤ
  filePath : Path
  /-- The values of the partition record, in the order of its fields. -/
  partition : List Value := []
  recordCount : ℤ := 0
  fileSizeInBytes : ℤ := 0
  equalityIds : Option (List ℤ) := none
  referencedDataFile : Option Path := none
  contentOffset : Option ℤ := none
  contentSizeInBytes : Option ℤ := none
  indexFiles : List IndexFile := []
  firstRowId : Option ℤ := none
  /-- The bounds and the null counts of the columns, by field id, in the order of the hash map. -/
  lowerBounds : Option (List (ℤ × List UInt8)) := none
  upperBounds : Option (List (ℤ × List UInt8)) := none
  nullValueCounts : Option (List (ℤ × ℤ)) := none
  deriving DecidableEq

namespace IcebergDataFile

/-- `partition_values`: empty unless the record has as many values as the spec has fields. -/
def partitionValues (spec : PartitionSpec) (df : IcebergDataFile) : PartitionValues :=
  spec.recordValues df.partition

/-- `column_stats`: a column with a lower bound, under its name in the schema. None if one of the
three maps is missing. -/
def columnStats (base64 : List UInt8 → String) (schema : Schema) (df : IcebergDataFile) :
    ColumnStatistics :=
  match df.lowerBounds, df.upperBounds, df.nullValueCounts with
  | some lowers, some uppers, some nulls =>
    lowers.foldl (fun stats lower =>
      match schema.fieldOf lower.1 with
      | some field =>
        stats.insert field.name
          { min := some (decodeIcebergValue base64 (.string field.typeStr) lower.2)
            max := (uppers.lookup lower.1).map
              (decodeIcebergValue base64 (.string field.typeStr))
            nullCount := (nulls.lookup lower.1).getD 0 }
      | none => stats) ∅
  | _, _, _ => ∅

/-- The content of a record that is not a data file. -/
def deleteContent (df : IcebergDataFile) : DeleteContent :=
  if df.content = 1 then .position
  else if df.content = 2 then .equality (df.equalityIds.getD [])
  else if df.content = 3 then
    match df.referencedDataFile, df.contentOffset, df.contentSizeInBytes with
    | some _, some offset, some size => .deletionVector df.filePath offset size
    | _, _, _ => .position
  else .position

def toDeleteFile (spec : PartitionSpec) (df : IcebergDataFile) : DeleteFile where
  filePath := df.filePath
  content := df.deleteContent
  fileSizeBytes := df.fileSizeInBytes
  recordCount := df.recordCount
  partitionValues := df.partitionValues spec

def toManifestEntry (spec : PartitionSpec) (df : IcebergDataFile) : ManifestEntry where
  filePath := df.filePath
  fileSizeBytes := df.fileSizeInBytes
  recordCount := df.recordCount
  partitionValues := df.partitionValues spec
  indexFiles := df.indexFiles
  firstRowId := df.firstRowId

/-- `convert_iceberg_to_object`. -/
def convertIcebergToObject (spec : PartitionSpec) (df : IcebergDataFile) : IcebergObject :=
  if df.content = 0 then .data (df.toManifestEntry spec) else .delete (df.toDeleteFile spec)

end IcebergDataFile

/-- A data manifest under the UUID of its name. -/
structure DataManifest where
  uuid : Uuid
  records : List IcebergDataFile
  deriving DecidableEq

/-- The delete list of the records of a snapshot, each path once. -/
def snapshotDeletes (rootUri : Path) (spec : PartitionSpec) (records : List IcebergDataFile) :
    List DeleteFile :=
  avroDeleteFiles rootUri (records.map fun df => ⟨.added, df.convertIcebergToObject spec⟩)

/-- The delete file of a record under the path that the engine uses. -/
def IcebergDataFile.listedAs (rootUri : Path) (spec : PartitionSpec) (df : IcebergDataFile) :
    DeleteFile :=
  { df.toDeleteFile spec with filePath := relativizeFilePath rootUri df.filePath }

end BenoStreamDB

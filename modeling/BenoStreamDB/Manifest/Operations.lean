import BenoStreamDB.Manifest.Import

/-!
# Metadata updates

`update_schema` and `update_properties` of `manifest/manager/schema.rs`, as operations that create a
version.
-/

namespace BenoStreamDB

/-! ### Metadata -/

structure SchemaCall where
  newSchemas : List Schema
  newSchemaId : ℤ
  lastColumnId : Option ℤ := none
  nowMs : ℕ → ℤ := fun _ => 0

/-- The manifest of a schema update. Properties, sort orders and the history of partition specs
are not carried over. -/
def schemaManifest (call : SchemaCall) (nowMs : ℤ) (current : Manifest) (currentVer : ℕ) :
    Manifest :=
  { Manifest.newWithSpec nowMs (currentVer + 1) current.entries (some currentVer)
      call.newSchemas call.newSchemaId current.partitionSpec with
    manifestListPath := current.manifestListPath
    lastColumnId := call.lastColumnId.getD current.lastColumnId
    formatVersion := current.formatVersion
    deleteFiles := current.deleteFiles }

/-- `update_schema`. The bound of ten retries is tested before it is counted, which makes eleven
attempts. -/
def schemaOp (call : SchemaCall) : VersionOp where
  name := .schemaUpdate
  maxRetries := 10
  attempts := 11
  startsCached attempt := attempt = 0
  nowMs := call.nowMs
  propose attempt w current currentVer :=
    (.ok (some (schemaManifest call (call.nowMs attempt) current currentVer)), w)
  prepares _ w _ _ := .refl w
  numbered h := by
    cases h
    exact ⟨rfl, rfl⟩
  cachesLatest := true
  invalidatesOnConflict := true

structure PropertiesCall where
  properties : Properties
  nowMs : ℕ → ℤ := fun _ => 0

/-- The given properties replace those of the current manifest. -/
def proposeProperties (properties : Properties) (nowMs : ℤ) (current : Manifest)
    (currentVer : ℕ) : Except CommitError (Option Manifest) :=
  proposeIfKept
    (validateEmbeddingPropertyTransition current.properties properties
      (decide (current.entries ≠ []) || current.manifestListPath.isSome))
    { current with
      version := currentVer + 1
      prevVersion := some currentVer
      timestampMs := nowMs
      properties := properties }

/-- `update_properties`. Every attempt normalises the property map of the call again. -/
def propertiesOp (call : PropertiesCall) : VersionOp where
  name := .propertiesUpdate
  maxRetries := 10
  attempts := 11
  startsCached attempt := attempt = 0
  nowMs := call.nowMs
  propose attempt w current currentVer :=
    (proposeProperties (normalizeEmbeddingProperties^[attempt + 1] call.properties)
      (call.nowMs attempt) current currentVer, w)
  prepares _ w _ _ := .refl w
  numbered h := by
    rw [proposeIfKept_eq_ok h]
    exact ⟨rfl, rfl⟩
  cachesLatest := true
  invalidatesOnConflict := true

end BenoStreamDB

import BenoStreamDB.Manifest.VersionOp
import Mathlib.Algebra.Ring.Int.Defs

/-!
# Commit

`ManifestManager::commit` of `manifest/manager/commit.rs`: load the current entries, remove and
add, write the entries out through a manifest list, then create `v{N+1}.json` if no other writer
did, with retries.
-/

namespace BenoStreamDB

structure CommitMetadata where
  updatedSchemas : Option (List Schema) := none
  updatedSchemaId : Option ℤ := none
  updatedPartitionSpecs : Option (List PartitionSpec) := none
  updatedDefaultSpecId : Option ℤ := none
  updatedProperties : Option Properties := none
  removedProperties : Option (List String) := none
  updatedSortOrders : Option (List SortOrder) := none
  updatedDefaultSortOrderId : Option ℤ := none
  updatedLastColumnId : Option ℤ := none
  formatVersion : Option ℤ := none
  requireRemovePathsExist : Bool := false
  skipMissingRemovePaths : Bool := false
  discardAddOnMissingRemove : Bool := false

/-- What one attempt takes from its surroundings: the clock, the configured bound on manifest
files, the iteration order of hash maps, the split of entries into manifest files of about 8 MB,
and the completion order of uploads and downloads. -/
structure CommitEnv where
  nowMs : ℤ
  maxManifestFiles : ℕ
  maxManifestFiles_pos : 0 < maxManifestFiles
  values : EntryMap → List ManifestEntry
  coe_values : ∀ m, (values m : Multiset ManifestEntry) = m.values
  chunks : List ManifestEntry → List (List ManifestEntry)
  flatten_chunks : ∀ es, (chunks es).flatten = es
  uploads : Arrival ManifestListEntry
  loads : Arrival ManifestListEntry

/-- Everything in order and in one manifest file, with the default bound of 32 files. -/
def CommitEnv.inOrder : CommitEnv where
  nowMs := 0
  maxManifestFiles := 32
  maxManifestFiles_pos := by decide
  values := KeyedMap.sortedValues (· ≤ ·)
  coe_values := KeyedMap.coe_sortedValues (· ≤ ·)
  chunks es := if es = [] then [] else [es]
  flatten_chunks es := by split_ifs with h <;> simp [h]
  uploads := Arrival.fifo _
  loads := Arrival.fifo _

/-! ### The new state of the entries -/

/-- The loop over `remove_paths`: a missing path is an error if the metadata requires it. -/
def removePaths (md : CommitMetadata) (currentVer : ℕ) :
    EntryMap → List Path → Except CommitError EntryMap
  | active, [] => .ok active
  | active, p :: ps =>
    if active.contains p = false ∧ md.requireRemovePathsExist ∧ md.skipMissingRemovePaths = false
    then .error (.precondition p currentVer)
    else removePaths md currentVer (active.erase p) ps

/-- `none`: a compaction whose input is already gone is discarded as a whole. -/
def rebase (md : CommitMetadata) (currentVer : ℕ) (allEntries : EntryMap)
    (remove : List Path) : Except CommitError (Option EntryMap) :=
  if md.discardAddOnMissingRemove ∧ ∃ p ∈ remove, allEntries.contains p = false then .ok none
  else
    match removePaths md currentVer allEntries remove with
    | .ok active => .ok (some active)
    | .error e => .error e

/-- Insert an entry by path; an existing entry with more index files keeps them. -/
def addEntry (active : EntryMap) (e : ManifestEntry) : EntryMap :=
  match active.get? e.filePath with
  | some existing =>
    if e.indexFiles.length < existing.indexFiles.length then
      active.insert { e with indexFiles := existing.indexFiles }
    else active.insert e
  | none => active.insert e

def addEntries (active : EntryMap) (add : List ManifestEntry) : EntryMap :=
  add.foldl addEntry active

/-- The delete list of the snapshot: the one of its parent, and the new delete files of the added
entries, each path once. -/
def globalDeleteFiles (current : List DeleteFile) (add : List ManifestEntry) : List DeleteFile :=
  (add.flatMap ManifestEntry.deleteFiles).foldl pushNewDelete current

/-- `some prev`: every added entry is a new file and nothing is removed, so that the manifest
files `prev` of the parent can be referenced unchanged. `none`: the live entries are rewritten,
also when the parent has already accumulated the maximal number of manifest files. -/
def appendBase (s : ManifestStore) (env : CommitEnv) (current : Manifest) (active : EntryMap)
    (add : List ManifestEntry) (remove : List Path) :
    Except LoadError (Option (List ManifestListEntry)) :=
  if remove = [] ∧ ∀ e ∈ add, active.contains e.filePath = false then
    match current.manifestListPath with
    | none => .ok (some [])
    | some n => do
      let files ← s.loadManifestList n
      return if env.maxManifestFiles ≤ files.length then none else some files
  else .ok none

/-! ### Writing manifest files -/

/-- The form in which an entry is written to a manifest file. -/
def qualifyEntry (rootUri : Path) (e : ManifestEntry) : ManifestEntry :=
  { e with filePath := qualifyFilePath rootUri e.filePath, deleteFiles := [] }

namespace ManifestStore

/-- Upload a manifest file under a name with a fresh UUID. -/
def putManifestFile (s : ManifestStore) (n : ManifestFileName) (hn : n.uuid = s.nextUuid)
    (file : AvroManifest) : ManifestStore :=
  { s with
    files := s.files.insert n file
    nextUuid := s.nextUuid + 1
    lists_lt := fun k hk => Nat.lt_succ_of_lt (s.lists_lt k hk)
    files_lt := fun k hk => by
      rcases Finmap.mem_insert.1 hk with rfl | hk
      · exact hn ▸ Nat.lt_succ_self _
      · exact Nat.lt_succ_of_lt (s.files_lt k hk) }

/-- Upload one manifest file per chunk. -/
def putChunks (newVer : ℕ) (spec : PartitionSpec) :
    ManifestStore → ℕ → List (List ManifestEntry) → ManifestStore × List ManifestListEntry
  | s, _, [] => (s, [])
  | s, idx, chunk :: chunks =>
    let name := ManifestFileName.data s.nextUuid idx
    let entry : ManifestListEntry :=
      { manifestPath := name
        partitionSpecId := spec.specId
        content := .data
        sequenceNumber := newVer
        addedFilesCount := chunk.length
        existingFilesCount := 0
        addedRowsCount := (chunk.map ManifestEntry.recordCount).sum }
    let (s, rest) := putChunks newVer spec
      (s.putManifestFile name rfl ⟨spec, chunk.map fun e => ⟨.added, .data e⟩⟩) (idx + 1) chunks
    (s, entry :: rest)

/-- Upload the delete manifest, if there is any delete file. -/
def putDeleteManifest (s : ManifestStore) (newVer : ℕ) (spec : PartitionSpec)
    (deletes : List DeleteFile) (previous : List Path) : ManifestStore × List ManifestListEntry :=
  if deletes = [] then (s, [])
  else
    let name := ManifestFileName.deletes s.nextUuid
    let entry : ManifestListEntry :=
      { manifestPath := name
        partitionSpecId := spec.specId
        content := .deletes
        sequenceNumber := newVer
        addedFilesCount := (deletes.filter fun d => !previous.contains d.filePath).length
        existingFilesCount := (deletes.filter fun d => previous.contains d.filePath).length
        addedRowsCount := 0 }
    let content := deletes.map fun d =>
      ⟨if previous.contains d.filePath then .existing else .added, .delete d⟩
    (s.putManifestFile name rfl ⟨spec, content⟩, [entry])

def putManifestList (s : ManifestStore) (newVer : ℕ) (files : List ManifestListEntry) :
    ManifestStore × ListName :=
  let name : ListName := ⟨newVer, s.nextUuid⟩
  ({ s with
      lists := s.lists.insert name files
      nextUuid := s.nextUuid + 1
      lists_lt := fun k hk => by
        rcases Finmap.mem_insert.1 hk with rfl | hk
        · exact Nat.lt_succ_self _
        · exact Nat.lt_succ_of_lt (s.lists_lt k hk)
      files_lt := fun k hk => Nat.lt_succ_of_lt (s.files_lt k hk) }, name)

lemma extends_putManifestFile (s : ManifestStore) (n : ManifestFileName)
    (hn : n.uuid = s.nextUuid) (file : AvroManifest) :
    s.Extends (s.putManifestFile n hn file) where
  lists := id
  files {k c} hk := by
    have hne : k ≠ n := by
      rintro rfl
      exact absurd (s.files_lt k (Finmap.mem_of_lookup_eq_some hk)) (hn ▸ lt_irrefl _)
    exact (Finmap.lookup_insert_of_ne _ hne).trans hk

lemma extends_putManifestList (s : ManifestStore) (newVer : ℕ) (files : List ManifestListEntry) :
    s.Extends (s.putManifestList newVer files).1 where
  lists {k fs} hk := by
    have hne : k ≠ ⟨newVer, s.nextUuid⟩ := by
      rintro rfl
      exact absurd (s.lists_lt _ (Finmap.mem_of_lookup_eq_some hk)) (by simp)
    exact (Finmap.lookup_insert_of_ne _ hne).trans hk
  files := id

lemma extends_putDeleteManifest (s : ManifestStore) (newVer : ℕ) (spec : PartitionSpec)
    (deletes : List DeleteFile) (previous : List Path) :
    s.Extends (s.putDeleteManifest newVer spec deletes previous).1 := by
  unfold putDeleteManifest
  split_ifs
  · exact .refl s
  · exact s.extends_putManifestFile _ rfl _

lemma extends_putChunks (newVer : ℕ) (spec : PartitionSpec) (chunks : List (List ManifestEntry)) :
    ∀ (s : ManifestStore) (idx : ℕ), s.Extends (putChunks newVer spec s idx chunks).1 := by
  induction chunks with
  | nil => exact fun s _ => .refl s
  | cons chunk chunks ih =>
    intro s idx
    exact (s.extends_putManifestFile _ rfl _).trans (ih _ _)

/-- Write `toWrite` into new manifest files, and a manifest list that references them after the
files `prev`. -/
def writeSnapshot (s : ManifestStore) (root : RootUri) (env : CommitEnv) (current : Manifest)
    (newVer : ℕ) (prev : List ManifestListEntry) (toWrite : List ManifestEntry)
    (deletes : List DeleteFile) : ManifestStore × Option ListName :=
  let spec := current.partitionSpec
  let (s, new) := putChunks newVer spec s 0 (env.chunks (toWrite.map (qualifyEntry root.uri)))
  let (s, newDeletes) := s.putDeleteManifest newVer spec deletes
    (current.deleteFiles.map DeleteFile.filePath)
  let (s, name) := s.putManifestList newVer (prev ++ (env.uploads.order new ++ newDeletes))
  (s, some name)

/-- Write the entries of the new version. On the append-only path only the added entries are
written, and the data manifests of the parent are referenced; its delete manifest is not, since
the one written here lists every delete file. -/
def writeManifests (s : ManifestStore) (root : RootUri) (env : CommitEnv) (current : Manifest)
    (newVer : ℕ) (add newEntries : List ManifestEntry)
    (append : Option (List ManifestListEntry)) (deletes : List DeleteFile) :
    ManifestStore × Option ListName :=
  if newEntries = [] then (s, none)
  else
    match append with
    | some prev =>
      if add = [] then s.writeSnapshot root env current newVer [] newEntries deletes
      else s.writeSnapshot root env current newVer (prev.filter (·.content = .data)) add deletes
    | none => s.writeSnapshot root env current newVer [] newEntries deletes

variable {s : ManifestStore} {root : RootUri} {env : CommitEnv} {current : Manifest}
  {newVer : ℕ} {prev : List ManifestListEntry} {toWrite : List ManifestEntry}
  {deletes : List DeleteFile}

lemma extends_writeSnapshot : s.Extends
    (s.writeSnapshot root env current newVer prev toWrite deletes).1 :=
  ((extends_putChunks _ _ _ _ _).trans (extends_putDeleteManifest _ _ _ _ _)).trans
    (extends_putManifestList _ _ _)

lemma extends_writeManifests {add newEntries : List ManifestEntry}
    {append : Option (List ManifestListEntry)} : s.Extends
    (s.writeManifests root env current newVer add newEntries append deletes).1 := by
  unfold writeManifests
  by_cases hnew : newEntries = []
  · rw [if_pos hnew]
    exact .refl s
  · rw [if_neg hnew]
    cases append with
    | none => exact extends_writeSnapshot
    | some prev => by_cases hadd : add = [] <;> simp only [hadd] <;> exact extends_writeSnapshot

lemma versions_putChunks (newVer : ℕ) (spec : PartitionSpec) (chunks : List (List ManifestEntry)) :
    ∀ (s : ManifestStore) (idx : ℕ), (putChunks newVer spec s idx chunks).1.versions =
      s.versions := by
  induction chunks with
  | nil => exact fun _ _ => rfl
  | cons chunk chunks ih => exact fun s idx => ih _ _

lemma versions_writeSnapshot :
    (s.writeSnapshot root env current newVer prev toWrite deletes).1.versions = s.versions := by
  simp only [writeSnapshot, putManifestList, putDeleteManifest]
  split_ifs <;> exact versions_putChunks _ _ _ s 0

lemma versions_writeManifests {add newEntries : List ManifestEntry}
    {append : Option (List ManifestListEntry)} :
    (s.writeManifests root env current newVer add newEntries append deletes).1.versions =
      s.versions := by
  unfold writeManifests
  by_cases hnew : newEntries = []
  · rw [if_pos hnew]
  · rw [if_neg hnew]
    cases append with
    | none => exact versions_writeSnapshot
    | some prev => by_cases hadd : add = [] <;> simp only [hadd] <;> exact versions_writeSnapshot

end ManifestStore

/-! ### The new manifest -/

/-- The property map to be committed. -/
def newProperties (current : Properties) (md : CommitMetadata) : Properties :=
  let extended := match md.updatedProperties with
    | some props => props ∪ current
    | none => current
  let remaining := match md.removedProperties with
    | some removals => removals.foldl (fun p key => p.erase key) extended
    | none => extended
  normalizeEmbeddingProperties remaining

/-- The embedding space of a table with data is only checked when the call touches properties. -/
def checkProperties (current : Properties) (md : CommitMetadata) (hasData : Bool) :
    Except EmbeddingError Unit :=
  if md.updatedProperties.isSome || md.removedProperties.isSome then
    validateEmbeddingPropertyTransition current (newProperties current md) hasData
  else .ok ()

/-- The spec of the new manifest. Its manifest files are written with the current spec. -/
def finalPartitionSpec (current : PartitionSpec) (md : CommitMetadata) : PartitionSpec :=
  match md.updatedPartitionSpecs with
  | some specs => specs.getLast?.getD current
  | none => current

def newManifest (nowMs : ℤ) (current : Manifest) (currentVer : ℕ) (md : CommitMetadata)
    (deletes : List DeleteFile) (listPath : Option ListName) : Manifest :=
  { Manifest.newWithSpec nowMs (currentVer + 1) [] (some currentVer)
      (md.updatedSchemas.getD current.schemas) (md.updatedSchemaId.getD current.currentSchemaId)
      (finalPartitionSpec current.partitionSpec md) with
    deleteFiles := deletes
    sortOrders := md.updatedSortOrders.getD current.sortOrders
    defaultSortOrderId := md.updatedDefaultSortOrderId.getD current.defaultSortOrderId
    formatVersion := md.formatVersion.getD current.formatVersion
    properties := newProperties current.properties md
    partitionSpecs := md.updatedPartitionSpecs.getD current.partitionSpecs
    defaultSpecId := md.updatedDefaultSpecId.getD current.defaultSpecId
    lastColumnId := md.updatedLastColumnId.getD current.lastColumnId
    manifestListPath := listPath }

/-! ### Attempts and retries -/

/-- The arguments of a `commit` call. Every attempt has its own surroundings. -/
structure CommitCall where
  add : List ManifestEntry := []
  remove : List Path := []
  metadata : CommitMetadata := {}
  env : ℕ → CommitEnv := fun _ => CommitEnv.inOrder
  expiry : Expiry := {}

/-- The proposal, once its objects are written and its properties are checked. -/
def proposeIfKept (check : Except EmbeddingError Unit) (m : Manifest) :
    Except CommitError (Option Manifest) :=
  match check with
  | .error e => .error (.embedding e)
  | .ok () => .ok (some m)

/-- One attempt up to the creation of `v{N+1}.json`. It returns the manifest to be created, or
`none` for a discarded compaction, and the store with the objects written on the way. -/
def commitAttempt (root : RootUri) (env : CommitEnv) (s : ManifestStore) (current : Manifest)
    (currentVer : ℕ) (call : CommitCall) : Except CommitError (Option Manifest) × ManifestStore :=
  match s.loadAllEntries root.uri env.loads current with
  | .error e => (.error (.load e), s)
  | .ok allEntries =>
    let hasData := decide (allEntries ≠ ∅) || decide (call.add ≠ [])
    match rebase call.metadata currentVer allEntries call.remove with
    | .error e => (.error e, s)
    | .ok none => (.ok none, s)
    | .ok (some active) =>
      match appendBase s env current active call.add call.remove with
      | .error e => (.error (.load e), s)
      | .ok append =>
        let newEntries := env.values (addEntries active call.add)
        let deletes := globalDeleteFiles current.deleteFiles call.add
        let (s, listPath) := s.writeManifests root env current (currentVer + 1) call.add newEntries
          append deletes
        (proposeIfKept (checkProperties current.properties call.metadata hasData)
          (newManifest env.nowMs current currentVer call.metadata deletes listPath), s)

section

variable {s : ManifestStore} {root : RootUri} {env : CommitEnv} {current : Manifest}
  {currentVer : ℕ} {call : CommitCall}

/-- An attempt only writes manifest files and manifest lists. -/
lemma commitAttempt_store : s.Extends (commitAttempt root env s current currentVer call).2 ∧
    (commitAttempt root env s current currentVer call).2.versions = s.versions := by
  unfold commitAttempt
  cases s.loadAllEntries root.uri env.loads current with
  | error e => exact ⟨.refl s, rfl⟩
  | ok all =>
    cases hr : rebase call.metadata currentVer all call.remove with
    | error e => exact ⟨by simpa only [hr] using .refl s, by simp only [hr]⟩
    | ok active =>
      cases active with
      | none => exact ⟨by simpa only [hr] using .refl s, by simp only [hr]⟩
      | some active =>
        cases ha : appendBase s env current active call.add call.remove with
        | error e => exact ⟨by simpa only [hr, ha] using .refl s, by simp only [hr, ha]⟩
        | ok append =>
          simp only [hr, ha]
          exact ⟨ManifestStore.extends_writeManifests, ManifestStore.versions_writeManifests⟩

lemma proposeIfKept_eq_ok {check : Except EmbeddingError Unit} {m m' : Manifest}
    (h : proposeIfKept check m = .ok (some m')) : m' = m := by
  cases check with
  | error e => cases h
  | ok _ =>
    cases h
    rfl

lemma commitAttempt_numbered {m : Manifest}
    (h : (commitAttempt root env s current currentVer call).1 = .ok (some m)) :
    m.version = currentVer + 1 ∧ m.prevVersion = some currentVer := by
  unfold commitAttempt at h
  cases hl : s.loadAllEntries root.uri env.loads current with
  | error e => simp [hl] at h
  | ok all =>
    simp only [hl] at h
    cases hr : rebase call.metadata currentVer all call.remove with
    | error e => simp [hr] at h
    | ok active =>
      cases active with
      | none => simp [hr] at h
      | some active =>
        cases ha : appendBase s env current active call.add call.remove with
        | error e => simp [hr, ha] at h
        | ok append =>
          simp only [hr, ha] at h
          rw [proposeIfKept_eq_ok h]
          exact ⟨rfl, rfl⟩

end

/-- `ManifestManager::commit` -/
def commitOp (root : RootUri) (call : CommitCall) : VersionOp where
  name := .commit
  maxRetries := 100
  attempts := 100
  startsCached attempt := attempt = 0
  nowMs attempt := (call.env attempt).nowMs
  propose attempt w current currentVer :=
    let (r, s) := commitAttempt root (call.env attempt) w.store current currentVer call
    (r, { w with store := s })
  prepares _ _ _ _ := ⟨commitAttempt_store.1, commitAttempt_store.2, rfl, .inl⟩
  numbered h := commitAttempt_numbered h
  cachesLatest := true
  invalidatesOnConflict := true

def commit (root : RootUri) (call : CommitCall) (w : World) : Except CommitError Manifest × World :=
  (commitOp root call).run call.expiry w

end BenoStreamDB

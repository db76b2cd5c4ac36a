import BenoStreamDB.Manifest.Refinement

/-!
# Imported entries and synchronised snapshots

`commit_imported_entries` (index attach, index drop, import) and `commit_synced_snapshot` of
`manifest/manager/commit.rs`. Both store their result inline in the JSON manifest, next to the
manifest list of the parent version, which they keep.
-/

namespace BenoStreamDB

/-- The manifest of an import or a sync: the given inline entries, everything else from the
parent. -/
def inlineManifest (nowMs : ℤ) (current : Manifest) (currentVer : ℕ)
    (entries : List ManifestEntry) : Manifest :=
  { Manifest.newWithSpec nowMs (currentVer + 1) entries (some currentVer) current.schemas
      current.currentSchemaId current.partitionSpec with
    partitionSpecs := current.partitionSpecs
    defaultSpecId := current.defaultSpecId
    properties := current.properties
    sortOrders := current.sortOrders
    defaultSortOrderId := current.defaultSortOrderId
    manifestListPath := current.manifestListPath
    formatVersion := current.formatVersion
    deleteFiles := current.deleteFiles }

/-- The arguments of either call. -/
structure ImportCall where
  entries : List ManifestEntry
  env : ℕ → CommitEnv := fun _ => CommitEnv.inOrder
  expiry : Expiry := {}

/-- Replace an entry that is still there; a path that was removed meanwhile is skipped. -/
def replaceExisting (entryMap : EntryMap) (e : ManifestEntry) : EntryMap :=
  if entryMap.contains e.filePath then entryMap.insert e else entryMap

/-- An entry without index files takes over those of the existing entry. -/
def inheritIndexes (existing : Option ManifestEntry) (e : ManifestEntry) : ManifestEntry :=
  match existing with
  | some x => if e.indexFiles = [] ∧ x.indexFiles ≠ [] then { e with indexFiles := x.indexFiles }
    else e
  | none => e

@[simp]
lemma filePath_inheritIndexes (existing : Option ManifestEntry) (e : ManifestEntry) :
    (inheritIndexes existing e).filePath = e.filePath := by
  cases existing with
  | none => rfl
  | some x =>
    simp only [inheritIndexes]
    split_ifs <;> rfl

/-- The entries of a synchronised snapshot. An existing entry is used up by the first entry of
its path. -/
def reconcile : EntryMap → List ManifestEntry → List ManifestEntry
  | _, [] => []
  | existing, e :: es =>
    inheritIndexes (existing.get? e.filePath) e :: reconcile (existing.erase e.filePath) es

/-- A proposal of inline entries computed from the current ones. -/
def proposeInline (root : RootUri) (env : CommitEnv) (merge : EntryMap → List ManifestEntry)
    (w : World) (current : Manifest) (currentVer : ℕ) :
    Except CommitError (Option Manifest) × World :=
  match w.store.loadAllEntries root.uri env.loads current with
  | .error e => (.error (.load e), w)
  | .ok all => (.ok (some (inlineManifest env.nowMs current currentVer (merge all))), w)

lemma proposeInline_world (root : RootUri) (env : CommitEnv)
    (merge : EntryMap → List ManifestEntry) (w : World) (current : Manifest) (currentVer : ℕ) :
    (proposeInline root env merge w current currentVer).2 = w := by
  unfold proposeInline
  cases w.store.loadAllEntries root.uri env.loads current <;> rfl

lemma proposeInline_numbered {root : RootUri} {env : CommitEnv}
    {merge : EntryMap → List ManifestEntry} {w : World} {current : Manifest} {currentVer : ℕ}
    {m : Manifest} (h : (proposeInline root env merge w current currentVer).1 = .ok (some m)) :
    m.version = currentVer + 1 ∧ m.prevVersion = some currentVer := by
  unfold proposeInline at h
  cases hl : w.store.loadAllEntries root.uri env.loads current with
  | error e => simp [hl] at h
  | ok all =>
    rw [hl] at h
    cases h
    exact ⟨rfl, rfl⟩

/-- `commit_imported_entries` -/
def importedOp (root : RootUri) (call : ImportCall) : VersionOp where
  name := .importedEntries
  maxRetries := 10
  attempts := 10
  startsCached attempt := attempt = 0
  nowMs attempt := (call.env attempt).nowMs
  propose attempt := proposeInline root (call.env attempt) fun all =>
    (call.env attempt).values (call.entries.foldl replaceExisting all)
  prepares _ w m v := by
    rw [proposeInline_world]
    exact .refl w
  numbered h := proposeInline_numbered h
  cachesLatest := true
  invalidatesOnConflict := true

/-- `commit_synced_snapshot`. Every attempt goes through `load_latest`, and a conflict leaves the
cached version number in place. -/
def syncedOp (root : RootUri) (call : ImportCall) : VersionOp where
  name := .syncedSnapshot
  maxRetries := 10
  attempts := 10
  startsCached _ := true
  nowMs attempt := (call.env attempt).nowMs
  propose attempt := proposeInline root (call.env attempt) fun all => reconcile all call.entries
  prepares _ w m v := by
    rw [proposeInline_world]
    exact .refl w
  numbered h := proposeInline_numbered h
  cachesLatest := false
  invalidatesOnConflict := false

def commitImportedEntries (root : RootUri) (call : ImportCall) (w : World) :
    Except CommitError Manifest × World :=
  (importedOp root call).run call.expiry w

def commitSyncedSnapshot (root : RootUri) (call : ImportCall) (w : World) :
    Except CommitError Manifest × World :=
  (syncedOp root call).run call.expiry w

/-! ### Table states -/

/-- The newest version of the table can be loaded: its manifest list stands for some entries and
its inline entries have normalised paths. The caches agree with the store. -/
structure TableInv (root : RootUri) (w : World) : Prop where
  coherent : w.caches.Coherent w.store
  newest : ∀ {m v}, w.store.Newest m v →
    ∃ es, Listed root m.partitionSpec w.store m.manifestListPath es ∧
      ∀ e ∈ m.entries, Normalised root (relativizeFilePath root.uri e.filePath)

lemma tableInv_empty (root : RootUri) : TableInv root {} where
  coherent := .empty _
  newest {m v} h := by
    cases h with
    | version h => cases h
    | genesis _ hm =>
      rcases hm with rfl | ⟨nowMs, rfl⟩ <;> exact ⟨[], .empty root _ _, by simp [Manifest.new]⟩

/-- The effect of a single client's import or sync. -/
lemma inline_effect {root : RootUri} {op : VersionOp} {x : Expiry} {env : CommitEnv}
    {merge : EntryMap → List ManifestEntry} {w : World} (h : TableInv root w)
    (hpos : 0 < op.attempts) (hpropose : op.propose 0 = proposeInline root env merge) :
    ∃ current currentVer es w', w.store.Newest current currentVer ∧
      Listed root current.partitionSpec w.store current.manifestListPath es ∧
      op.run x w = (.ok (inlineManifest env.nowMs current currentVer
        (merge (current.view root es))), w') ∧
      w.store.Extends w'.store ∧ w'.store.maxVersion = currentVer + 1 ∧
      w'.store.versions = w.store.versions.insert (currentVer + 1) (inlineManifest env.nowMs current
        currentVer (merge (current.view root es))) ∧
      w'.caches.Coherent w'.store := by
  obtain ⟨current, ver, w₀, hnewest, hw₀, hends⟩ := op.run_ends x h.coherent hpos
  obtain ⟨es, hes, -⟩ := h.newest hnewest
  have hprop : op.propose 0 w₀ current ver = (.ok (some (inlineManifest env.nowMs current ver
      (merge (current.view root es)))), w₀) := by
    rw [hpropose, proposeInline, hw₀, hes.loadAllEntries]
  refine ⟨current, ver, es, ?_⟩
  cases hends with
  | refused proposed => simp [hprop] at proposed
  | returned proposed => simp [hprop] at proposed
  | @created m w' w'' proposed ext newest versions coherent eq =>
    rw [hprop] at proposed
    cases proposed
    exact ⟨w'', hnewest, hes, eq, hw₀ ▸ ext, newest, versions, coherent⟩

lemma contains_replaceExisting (m : EntryMap) (es : List ManifestEntry) (k : Path) :
    (es.foldl replaceExisting m).contains k = m.contains k := by
  induction es generalizing m with
  | nil => rfl
  | cons e es ih =>
    rw [List.foldl_cons, ih, replaceExisting]
    split_ifs with h
    · simp only [KeyedMap.contains, KeyedMap.get?_insert] at h ⊢
      split_ifs with hk
      · simp [← hk, h]
      · rfl
    · rfl

lemma map_filePath_reconcile (existing : EntryMap) (es : List ManifestEntry) :
    (reconcile existing es).map ManifestEntry.filePath = es.map ManifestEntry.filePath := by
  induction es generalizing existing with
  | nil => rfl
  | cons e es ih => rw [reconcile, List.map_cons, ih, List.map_cons, filePath_inheritIndexes]

/-- The calls by which a table changes. -/
inductive TableOp where
  | commit (call : CommitCall)
  | imported (call : ImportCall)
  | synced (call : ImportCall)

namespace TableOp

def run (root : RootUri) : TableOp → World → Except CommitError Manifest × World
  | .commit call => BenoStreamDB.commit root call
  | .imported call => commitImportedEntries root call
  | .synced call => commitSyncedSnapshot root call

/-- What is asked of the paths in a call: a commit names a file once and in its normalised form,
and a synchronised URI does not hold the table root twice. -/
def Valid (root : RootUri) : TableOp → Prop
  | .commit call => call.WellFormed root
  | .imported _ => True
  | .synced call => ∀ e ∈ call.entries, Normalised root (relativizeFilePath root.uri e.filePath)

end TableOp

/-- The states of a table with one client: reached from the empty table by valid calls. -/
inductive TableState (root : RootUri) : World → Prop
  | empty : TableState root {}
  | step {w : World} {op : TableOp} (h : TableState root w) (hop : op.Valid root) :
      TableState root (op.run root w).2

lemma TableInv.commit {root : RootUri} {w : World} (h : TableInv root w) {call : CommitCall}
    (hcall : call.WellFormed root) : TableInv root (BenoStreamDB.commit root call w).2 := by
  obtain ⟨current, ver, w₀, hnewest, hw₀, hends⟩ :=
    (commitOp root call).run_ends call.expiry h.coherent (by simp [commitOp])
  obtain ⟨es, hes, hinline⟩ := h.newest hnewest
  have hok : AttemptOk root w.store current es call.add :=
    ⟨hes, hinline, hcall.normalised, hcall.distinct⟩
  cases commit_effect hw₀ hends hok with
  | unchanged ineffective eq failed ext versions coherent =>
    rw [eq]
    refine ⟨coherent, fun {m v} hm => ?_⟩
    obtain ⟨es', hes', hin⟩ := h.newest (hm.of_versions_eq versions.symm)
    exact ⟨es', hes'.mono ext, hin⟩
  | created effective written manifest ext newest versions coherent eq =>
    rw [eq]
    refine ⟨coherent, fun {m' v} hm' => ?_⟩
    obtain rfl := ManifestStore.Newest.eq_of_insert newest versions hm'
    subst manifest
    obtain ⟨es', hes', -⟩ := (written.listed.mono ext).of_spec
      (finalPartitionSpec current.partitionSpec call.metadata)
    exact ⟨es', hes', by simp [newManifest, Manifest.newWithSpec]⟩

lemma TableInv.inline {root : RootUri} {w : World} (h : TableInv root w) {op : VersionOp}
    {x : Expiry} {env : CommitEnv} {merge : EntryMap → List ManifestEntry}
    (hpos : 0 < op.attempts) (hpropose : op.propose 0 = proposeInline root env merge)
    (hmerge : ∀ all : EntryMap, (∀ k, all.contains k = true → Normalised root k) →
      ∀ e ∈ merge all, Normalised root (relativizeFilePath root.uri e.filePath)) :
    TableInv root (op.run x w).2 := by
  obtain ⟨current, ver, es, w', hnewest, hes, eq, ext, newest, versions, coherent⟩ :=
    inline_effect h hpos hpropose
  obtain ⟨es₀, hes₀, hinline⟩ := h.newest hnewest
  rw [eq]
  refine ⟨coherent, fun {m' v} hm' => ?_⟩
  obtain rfl := ManifestStore.Newest.eq_of_insert newest versions hm'
  exact ⟨es, hes.mono ext, hmerge _ fun k hk =>
    Manifest.normalised_of_contains_view hes hinline hk⟩

lemma TableInv.run {root : RootUri} {w : World} (h : TableInv root w) {op : TableOp}
    (hop : op.Valid root) : TableInv root (op.run root w).2 := by
  cases op with
  | commit call => exact h.commit hop
  | imported call =>
    refine h.inline (by simp [importedOp]) rfl fun all hall e he => ?_
    have hget := (KeyedMap.mem_of_coe ((call.env 0).coe_values _)).1 he
    have hnorm : Normalised root e.filePath := by
      refine hall _ ?_
      rw [← contains_replaceExisting all call.entries, KeyedMap.contains_iff]
      exact ⟨e, hget⟩
    rw [hnorm]
    exact hnorm
  | synced call =>
    refine h.inline (by simp [syncedOp]) rfl fun all _ e he => ?_
    have hpath : e.filePath ∈ call.entries.map ManifestEntry.filePath := by
      rw [← map_filePath_reconcile all]
      exact List.mem_map_of_mem he
    obtain ⟨e', he', heq⟩ := List.mem_map.1 hpath
    rw [← heq]
    exact hop e' he'

theorem TableState.inv {root : RootUri} {w : World} (h : TableState root w) : TableInv root w := by
  induction h with
  | empty => exact tableInv_empty root
  | step _ hop ih => exact ih.run hop

end BenoStreamDB

import BenoStreamDB.Manifest.Durability

/-!
# What a synchronised snapshot leaves behind

`commit_synced_snapshot` takes its entries as the authoritative list of data files. It replaces
the inline entries, but keeps the manifest list of the parent, which readers merge with them.
-/

namespace BenoStreamDB

/-- The path under which a reader sees an entry. -/
def ManifestEntry.readPath (root : RootUri) (e : ManifestEntry) : Path :=
  relativizeFilePath root.uri e.filePath

/-- The index files of a path. -/
def EntryMap.indexesAt (m : EntryMap) (k : Path) : List IndexFile :=
  ((KeyedMap.get? m k).map ManifestEntry.indexFiles).getD []

/-- `after` has the files of the snapshot, and no local index of a surviving file is lost. -/
structure Synced (root : RootUri) (entries : List ManifestEntry) (before after : EntryMap) :
    Prop where
  paths : ∀ k, after.contains k = true ↔ k ∈ entries.map (ManifestEntry.readPath root)
  indexes : ∀ e ∈ entries, e.indexFiles = [] →
    after.indexesAt (e.readPath root) = before.indexesAt (e.readPath root)

/-- The manifest list names no file outside the snapshot. Where a snapshot entry decides on the
index files of a path (the last one does) and has none, either the path had none before, or the
entry names the path as readers see it and is the first to do so. Where it has some, an earlier
entry of the path without index files asks for the same ones. -/
structure Retires (root : RootUri) (s : ManifestStore) (current : Manifest) (before : EntryMap)
    (entries : List ManifestEntry) : Prop where
  listed : ∀ k, (s.listOnly root current).contains k = true →
    k ∈ entries.map (ManifestEntry.readPath root)
  inherited : ∀ pre e post, entries = pre ++ e :: post →
    e.readPath root ∉ post.map (ManifestEntry.readPath root) → e.indexFiles = [] →
      before.indexesAt (e.readPath root) = [] ∨
        e.readPath root = e.filePath ∧ e.filePath ∉ pre.map ManifestEntry.filePath
  replaced : ∀ pre e post, entries = pre ++ e :: post →
    e.readPath root ∉ post.map (ManifestEntry.readPath root) → e.indexFiles ≠ [] →
      (∃ e' ∈ pre, e'.readPath root = e.readPath root ∧ e'.indexFiles = []) →
        e.indexFiles = before.indexesAt (e.readPath root)

/-! ### The entry that decides -/

lemma exists_last_readPath {root : RootUri} {entries : List ManifestEntry} {k : Path}
    (h : k ∈ entries.map (ManifestEntry.readPath root)) :
    ∃ pre e post, entries = pre ++ e :: post ∧ e.readPath root = k ∧
      k ∉ post.map (ManifestEntry.readPath root) := by
  induction entries with
  | nil => cases h
  | cons e entries ih =>
    by_cases hk : k ∈ entries.map (ManifestEntry.readPath root)
    · obtain ⟨pre, e', post, rfl, hpath, hpost⟩ := ih hk
      exact ⟨e :: pre, e', post, rfl, hpath, hpost⟩
    · rcases List.mem_cons.1 h with rfl | h
      · exact ⟨[], e, entries, rfl, rfl, hk⟩
      · exact absurd h hk

lemma reconcile_append (existing : EntryMap) (xs ys : List ManifestEntry) :
    reconcile existing (xs ++ ys) = reconcile existing xs ++
      reconcile (existing.eraseAll (xs.map ManifestEntry.filePath)) ys := by
  induction xs generalizing existing with
  | nil => rfl
  | cons x xs ih => simp [reconcile, ih]

lemma map_readPath_reconcile (root : RootUri) (existing : EntryMap) (es : List ManifestEntry) :
    (reconcile existing es).map (ManifestEntry.readPath root) =
      es.map (ManifestEntry.readPath root) := by
  have h := congrArg (List.map (relativizeFilePath root.uri)) (map_filePath_reconcile existing es)
  rwa [List.map_map, List.map_map] at h

lemma indexFiles_inheritIndexes (m : EntryMap) (e : ManifestEntry) :
    (inheritIndexes (KeyedMap.get? m e.filePath) e).indexFiles =
      if e.indexFiles = [] then m.indexesAt e.filePath else e.indexFiles := by
  unfold inheritIndexes EntryMap.indexesAt
  cases KeyedMap.get? m e.filePath with
  | none =>
    by_cases h : e.indexFiles = [] <;> simp [h]
  | some x =>
    by_cases h : e.indexFiles = [] <;> by_cases hx : x.indexFiles = [] <;> simp [h, hx]

lemma indexesAt_eraseAll (m : EntryMap) (ps : List Path) (k : Path) :
    EntryMap.indexesAt (m.eraseAll ps) k = if k ∈ ps then [] else m.indexesAt k := by
  unfold EntryMap.indexesAt
  rw [KeyedMap.get?_eraseAll]
  split_ifs <;> rfl

lemma indexesAt_attachDeletes (ds : List DeleteFile) (m : EntryMap) (k : Path) :
    (attachDeletes ds m).indexesAt k = m.indexesAt k := by
  unfold attachDeletes
  split_ifs
  · rfl
  · rw [EntryMap.indexesAt, KeyedMap.get?_mapValues, Option.map_map]
    rfl

/-! ### The synchronised table -/

section Reconcile

variable {root : RootUri} {before : EntryMap} {entries : List ManifestEntry} {m : Manifest}
  {es : List ManifestEntry}

lemma contains_view_reconcile (hm : m.entries = reconcile before entries) (k : Path) :
    (m.view root es).contains k = true ↔
      k ∈ entries.map (ManifestEntry.readPath root) ∨ k ∈ es.map ManifestEntry.filePath := by
  rw [Manifest.contains_view, hm, ← map_readPath_reconcile root before]
  rfl

/-- The last entry of a path decides on its index files. -/
lemma indexesAt_view_reconcile {pre post : List ManifestEntry} {e : ManifestEntry}
    (hm : m.entries = reconcile before (pre ++ e :: post))
    (hpost : e.readPath root ∉ post.map (ManifestEntry.readPath root)) :
    (m.view root es).indexesAt (e.readPath root) =
      if e.indexFiles = [] then
        if e.filePath ∈ pre.map ManifestEntry.filePath then [] else before.indexesAt e.filePath
      else e.indexFiles := by
  rw [Manifest.view, indexesAt_attachDeletes, hm, reconcile_append, reconcile, List.map_append,
    List.map_cons]
  have hkey : e.readPath root = ((relativizeEntry root.uri (inheritIndexes
      ((before.eraseAll (pre.map ManifestEntry.filePath)).get? e.filePath) e)).filePath) := by
    simp [relativizeEntry, ManifestEntry.readPath]
  rw [EntryMap.indexesAt, hkey, KeyedMap.get?_insertAll_append_cons]
  · rw [Option.map_some, Option.getD_some, relativizeEntry, indexFiles_inheritIndexes,
      indexesAt_eraseAll]
  · rw [← hkey, List.map_map]
    rwa [← map_readPath_reconcile root] at hpost

/-- A path that is not in the form readers see has no index files. -/
lemma indexesAt_of_ne (hnorm : ∀ k, before.contains k = true → Normalised root k)
    {e : ManifestEntry} (h : e.readPath root ≠ e.filePath) :
    before.indexesAt e.filePath = [] := by
  have hnone : before.get? e.filePath = none := by
    rw [← KeyedMap.not_contains_iff, ← Bool.not_eq_true]
    exact fun hk => h (hnorm _ hk)
  rw [EntryMap.indexesAt, hnone]
  rfl

/-- When the last entry of a path leaves it the index files it had. -/
lemma indexesAt_view_eq_iff (hnorm : ∀ k, before.contains k = true → Normalised root k)
    {pre post : List ManifestEntry} {e : ManifestEntry}
    (hm : m.entries = reconcile before (pre ++ e :: post))
    (hpost : e.readPath root ∉ post.map (ManifestEntry.readPath root)) :
    (m.view root es).indexesAt (e.readPath root) = before.indexesAt (e.readPath root) ↔
      (e.indexFiles = [] → before.indexesAt (e.readPath root) = [] ∨
        e.readPath root = e.filePath ∧ e.filePath ∉ pre.map ManifestEntry.filePath) ∧
      (e.indexFiles ≠ [] → e.indexFiles = before.indexesAt (e.readPath root)) := by
  rw [indexesAt_view_reconcile hm hpost]
  by_cases hidx : e.indexFiles = []
  · simp only [hidx, if_true, true_implies, ne_eq, not_true_eq_false, false_implies, and_true]
    by_cases hpre : e.filePath ∈ pre.map ManifestEntry.filePath
    · simp only [hpre, not_true_eq_false, and_false, or_false, if_true]
      exact eq_comm
    · by_cases hpath : e.readPath root = e.filePath
      · simp [hpre, hpath]
      · simp only [if_neg hpre, hpath, false_and, or_false, indexesAt_of_ne hnorm hpath]
        exact eq_comm
  · simp [hidx]

lemma synced_view_iff {s : ManifestStore} {current : Manifest}
    (hlisted : Listed root current.partitionSpec s current.manifestListPath es)
    (hnorm : ∀ k, before.contains k = true → Normalised root k)
    (hm : m.entries = reconcile before entries) :
    Synced root entries before (m.view root es) ↔ Retires root s current before entries := by
  have hlist (k : Path) : (s.listOnly root current).contains k = true ↔
      k ∈ es.map ManifestEntry.filePath := by
    rw [ManifestStore.listOnly_eq hlisted, KeyedMap.ofList, KeyedMap.contains_insertAll]
    simp [KeyedMap.contains]
  constructor
  · rintro ⟨hpaths, hidx⟩
    refine ⟨fun k hk => (hpaths k).1 ((contains_view_reconcile hm k).2 (.inr ((hlist k).1 hk))),
      ?_, ?_⟩
    · rintro pre e post rfl hpost hnil
      exact ((indexesAt_view_eq_iff hnorm hm hpost).1 (hidx e (by simp) hnil)).1 hnil
    · rintro pre e post rfl hpost hne ⟨e', he', hpath, hnil⟩
      have h := hidx e' (by simp [he']) hnil
      rw [hpath] at h
      exact ((indexesAt_view_eq_iff hnorm hm hpost).1 h).2 hne
  · rintro ⟨hcovered, hinherited, hreplaced⟩
    refine ⟨fun k => ?_, fun e he hnil => ?_⟩
    · rw [contains_view_reconcile hm]
      exact ⟨fun h => h.elim id fun hk => hcovered k ((hlist k).2 hk), .inl⟩
    · -- the index files of the path are up to the last entry of the path
      obtain ⟨pre, e', post, rfl, hpath, hpost⟩ :=
        @exists_last_readPath root _ _ (List.mem_map_of_mem he)
      rw [← hpath] at hpost ⊢
      refine (indexesAt_view_eq_iff hnorm hm hpost).2
        ⟨hinherited pre e' post rfl hpost, fun hne => ?_⟩
      refine hreplaced pre e' post rfl hpost hne ⟨e, ?_, hpath.symm, hnil⟩
      rcases List.mem_append.1 he with he | he
      · exact he
      · rcases List.mem_cons.1 he with rfl | he
        · exact absurd hnil hne
        · exact absurd (hpath ▸ List.mem_map_of_mem he) hpost

end Reconcile

/-- After a sync that returned `Ok`, the loaded files are those of the snapshot and no index file
of a surviving one is lost, exactly if `Retires`. -/
theorem synced_commitSyncedSnapshot_iff {root : RootUri} {w w' : World} (h : TableState root w)
    {call : ImportCall} {m : Manifest} (hrun : commitSyncedSnapshot root call w = (.ok m, w'))
    {before : EntryMap} (hbefore : w.store.loadAllEntries root.uri (Arrival.fifo _)
      w.store.loadLatestDirect.1 = .ok before) :
    (∀ arrival, ∃ after, w'.store.loadAllEntries root.uri arrival
      w'.store.loadLatestDirect.1 = .ok after ∧ Synced root call.entries before after) ↔
    Retires root w.store w.store.loadLatestDirect.1 before call.entries := by
  obtain ⟨current, ver, es, w'', hnewest, hes, eq, ext, newest, versions, -⟩ :=
    @inline_effect root (syncedOp root call) call.expiry (call.env 0)
      (fun all => reconcile all call.entries) w h.inv (by simp [syncedOp]) rfl
  cases hrun.symm.trans eq
  obtain ⟨hpath, hentries, hdel, hspec⟩ := hnewest.entries_eq w.store.newest_loadLatestDirect
  have hview : current.view root es = before := by
    rw [hpath, hspec] at hes
    rw [hes.loadAllEntries] at hbefore
    rw [← Except.ok.inj hbefore, Manifest.view, Manifest.view, hentries, hdel]
  obtain ⟨-, -, hinline⟩ := h.inv.newest hnewest
  have hnorm : ∀ k, before.contains k = true → Normalised root k := fun k hk =>
    Manifest.normalised_of_contains_view hes hinline (hview ▸ hk)
  have hnew := ManifestStore.Newest.eq_of_insert newest versions
    w'.store.newest_loadLatestDirect
  have hload (arrival : Arrival ManifestListEntry) : w'.store.loadAllEntries root.uri arrival
      w'.store.loadLatestDirect.1 = .ok ((inlineManifest (call.env 0).nowMs current ver
        (reconcile before call.entries)).view root es) := by
    have hkept : Listed root (inlineManifest (call.env 0).nowMs current ver
        (reconcile before call.entries)).partitionSpec w'.store (inlineManifest (call.env 0).nowMs
          current ver (reconcile before call.entries)).manifestListPath es := hes.mono ext
    rw [hnew, hview, hkept.loadAllEntries]
  have hiff : Synced root call.entries before ((inlineManifest (call.env 0).nowMs current ver
      (reconcile before call.entries)).view root es) ↔
        Retires root w.store w.store.loadLatestDirect.1 before call.entries :=
    synced_view_iff (by rwa [← hpath, ← hspec]) hnorm rfl
  rw [← hiff]
  constructor
  · intro hsynced
    obtain ⟨after, hafter, hs⟩ := hsynced (Arrival.fifo _)
    rw [hload] at hafter
    rwa [Except.ok.inj hafter]
  · exact fun hs arrival => ⟨_, hload arrival, hs⟩

/-! ### A file that is not retired -/

/-- A table with two data files in its manifest list. -/
def twoFileTable : World :=
  (commit sampleRoot { add := [{ filePath := ['a'] }, { filePath := ['b'] }] } {}).2

/-- The other engine compacted `b` away. -/
def syncOne : ImportCall where
  entries := [{ filePath := ['a'] }]

def syncedTable : World := (commitSyncedSnapshot sampleRoot syncOne twoFileTable).2

lemma tableState_twoFileTable : TableState sampleRoot twoFileTable :=
  @TableState.step sampleRoot {}
    (.commit { add := [{ filePath := ['a'] }, { filePath := ['b'] }] }) .empty
    ⟨by decide, by decide⟩

lemma syncOne_eq : commitSyncedSnapshot sampleRoot syncOne twoFileTable =
    (.ok syncedTable.store.loadLatestDirect.1, syncedTable) := by
  decide

lemma loadAllEntries_twoFileTable :
    twoFileTable.store.loadAllEntries sampleRoot.uri (Arrival.fifo _)
      twoFileTable.store.loadLatestDirect.1 =
        .ok (KeyedMap.ofList [{ filePath := ['a'] }, { filePath := ['b'] }]) := by
  decide

theorem synced_syncedTable_iff :
    (∀ arrival, ∃ after, syncedTable.store.loadAllEntries sampleRoot.uri arrival
      syncedTable.store.loadLatestDirect.1 = .ok after ∧ Synced sampleRoot syncOne.entries
        (KeyedMap.ofList [{ filePath := ['a'] }, { filePath := ['b'] }]) after) ↔
    Retires sampleRoot twoFileTable.store twoFileTable.store.loadLatestDirect.1
      (KeyedMap.ofList [{ filePath := ['a'] }, { filePath := ['b'] }]) syncOne.entries :=
  synced_commitSyncedSnapshot_iff tableState_twoFileTable syncOne_eq loadAllEntries_twoFileTable

/-- The snapshot does not hold `b`, but readers still see it. -/
theorem syncedTable_not_synced :
    TableState sampleRoot twoFileTable ∧
    commitSyncedSnapshot sampleRoot syncOne twoFileTable =
      (.ok syncedTable.store.loadLatestDirect.1, syncedTable) ∧
    syncedTable.store.loadAllEntries sampleRoot.uri (Arrival.fifo _)
      syncedTable.store.loadLatestDirect.1 =
        .ok (KeyedMap.ofList [{ filePath := ['b'] }, { filePath := ['a'] }]) ∧
    ¬ Synced sampleRoot syncOne.entries
      (KeyedMap.ofList [{ filePath := ['a'] }, { filePath := ['b'] }])
      (KeyedMap.ofList [{ filePath := ['b'] }, { filePath := ['a'] }]) := by
  refine ⟨tableState_twoFileTable, syncOne_eq, by decide, fun h => ?_⟩
  exact absurd ((h.paths ['b']).1 (by decide)) (by decide)

end BenoStreamDB

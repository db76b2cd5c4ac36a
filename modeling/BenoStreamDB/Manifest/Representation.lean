import BenoStreamDB.Manifest.Commit

/-!
# What a manifest list stands for

`Listed root spec s p es`: the manifest list `p` of the store `s` resolves to manifest files that
hold the entries `es`, each path once, when they are read under `spec`. It is kept when the store
grows, it determines what `load_all_entries` returns whatever the order in which the files arrive,
and `writeManifests` establishes it for the entries it is given. A spec with the same field names
reads the same entries, any other spec the same paths.
-/

namespace BenoStreamDB

namespace ManifestStore

/-! ### Loading manifest files -/

variable {s s' : ManifestStore} {rootUri : Path} {spec spec' : PartitionSpec}

lemma loadManifestFile_mono (hs : s.Extends s') {f : ManifestListEntry} {es : List ManifestEntry}
    (h : s.loadManifestFile rootUri spec f = .ok es) :
    s'.loadManifestFile rootUri spec f = .ok es := by
  unfold loadManifestFile at h ⊢
  cases hf : s.files.lookup f.manifestPath with
  | none => simp [hf] at h
  | some c =>
    rw [hf] at h
    rw [hs.files hf]
    exact h

lemma loadManifestFiles_cons_eq_ok {f : ManifestListEntry} {fs : List ManifestListEntry}
    {es : List ManifestEntry} :
    s.loadManifestFiles rootUri spec (f :: fs) = .ok es ↔ ∃ es₁ es₂,
      s.loadManifestFile rootUri spec f = .ok es₁ ∧ s.loadManifestFiles rootUri spec fs = .ok es₂ ∧
        es = es₁ ++ es₂ := by
  simp only [loadManifestFiles]
  cases s.loadManifestFile rootUri spec f with
  | error e => simp [bind, Except.bind]
  | ok es₁ =>
    cases s.loadManifestFiles rootUri spec fs with
    | error e => simp [bind, Except.bind]
    | ok es₂ => simp [bind, Except.bind, pure, Except.pure, eq_comm]

lemma loadManifestFiles_append {fs gs : List ManifestListEntry} {es₁ es₂ : List ManifestEntry}
    (h₁ : s.loadManifestFiles rootUri spec fs = .ok es₁)
    (h₂ : s.loadManifestFiles rootUri spec gs = .ok es₂) :
    s.loadManifestFiles rootUri spec (fs ++ gs) = .ok (es₁ ++ es₂) := by
  induction fs generalizing es₁ with
  | nil =>
    cases h₁
    exact h₂
  | cons f fs ih =>
    obtain ⟨es, es', hf, hfs, rfl⟩ := loadManifestFiles_cons_eq_ok.1 h₁
    exact loadManifestFiles_cons_eq_ok.2 ⟨es, _, hf, ih hfs, by simp⟩

lemma loadManifestFiles_mono (hs : s.Extends s') {fs : List ManifestListEntry}
    {es : List ManifestEntry} (h : s.loadManifestFiles rootUri spec fs = .ok es) :
    s'.loadManifestFiles rootUri spec fs = .ok es := by
  induction fs generalizing es with
  | nil => exact h
  | cons f fs ih =>
    obtain ⟨es₁, es₂, hf, hfs, rfl⟩ := loadManifestFiles_cons_eq_ok.1 h
    exact loadManifestFiles_cons_eq_ok.2 ⟨es₁, es₂, loadManifestFile_mono hs hf, ih hfs, rfl⟩

/-- In another order of the files the same entries arrive in another order. -/
lemma loadManifestFiles_perm {fs gs : List ManifestListEntry} (hp : fs.Perm gs)
    {es : List ManifestEntry} (h : s.loadManifestFiles rootUri spec fs = .ok es) :
    ∃ es', s.loadManifestFiles rootUri spec gs = .ok es' ∧ es'.Perm es := by
  induction hp generalizing es with
  | nil => exact ⟨es, h, .refl _⟩
  | cons f _ ih =>
    obtain ⟨es₁, es₂, hf, hfs, rfl⟩ := loadManifestFiles_cons_eq_ok.1 h
    obtain ⟨es₂', hgs, hperm⟩ := ih hfs
    exact ⟨es₁ ++ es₂', loadManifestFiles_cons_eq_ok.2 ⟨_, _, hf, hgs, rfl⟩, hperm.append_left es₁⟩
  | swap f g fs =>
    obtain ⟨es₁, es', hg, h', rfl⟩ := loadManifestFiles_cons_eq_ok.1 h
    obtain ⟨es₂, es₃, hf, hfs, rfl⟩ := loadManifestFiles_cons_eq_ok.1 h'
    refine ⟨es₂ ++ (es₁ ++ es₃), loadManifestFiles_cons_eq_ok.2 ⟨_, _, hf,
      loadManifestFiles_cons_eq_ok.2 ⟨_, _, hg, hfs, rfl⟩, rfl⟩, ?_⟩
    rw [← List.append_assoc, ← List.append_assoc]
    exact List.perm_append_comm.append_right es₃
  | trans _ _ ih₁ ih₂ =>
    obtain ⟨es₁, h₁, hp₁⟩ := ih₁ h
    obtain ⟨es₂, h₂, hp₂⟩ := ih₂ h₁
    exact ⟨es₂, h₂, hp₂.trans hp₁⟩

lemma loadManifestFiles_of_forall_nil {fs : List ManifestListEntry}
    (h : ∀ f ∈ fs, s.loadManifestFile rootUri spec f = .ok []) :
    s.loadManifestFiles rootUri spec fs = .ok [] := by
  induction fs with
  | nil => rfl
  | cons f fs ih =>
    exact loadManifestFiles_cons_eq_ok.2 ⟨[], [], h f List.mem_cons_self,
      ih fun g hg => h g (List.mem_cons_of_mem f hg), rfl⟩

/-- Leaving out files without entries leaves out no entry. -/
lemma loadManifestFiles_filter {p : ManifestListEntry → Bool} {fs : List ManifestListEntry}
    {es : List ManifestEntry} (h : s.loadManifestFiles rootUri spec fs = .ok es)
    (hp : ∀ f ∈ fs, p f = false → s.loadManifestFile rootUri spec f = .ok []) :
    s.loadManifestFiles rootUri spec (fs.filter p) = .ok es := by
  induction fs generalizing es with
  | nil => exact h
  | cons f fs ih =>
    obtain ⟨es₁, es₂, hf, hfs, rfl⟩ := loadManifestFiles_cons_eq_ok.1 h
    have ih' := ih hfs fun g hg => hp g (List.mem_cons_of_mem f hg)
    cases hpf : p f with
    | true =>
      rw [List.filter_cons_of_pos hpf]
      exact loadManifestFiles_cons_eq_ok.2 ⟨es₁, es₂, hf, ih', rfl⟩
    | false =>
      have hnil := hp f List.mem_cons_self hpf
      rw [hf] at hnil
      cases hnil
      rwa [List.filter_cons_of_neg (by simp [hpf])]

end ManifestStore

/-! ### Manifest files -/

/-- The live data files of a manifest file. -/
def AvroManifest.dataEntries (file : AvroManifest) : List ManifestEntry :=
  (liveObjects file.entries).filterMap fun
    | .data e => some e
    | .delete _ => none

/-- The file holds delete files only, or data files without delete lists only. -/
def AvroManifest.Unmixed (file : AvroManifest) : Prop :=
  (∀ ie ∈ file.entries, ∃ d, ie.object = .delete d) ∨
    ∀ ie ∈ file.entries, ∃ e : ManifestEntry, ie.object = .data e ∧ e.deleteFiles = []

/-- An entry of a manifest file as it is read. -/
def readEntry (rootUri : Path) (written spec : PartitionSpec) (e : ManifestEntry) :
    ManifestEntry :=
  { e with
    filePath := relativizeFilePath rootUri e.filePath
    partitionValues := readValues written spec e.partitionValues
    deleteFiles := [] }

lemma mem_liveObjects {content : List IcebergEntry} {o : IcebergObject}
    (h : o ∈ liveObjects content) : ∃ ie ∈ content, ie.object = o := by
  obtain ⟨ie, hie, rfl⟩ := List.mem_map.1 h
  exact ⟨ie, List.mem_of_mem_filter hie, rfl⟩

lemma liveObjects_read (spec : PartitionSpec) (file : AvroManifest) :
    liveObjects (file.read spec) =
      (liveObjects file.entries).map (IcebergObject.readAs file.spec spec) := by
  simp [liveObjects, AvroManifest.read, List.filter_map, Function.comp_def]

/-- Data files without delete lists bring no delete file. -/
lemma avroDeleteFiles_read {rootUri : Path} {file : AvroManifest}
    (h : ∀ ie ∈ file.entries, ∃ e : ManifestEntry, ie.object = .data e ∧ e.deleteFiles = [])
    (spec : PartitionSpec) : avroDeleteFiles rootUri (file.read spec) = [] := by
  have hnil : ∀ o ∈ liveObjects (file.read spec), ∃ e : ManifestEntry,
      o = .data e ∧ e.deleteFiles = [] := by
    intro o ho
    rw [liveObjects_read] at ho
    obtain ⟨o', ho', rfl⟩ := List.mem_map.1 ho
    obtain ⟨ie, hie, rfl⟩ := mem_liveObjects ho'
    obtain ⟨e, he, hdel⟩ := h ie hie
    rw [he]
    exact ⟨_, rfl, hdel⟩
  rw [avroDeleteFiles, List.flatMap_eq_nil_iff.2]
  · rfl
  · intro o ho
    obtain ⟨e, rfl, hdel⟩ := hnil o ho
    exact hdel

lemma AvroManifest.Unmixed.loadAvroManifest_eq {file : AvroManifest} (h : file.Unmixed)
    (rootUri : Path) (spec : PartitionSpec) :
    loadAvroManifest rootUri spec file =
      file.dataEntries.map (readEntry rootUri file.spec spec) := by
  rw [loadAvroManifest, liveObjects_read, List.filterMap_map, dataEntries, List.map_filterMap]
  refine List.filterMap_congr fun o ho => ?_
  obtain ⟨ie, hie, rfl⟩ := mem_liveObjects ho
  rcases h with hdeletes | hdata
  · obtain ⟨d, hd⟩ := hdeletes ie hie
    simp [hd, IcebergObject.readAs]
  · obtain ⟨e, he, -⟩ := hdata ie hie
    simp [he, IcebergObject.readAs, avroDeleteFiles_read hdata, deletesOf, readEntry]

namespace ManifestStore

variable {s s' : ManifestStore} {rootUri : Path} {spec spec' : PartitionSpec}

/-- The manifest file of a list entry is there, and holds no data file if it is marked as a delete
manifest. -/
def HasFile (s : ManifestStore) (f : ManifestListEntry) : Prop :=
  ∃ file, s.files.lookup f.manifestPath = some file ∧ file.Unmixed ∧
    (f.content = .deletes → file.dataEntries = [])

lemma HasFile.mono {f : ManifestListEntry} (h : s.HasFile f) (hs : s.Extends s') :
    s'.HasFile f := by
  obtain ⟨file, hlookup, hfile⟩ := h
  exact ⟨file, hs.files hlookup, hfile⟩

lemma loadManifestFile_eq {f : ManifestListEntry} {file : AvroManifest}
    (hlookup : s.files.lookup f.manifestPath = some file) (hfile : file.Unmixed) :
    s.loadManifestFile rootUri spec f =
      .ok (file.dataEntries.map (readEntry rootUri file.spec spec)) := by
  simp only [loadManifestFile, hlookup, hfile.loadAvroManifest_eq]

lemma HasFile.loadManifestFile_deletes {f : ManifestListEntry} (h : s.HasFile f)
    (hc : f.content = .deletes) : s.loadManifestFile rootUri spec f = .ok [] := by
  obtain ⟨file, hlookup, hfile, hnil⟩ := h
  rw [loadManifestFile_eq hlookup hfile, hnil hc, List.map_nil]

lemma HasFile.loadManifestFile_congr {f : ManifestListEntry} (h : s.HasFile f)
    (hnames : spec'.names = spec.names) :
    s.loadManifestFile rootUri spec' f = s.loadManifestFile rootUri spec f := by
  obtain ⟨file, hlookup, hfile, -⟩ := h
  rw [loadManifestFile_eq hlookup hfile, loadManifestFile_eq hlookup hfile]
  congr 2
  funext e
  rw [readEntry, readEntry, readValues_congr hnames]

lemma loadManifestFiles_congr (hnames : spec'.names = spec.names) {fs : List ManifestListEntry}
    (h : ∀ f ∈ fs, s.HasFile f) :
    s.loadManifestFiles rootUri spec' fs = s.loadManifestFiles rootUri spec fs := by
  induction fs with
  | nil => rfl
  | cons f fs ih =>
    simp only [loadManifestFiles, (h f List.mem_cons_self).loadManifestFile_congr hnames,
      ih fun g hg => h g (List.mem_cons_of_mem f hg)]

/-- Under every spec the same paths are read, without delete lists. -/
lemma exists_loadManifestFiles (spec' : PartitionSpec) {fs : List ManifestListEntry}
    (h : ∀ f ∈ fs, s.HasFile f) {es : List ManifestEntry}
    (hload : s.loadManifestFiles rootUri spec fs = .ok es) :
    ∃ es', s.loadManifestFiles rootUri spec' fs = .ok es' ∧
      es'.map ManifestEntry.filePath = es.map ManifestEntry.filePath ∧
      ∀ e ∈ es', e.deleteFiles = [] := by
  induction fs generalizing es with
  | nil =>
    cases hload
    exact ⟨[], rfl, rfl, by simp⟩
  | cons f fs ih =>
    obtain ⟨es₁, es₂, hf, hfs, rfl⟩ := loadManifestFiles_cons_eq_ok.1 hload
    obtain ⟨es₂', hfs', hpaths, hcleared⟩ := ih (fun g hg => h g (List.mem_cons_of_mem f hg)) hfs
    obtain ⟨file, hlookup, hfile, -⟩ := h f List.mem_cons_self
    rw [loadManifestFile_eq hlookup hfile, Except.ok.injEq] at hf
    refine ⟨_, loadManifestFiles_cons_eq_ok.2 ⟨_, es₂', loadManifestFile_eq hlookup hfile, hfs',
      rfl⟩, ?_, ?_⟩
    · rw [List.map_append, List.map_append, hpaths, ← hf, List.map_map, List.map_map]
      rfl
    · intro e he
      rcases List.mem_append.1 he with he | he
      · obtain ⟨e', -, rfl⟩ := List.mem_map.1 he
        rfl
      · exact hcleared e he

/-! ### Reading back what was written -/

lemma dataEntries_added (spec : PartitionSpec) (es : List ManifestEntry) :
    AvroManifest.dataEntries ⟨spec, es.map fun e => ⟨.added, .data e⟩⟩ = es := by
  simp [AvroManifest.dataEntries, liveObjects, List.filter_map, Function.comp_def,
    List.filterMap_map]

lemma unmixed_added (spec : PartitionSpec) {es : List ManifestEntry}
    (h : ∀ e ∈ es, e.deleteFiles = []) :
    AvroManifest.Unmixed ⟨spec, es.map fun e => ⟨.added, .data e⟩⟩ := by
  refine .inr fun ie hie => ?_
  obtain ⟨e, he, rfl⟩ := List.mem_map.1 hie
  exact ⟨e, rfl, h e he⟩

/-- The manifest files written for some chunks hold the entries of the chunks. -/
lemma loadManifestFiles_putChunks (newVer : ℕ) (written : PartitionSpec)
    (chunks : List (List ManifestEntry)) (h : ∀ e ∈ chunks.flatten, e.deleteFiles = []) :
    ∀ (s : ManifestStore) (idx : ℕ),
      (∀ f ∈ (putChunks newVer written s idx chunks).2,
        (putChunks newVer written s idx chunks).1.HasFile f ∧ f.content = .data) ∧
      (putChunks newVer written s idx chunks).1.loadManifestFiles rootUri spec
          (putChunks newVer written s idx chunks).2 =
        .ok (chunks.flatten.map (readEntry rootUri written spec)) := by
  induction chunks with
  | nil => exact fun _ _ => ⟨by simp [putChunks], rfl⟩
  | cons chunk chunks ih =>
    intro s idx
    simp only [List.flatten_cons, List.mem_append] at h
    let file : AvroManifest := ⟨written, chunk.map fun e => ⟨.added, .data e⟩⟩
    have hfile : file.Unmixed := unmixed_added written fun e he => h e (.inl he)
    let s₁ := s.putManifestFile (.data s.nextUuid idx) rfl file
    have hlookup : (putChunks newVer written s₁ (idx + 1) chunks).1.files.lookup
        (.data s.nextUuid idx) = some file :=
      (extends_putChunks newVer written chunks s₁ (idx + 1)).files (Finmap.lookup_insert _)
    obtain ⟨hrest, hload⟩ := ih (fun e he => h e (.inr he)) s₁ (idx + 1)
    refine ⟨fun f hf => ?_, loadManifestFiles_cons_eq_ok.2
      ⟨chunk.map (readEntry rootUri written spec), _, ?_, hload, by simp⟩⟩
    · rcases List.mem_cons.1 hf with rfl | hf
      · exact ⟨⟨file, hlookup, hfile, by simp⟩, rfl⟩
      · exact hrest f hf
    · rw [loadManifestFile_eq hlookup hfile, dataEntries_added]

lemma hasFile_putDeleteManifest (s : ManifestStore) (newVer : ℕ) (spec : PartitionSpec)
    (deletes : List DeleteFile) (previous : List Path) :
    ∀ f ∈ (s.putDeleteManifest newVer spec deletes previous).2,
      (s.putDeleteManifest newVer spec deletes previous).1.HasFile f ∧ f.content = .deletes := by
  intro f hf
  unfold putDeleteManifest at hf ⊢
  split_ifs at hf ⊢ with h
  · cases hf
  · obtain rfl := List.mem_singleton.1 hf
    refine ⟨⟨_, Finmap.lookup_insert _, .inl fun ie hie => ?_, fun _ => ?_⟩, rfl⟩
    · obtain ⟨d, -, rfl⟩ := List.mem_map.1 hie
      exact ⟨d, rfl⟩
    · refine List.filterMap_eq_nil_iff.2 fun o ho => ?_
      obtain ⟨ie, hie, rfl⟩ := mem_liveObjects ho
      obtain ⟨d, -, rfl⟩ := List.mem_map.1 hie
      rfl

end ManifestStore

/-! ### Represented entries -/

/-- The manifest list `listPath` of the store stands for the entries `es` under a spec: its
manifest files hold them, under distinct and normalised paths, and files marked as delete manifests
hold none of them. Per-entry delete lists are never written. -/
structure Listed (root : RootUri) (spec : PartitionSpec) (s : ManifestStore)
    (listPath : Option ListName) (es : List ManifestEntry) : Prop where
  files : ∃ fs, (∀ n, listPath = some n → s.lists.lookup n = some fs) ∧
    (listPath = none → fs = []) ∧ s.loadManifestFiles root.uri spec fs = .ok es ∧
    ∀ f ∈ fs, s.HasFile f
  distinct : (es.map ManifestEntry.filePath).Nodup
  normalised : ∀ e ∈ es, Normalised root e.filePath
  cleared : ∀ e ∈ es, e.deleteFiles = []

namespace Listed

variable {root : RootUri} {spec : PartitionSpec} {s s' : ManifestStore}
  {listPath : Option ListName} {es : List ManifestEntry}

lemma empty (root : RootUri) (spec : PartitionSpec) (s : ManifestStore) :
    Listed root spec s none [] where
  files := ⟨[], by simp, by simp, rfl, by simp⟩
  distinct := List.nodup_nil
  normalised := by simp
  cleared := by simp

lemma mono (h : Listed root spec s listPath es) (hs : s.Extends s') :
    Listed root spec s' listPath es where
  files := by
    obtain ⟨fs, hlist, hnone, hload, hfiles⟩ := h.files
    exact ⟨fs, fun n hn => hs.lists (hlist n hn), hnone,
      ManifestStore.loadManifestFiles_mono hs hload, fun f hf => (hfiles f hf).mono hs⟩
  distinct := h.distinct
  normalised := h.normalised
  cleared := h.cleared

lemma of_names (h : Listed root spec s listPath es) {spec' : PartitionSpec}
    (hnames : spec'.names = spec.names) : Listed root spec' s listPath es where
  files := by
    obtain ⟨fs, hlist, hnone, hload, hfiles⟩ := h.files
    exact ⟨fs, hlist, hnone, (ManifestStore.loadManifestFiles_congr hnames hfiles).trans hload,
      hfiles⟩
  distinct := h.distinct
  normalised := h.normalised
  cleared := h.cleared

/-- Every other spec reads entries of the same paths. -/
lemma of_spec (h : Listed root spec s listPath es) (spec' : PartitionSpec) :
    ∃ es', Listed root spec' s listPath es' ∧
      es'.map ManifestEntry.filePath = es.map ManifestEntry.filePath := by
  obtain ⟨fs, hlist, hnone, hload, hfiles⟩ := h.files
  obtain ⟨es', hload', hpaths, hcleared⟩ :=
    ManifestStore.exists_loadManifestFiles spec' hfiles hload
  refine ⟨es', ⟨⟨fs, hlist, hnone, hload', hfiles⟩, hpaths ▸ h.distinct, fun e he => ?_, hcleared⟩,
    hpaths⟩
  have hmem : e.filePath ∈ es.map ManifestEntry.filePath := hpaths ▸ List.mem_map_of_mem he
  obtain ⟨e', he', heq⟩ := List.mem_map.1 hmem
  exact heq ▸ h.normalised e' he'

/-- The entries found through the manifest list, in some order. -/
lemma listedEntries {m : Manifest} (h : Listed root m.partitionSpec s listPath es)
    (arrival : Arrival ManifestListEntry) (hm : m.manifestListPath = listPath) :
    ∃ es', s.listedEntries root.uri arrival m = .ok es' ∧ es'.Perm es := by
  obtain ⟨fs, hlist, hnone, hload, -⟩ := h.files
  unfold ManifestStore.listedEntries
  rw [hm]
  cases listPath with
  | none =>
    rw [hnone rfl] at hload
    cases hload
    exact ⟨[], rfl, .refl _⟩
  | some n =>
    obtain ⟨es', hes', hperm⟩ :=
      ManifestStore.loadManifestFiles_perm (arrival.perm fs).symm hload
    refine ⟨es', ?_, hperm⟩
    simpa [ManifestStore.loadManifestList, hlist n rfl, bind, Except.bind] using hes'

end Listed

/-- The map a reader of the manifest `m` sees if its manifest list stands for `es`: inline entries
override listed ones, and the delete list of `m` decides the delete files. -/
def Manifest.view (root : RootUri) (m : Manifest) (es : List ManifestEntry) : EntryMap :=
  attachDeletes m.deleteFiles
    ((KeyedMap.ofList es).insertAll (m.entries.map (relativizeEntry root.uri)))

/-- `load_all_entries` returns the view, whatever the order in which files arrive. -/
lemma Listed.loadAllEntries {root : RootUri} {s : ManifestStore} {es : List ManifestEntry}
    {m : Manifest} (h : Listed root m.partitionSpec s m.manifestListPath es)
    (arrival : Arrival ManifestListEntry) :
    s.loadAllEntries root.uri arrival m = .ok (m.view root es) := by
  obtain ⟨es', hes', hperm⟩ := h.listedEntries arrival rfl
  have hmap : (KeyedMap.ofList es' : EntryMap) = KeyedMap.ofList es :=
    (KeyedMap.insertAll_perm hperm.symm h.distinct).symm
  simp only [ManifestStore.loadAllEntries, hes', bind, Except.bind, pure, Except.pure, hmap]
  rfl

/-! ### Writing a snapshot -/

/-- An entry without its delete list, as it is stored in manifest files. -/
def ManifestEntry.clearDeletes (e : ManifestEntry) : ManifestEntry := { e with deleteFiles := [] }

@[simp]
lemma ManifestEntry.filePath_clearDeletes (e : ManifestEntry) :
    e.clearDeletes.filePath = e.filePath := rfl

/-- An entry is read again under the spec under which it was written. -/
lemma readEntry_qualifyEntry {root : RootUri} (spec : PartitionSpec) {e : ManifestEntry}
    (h : Normalised root e.filePath) :
    readEntry root.uri spec spec (qualifyEntry root.uri e) = e.clearDeletes := by
  simp [readEntry, readValues, qualifyEntry, ManifestEntry.clearDeletes,
    relativizeFilePath_qualifyFilePath root h]

namespace ManifestStore

variable {root : RootUri} {s : ManifestStore} {env : CommitEnv} {current : Manifest}
  {newVer : ℕ} {prev : List ManifestListEntry} {toWrite es₀ : List ManifestEntry}
  {deletes : List DeleteFile}

/-- A snapshot written on top of files that hold `es₀` stands for `es₀` and the entries
written. -/
lemma listed_writeSnapshot (env : CommitEnv) (current : Manifest) (newVer : ℕ)
    (toWrite : List ManifestEntry) (deletes : List DeleteFile)
    (hprev : s.loadManifestFiles root.uri current.partitionSpec prev = .ok es₀)
    (hfiles : ∀ f ∈ prev, s.HasFile f)
    (hdistinct : ((es₀ ++ toWrite).map ManifestEntry.filePath).Nodup)
    (hnorm : ∀ e ∈ es₀ ++ toWrite, Normalised root e.filePath)
    (hcleared : ∀ e ∈ es₀, e.deleteFiles = []) :
    ∃ es', Listed root current.partitionSpec
        (s.writeSnapshot root env current newVer prev toWrite deletes).1
        (s.writeSnapshot root env current newVer prev toWrite deletes).2 es' ∧
      es'.Perm (es₀ ++ toWrite.map ManifestEntry.clearDeletes) := by
  let spec := current.partitionSpec
  let chunks := env.chunks (toWrite.map (qualifyEntry root.uri))
  let c := putChunks newVer spec s 0 chunks
  let d := c.1.putDeleteManifest newVer spec deletes (current.deleteFiles.map DeleteFile.filePath)
  let s' := (s.writeSnapshot root env current newVer prev toWrite deletes).1
  have hflat : chunks.flatten = toWrite.map (qualifyEntry root.uri) := env.flatten_chunks _
  have hsc : s.Extends c.1 := extends_putChunks _ _ _ _ _
  have hcd : c.1.Extends d.1 := extends_putDeleteManifest _ _ _ _ _
  have hds : d.1.Extends s' := extends_putManifestList _ _ _
  obtain ⟨hchunks, hload⟩ := @loadManifestFiles_putChunks root.uri spec newVer spec chunks
    (by simp [hflat, qualifyEntry]) s 0
  -- the new data manifests, in upload order, hold the entries written
  have hnew : c.1.loadManifestFiles root.uri spec c.2 =
      .ok (toWrite.map ManifestEntry.clearDeletes) := by
    rw [hflat, List.map_map] at hload
    rw [hload, List.map_congr_left]
    exact fun e he => readEntry_qualifyEntry spec (hnorm e (List.mem_append_right _ he))
  obtain ⟨es₁, hes₁, hperm⟩ := loadManifestFiles_perm (env.uploads.perm c.2).symm hnew
  have hdel : ∀ f ∈ d.2, d.1.HasFile f ∧ f.content = .deletes :=
    hasFile_putDeleteManifest _ _ _ _ _
  have hperm' : (es₀ ++ es₁).Perm (es₀ ++ toWrite.map ManifestEntry.clearDeletes) :=
    hperm.append_left es₀
  have hpaths : ((es₀ ++ es₁).map ManifestEntry.filePath).Perm
      ((es₀ ++ toWrite).map ManifestEntry.filePath) := by
    simpa [Function.comp_def] using hperm'.map ManifestEntry.filePath
  refine ⟨es₀ ++ es₁, ⟨⟨prev ++ (env.uploads.order c.2 ++ d.2), ?_, ?_, ?_, ?_⟩, ?_, ?_, ?_⟩,
    hperm'⟩
  · rintro n ⟨⟩
    exact Finmap.lookup_insert _
  · intro h
    cases h
  · refine loadManifestFiles_append
      (loadManifestFiles_mono ((hsc.trans hcd).trans hds) hprev) ?_
    have := loadManifestFiles_append (loadManifestFiles_mono (hcd.trans hds) hes₁)
      (loadManifestFiles_mono hds (loadManifestFiles_of_forall_nil fun f hf =>
        (hdel f hf).1.loadManifestFile_deletes (hdel f hf).2))
    rwa [List.append_nil] at this
  · intro f hf
    rcases List.mem_append.1 hf with hf | hf
    · exact (hfiles f hf).mono ((hsc.trans hcd).trans hds)
    · rcases List.mem_append.1 hf with hf | hf
      · exact (hchunks f ((env.uploads.perm c.2).mem_iff.1 hf)).1.mono (hcd.trans hds)
      · exact (hdel f hf).1.mono hds
  · exact hpaths.nodup_iff.2 hdistinct
  · intro e he
    have hp : e.filePath ∈ (es₀ ++ toWrite).map ManifestEntry.filePath :=
      hpaths.mem_iff.1 (List.mem_map_of_mem he)
    obtain ⟨e', he', heq⟩ := List.mem_map.1 hp
    exact heq ▸ hnorm e' he'
  · intro e he
    rcases List.mem_append.1 (hperm'.mem_iff.1 he) with he | he
    · exact hcleared e he
    · obtain ⟨e', -, rfl⟩ := List.mem_map.1 he
      rfl

end ManifestStore

end BenoStreamDB

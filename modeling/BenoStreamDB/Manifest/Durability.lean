import BenoStreamDB.Manifest.Import

/-!
# Imports and syncs under later appends

An import or a sync leaves its entries inline in the manifest. The append-only path of a later
commit writes an empty inline list and references the manifest files of its parent, so what only
the inline entries said is gone. This module says exactly when the entries survive.
-/

namespace BenoStreamDB

namespace ManifestStore

/-- What the manifest list of `m` holds, without the inline entries. -/
def listOnly (s : ManifestStore) (root : RootUri) (m : Manifest) : EntryMap :=
  match s.listedEntries root.uri (Arrival.fifo _) m with
  | .ok es => KeyedMap.ofList es
  | .error _ => ∅

/-- The number of manifest files the manifest list of `m` references. -/
def manifestFileCount (s : ManifestStore) (m : Manifest) : ℕ :=
  match m.manifestListPath with
  | none => 0
  | some n => ((s.lists.lookup n).getD []).length

lemma listOnly_eq {s : ManifestStore} {root : RootUri} {m : Manifest} {es : List ManifestEntry}
    (h : Listed root m.partitionSpec s m.manifestListPath es) :
    s.listOnly root m = KeyedMap.ofList es := by
  obtain ⟨es', hes', hperm⟩ := h.listedEntries (Arrival.fifo _) rfl
  rw [listOnly, hes']
  exact (KeyedMap.insertAll_perm hperm.symm h.distinct).symm

end ManifestStore

/-- The calls only append: they remove nothing, no added path is in the table or added twice, and
the partition spec stays. -/
structure AppendsTo (root : RootUri) (established : EntryMap) (calls : List CommitCall) :
    Prop where
  remove : ∀ call ∈ calls, call.remove = []
  normalised : ∀ e ∈ calls.flatMap CommitCall.add, Normalised root e.filePath
  distinct : ((calls.flatMap CommitCall.add).map ManifestEntry.filePath).Nodup
  new : ∀ e ∈ calls.flatMap CommitCall.add, established.contains e.filePath = false
  specs : ∀ call ∈ calls, call.metadata.updatedPartitionSpecs = none

/-- Run the calls as long as they return `Ok`. -/
def commitAll (root : RootUri) : List CommitCall → World → Option World
  | [], w => some w
  | call :: calls, w =>
    match commit root call w with
    | (.ok _, w') => commitAll root calls w'
    | (.error _, _) => none

/-- The entries `established` by the manifest `m` survive the appends: the first append does not
take the fast path, or the manifest list of `m` holds the entries already, and every entry has
the delete files that the accumulated delete list gives to its partition. -/
def SurvivesAppends (root : RootUri) (s : ManifestStore) (m : Manifest) (established : EntryMap)
    (calls : List CommitCall) : Prop :=
  ∀ first ∈ calls.head?,
    (first.add = [] ∨ (first.env 0).maxManifestFiles ≤ s.manifestFileCount m ∨
      s.listOnly root m = EntryMap.clear established) ∧
    ∀ k e, (established.insertAll (calls.flatMap CommitCall.add)).get? k = some e →
      e.deleteFiles = deletesOf (globalDeleteFiles m.deleteFiles (calls.flatMap CommitCall.add))
        e.partitionValues

/-! ### Clearing and attaching delete files -/

lemma clear_insertAll (m : EntryMap) (es : List ManifestEntry) :
    EntryMap.clear (m.insertAll es) =
      (EntryMap.clear m).insertAll (es.map ManifestEntry.clearDeletes) := by
  induction es generalizing m with
  | nil => rfl
  | cons e es ih =>
    rw [KeyedMap.insertAll_cons, ih, List.map_cons, KeyedMap.insertAll_cons]
    congr 1
    refine KeyedMap.ext fun k => ?_
    rw [EntryMap.get?_clear, KeyedMap.get?_insert, KeyedMap.get?_insert, EntryMap.get?_clear,
      ManifestEntry.filePath_clearDeletes]
    by_cases hk : e.filePath = k
    · rw [if_pos hk, if_pos hk, Option.map_some]
    · rw [if_neg hk, if_neg hk]

lemma contains_clear (m : EntryMap) (k : Path) :
    KeyedMap.contains (EntryMap.clear m) k = m.contains k := by
  simp [KeyedMap.contains, EntryMap.get?_clear]

/-- A map is the view of its cleared entries exactly if its delete lists are the derived ones. -/
lemma view_clear_eq_iff (m : EntryMap) (deletes : List DeleteFile) (properties : Properties)
    (spec : PartitionSpec) :
    (⟨EntryMap.clear m, deletes, properties, spec⟩ : TableModel).view = m ↔
      ∀ k e, m.get? k = some e → e.deleteFiles = deletesOf deletes e.partitionValues := by
  have hget (k : Path) : (⟨EntryMap.clear m, deletes, properties, spec⟩ : TableModel).view.get? k =
      (m.get? k).map fun e => { e with deleteFiles := deletesOf deletes e.partitionValues } := by
    rw [TableModel.view, KeyedMap.get?_mapValues, EntryMap.get?_clear, Option.map_map]
    rfl
  constructor
  · intro h k e hk
    have hk' := hget k
    rw [h, hk, Option.map_some, Option.some.injEq] at hk'
    rw [hk']
  · intro h
    refine KeyedMap.ext fun k => ?_
    rw [hget]
    cases hk : m.get? k with
    | none => rfl
    | some e =>
      have hdel := h k e hk
      rw [Option.map_some, ← hdel]

/-! ### Appending to a table -/

lemma globalDeleteFiles_append (ds : List DeleteFile) (xs ys : List ManifestEntry) :
    globalDeleteFiles ds (xs ++ ys) = globalDeleteFiles (globalDeleteFiles ds xs) ys := by
  simp [globalDeleteFiles]

/-- Entries under new paths can be taken off again. -/
lemma insertAll_right_cancel {m n : EntryMap} {es : List ManifestEntry}
    (hm : ∀ e ∈ es, m.contains e.filePath = false) (hn : ∀ e ∈ es, n.contains e.filePath = false)
    (h : m.insertAll es = n.insertAll es) : m = n := by
  refine KeyedMap.ext fun k => ?_
  by_cases hk : k ∈ es.map ManifestEntry.filePath
  · obtain ⟨e, he, rfl⟩ := List.mem_map.1 hk
    rw [KeyedMap.not_contains_iff.1 (hm e he), KeyedMap.not_contains_iff.1 (hn e he)]
  · rw [← KeyedMap.get?_insertAll_of_notMem hk, h, KeyedMap.get?_insertAll_of_notMem hk]

lemma AppendsTo.wellFormed {root : RootUri} {established : EntryMap} {call : CommitCall}
    {calls : List CommitCall} (h : AppendsTo root established (call :: calls)) :
    call.WellFormed root where
  normalised e he := h.normalised e (by simp [he])
  distinct := by
    have hdistinct := h.distinct
    rw [List.flatMap_cons, List.map_append] at hdistinct
    exact (List.nodup_append.1 hdistinct).1

lemma AppendsTo.head {root : RootUri} {established : EntryMap} {call : CommitCall}
    {calls : List CommitCall} (h : AppendsTo root established (call :: calls)) :
    AppendsTo root established [call] where
  remove := by simpa using h.remove call List.mem_cons_self
  normalised e he := h.wellFormed.normalised e (by simpa using he)
  distinct := by simpa using h.wellFormed.distinct
  new e he := h.new e (List.mem_append_left _ (by simpa using he))
  specs := by simpa using h.specs call List.mem_cons_self

/-- After the first call the other ones append to what it leaves behind. -/
lemma AppendsTo.tail {root : RootUri} {established base : EntryMap} {call : CommitCall}
    {calls : List CommitCall} (h : AppendsTo root established (call :: calls))
    (hbase : ∀ k, base.contains k = true → established.contains k = true) :
    AppendsTo root (base.insertAll (call.add.map ManifestEntry.clearDeletes)) calls where
  remove c hc := h.remove c (List.mem_cons_of_mem call hc)
  normalised e he := h.normalised e (List.mem_append_right _ he)
  distinct := by
    have hdistinct := h.distinct
    rw [List.flatMap_cons, List.map_append] at hdistinct
    exact (List.nodup_append.1 hdistinct).2.1
  new e he := by
    have hdistinct := h.distinct
    rw [List.flatMap_cons, List.map_append] at hdistinct
    rw [← Bool.not_eq_true, KeyedMap.contains_insertAll]
    rintro (hk | hk)
    · rw [List.map_map] at hk
      exact (List.nodup_append.1 hdistinct).2.2 _ hk _ (List.mem_map_of_mem he) rfl
    · have hnew := h.new e (List.mem_append_right _ he)
      rw [hbase _ hk] at hnew
      cases hnew
  specs c hc := h.specs c (List.mem_cons_of_mem call hc)

/-- The model after an append of new files. -/
lemma TableModel.commit_append {t : TableModel} {call : CommitCall} (hacc : t.Accepts call)
    (hremove : call.remove = []) (hnew : ∀ e ∈ call.add, t.entries.contains e.filePath = false)
    (hdistinct : (call.add.map ManifestEntry.filePath).Nodup) :
    t.commit call = ⟨t.entries.insertAll (call.add.map ManifestEntry.clearDeletes),
      globalDeleteFiles t.deletes call.add, newProperties t.properties call.metadata,
      finalPartitionSpec t.spec call.metadata⟩ := by
  rw [TableModel.commit, if_pos hacc, hremove, KeyedMap.eraseAll_nil, ← addEntries_eq_foldl,
    addEntries_of_new]
  · intro e he
    obtain ⟨e', he', rfl⟩ := List.mem_map.1 he
    exact hnew e' he'
  · simpa [Function.comp_def] using hdistinct

/-- Appends to a table that stands for a model: it has no inline entries, so nothing is lost. -/
lemma Refines.commitAll {root : RootUri} {w w' : World} {t : TableModel} (h : Refines root w t)
    {calls : List CommitCall} (hcalls : AppendsTo root t.entries calls)
    (hrun : BenoStreamDB.commitAll root calls w = some w') :
    ∃ properties spec, Refines root w'
      ⟨t.entries.insertAll ((calls.flatMap CommitCall.add).map ManifestEntry.clearDeletes),
        globalDeleteFiles t.deletes (calls.flatMap CommitCall.add), properties, spec⟩ := by
  induction calls generalizing w t with
  | nil =>
    cases hrun
    exact ⟨t.properties, t.spec, h⟩
  | cons call calls ih =>
    rcases hcommit : BenoStreamDB.commit root call w with ⟨r, w₁⟩
    rw [BenoStreamDB.commitAll, hcommit] at hrun
    cases r with
    | error e => cases hrun
    | ok m =>
      have hremove := hcalls.remove call List.mem_cons_self
      have hwf := hcalls.wellFormed
      have hstep := h.commit hwf (t.keepsNames_commit (hcalls.specs call List.mem_cons_self))
      rw [hcommit, TableModel.commit_append (h.accepts_of_ok hwf hremove hcommit) hremove
        (fun e he => hcalls.new e (by simp [he])) hwf.distinct] at hstep
      obtain ⟨properties, spec, hrest⟩ := ih hstep (hcalls.tail fun _ hk => hk) hrun
      refine ⟨properties, spec, ?_⟩
      rwa [List.flatMap_cons, List.map_append, KeyedMap.insertAll_append,
        globalDeleteFiles_append]

/-! ### The first append -/

/-- Among appends the fast path is left only when the parent has too many manifest files. -/
lemma appendsOnly_iff {root : RootUri} {s : ManifestStore} {env : CommitEnv} {current : Manifest}
    {active : EntryMap} {call : CommitCall} {es : List ManifestEntry}
    (hL : Listed root current.partitionSpec s current.manifestListPath es)
    (hremove : call.remove = [])
    (hnew : ∀ e ∈ call.add, active.contains e.filePath = false) :
    AppendsOnly s env current active call ↔
      call.add ≠ [] ∧ s.manifestFileCount current < env.maxManifestFiles := by
  refine and_congr_right fun _ => ?_
  obtain ⟨fs, hlist, -⟩ := hL.files
  rw [appendBase, if_pos ⟨hremove, hnew⟩, ManifestStore.manifestFileCount]
  cases hpath : current.manifestListPath with
  | none => simpa using env.maxManifestFiles_pos
  | some n =>
    simp only [ManifestStore.loadManifestList, hlist n hpath, bind, Except.bind, pure, Except.pure,
      Option.getD_some]
    split_ifs with hmax
    · simpa using hmax
    · simpa using hmax

/-- The entries that the first append builds on. -/
noncomputable def appendedTo (root : RootUri) (s : ManifestStore) (m : Manifest)
    (established : EntryMap) (call : CommitCall) : EntryMap :=
  open Classical in
  if AppendsOnly s (call.env 0) m established call then s.listOnly root m
  else EntryMap.clear established

/-- The first append after an import or a sync, in terms of the model. -/
lemma TableInv.append {root : RootUri} {w w' : World} {m₁ m : Manifest} {call : CommitCall}
    {es : List ManifestEntry} (h : TableInv root w)
    (hnewest : ∀ {m v}, w.store.Newest m v → m = m₁)
    (hes : Listed root m₁.partitionSpec w.store m₁.manifestListPath es)
    (hcall : AppendsTo root (m₁.view root es) [call])
    (hrun : BenoStreamDB.commit root call w = (.ok m, w')) :
    ∃ properties spec, Refines root w'
      ⟨(appendedTo root w.store m₁ (m₁.view root es) call).insertAll
          (call.add.map ManifestEntry.clearDeletes),
        globalDeleteFiles m₁.deleteFiles call.add, properties, spec⟩ := by
  have hwf := hcall.wellFormed
  have hremove := hcall.remove call List.mem_cons_self
  have hnew : ∀ e ∈ call.add, (m₁.view root es).contains e.filePath = false :=
    fun e he => hcall.new e (by simpa using he)
  obtain ⟨current, ver, w₀, hcur, hw₀, hends⟩ :=
    (commitOp root call).run_ends call.expiry h.coherent (by simp [commitOp])
  obtain ⟨-, -, hinline⟩ := h.newest hcur
  obtain rfl := hnewest hcur
  cases commit_effect hw₀ hends ⟨hes, hinline, hwf.normalised, hwf.distinct⟩ with
  | unchanged _ eq failed =>
    obtain ⟨e, rfl⟩ := failed hremove
    rw [hrun] at eq
    cases eq
  | @created m' s' w'' listPath es' effective written manifest ext newest versions coherent eq =>
    rw [hrun] at eq
    cases eq
    refine ⟨newProperties current.properties call.metadata,
      finalPartitionSpec current.partitionSpec call.metadata, coherent, fun {m' v} hm' => ?_⟩
    obtain rfl := ManifestStore.Newest.eq_of_insert newest versions hm'
    subst manifest
    have hspec : finalPartitionSpec current.partitionSpec call.metadata =
        current.partitionSpec := by
      simp only [finalPartitionSpec, hcall.specs call List.mem_cons_self]
    refine ⟨rfl, rfl, rfl, rfl, es', (written.listed.mono ext).of_names (by rw [← hspec]; rfl), ?_⟩
    rw [hremove, KeyedMap.eraseAll_nil] at written
    unfold appendedTo
    by_cases hap : AppendsOnly w.store (call.env 0) current (current.view root es) call
    · rw [if_pos hap, ManifestStore.listOnly_eq hes, KeyedMap.ofList,
        KeyedMap.insertAll_perm (written.append hap) written.listed.distinct,
        KeyedMap.insertAll_append]
      rfl
    · rw [if_neg hap, written.rewrite hap, addEntries_of_new hnew hwf.distinct, clear_insertAll]

/-! ### Survival -/

/-- An import or a sync makes its manifest the newest version. -/
lemma TableInv.newest_of_inline {root : RootUri} {w w' : World} (h : TableInv root w)
    {op : TableOp} (hinline : ∀ call, op ≠ .commit call) {m : Manifest}
    (hrun : op.run root w = (.ok m, w')) {m' : Manifest} {v : ℕ} (hm' : w'.store.Newest m' v) :
    m' = m := by
  cases op with
  | commit call => exact absurd rfl (hinline call)
  | imported call =>
    obtain ⟨current, ver, es, w'', -, -, eq, -, newest, versions, -⟩ :=
      @inline_effect root (importedOp root call) call.expiry _ _ w h (by simp [importedOp]) rfl
    cases hrun.symm.trans eq
    exact ManifestStore.Newest.eq_of_insert newest versions hm'
  | synced call =>
    obtain ⟨current, ver, es, w'', -, -, eq, -, newest, versions, -⟩ :=
      @inline_effect root (syncedOp root call) call.expiry _ _ w h (by simp [syncedOp]) rfl
    cases hrun.symm.trans eq
    exact ManifestStore.Newest.eq_of_insert newest versions hm'

lemma contains_listOnly {root : RootUri} {s : ManifestStore} {m : Manifest}
    {es : List ManifestEntry} (h : Listed root m.partitionSpec s m.manifestListPath es) {k : Path}
    (hk : (s.listOnly root m).contains k = true) : (m.view root es).contains k = true := by
  rw [ManifestStore.listOnly_eq h, KeyedMap.ofList, KeyedMap.contains_insertAll] at hk
  refine (Manifest.contains_view k).2 (.inr ?_)
  simpa [KeyedMap.contains] using hk

lemma contains_appendedTo {root : RootUri} {s : ManifestStore} {m : Manifest}
    {es : List ManifestEntry} (h : Listed root m.partitionSpec s m.manifestListPath es)
    {call : CommitCall} {k : Path}
    (hk : (appendedTo root s m (m.view root es) call).contains k = true) :
    (m.view root es).contains k = true := by
  unfold appendedTo at hk
  split_ifs at hk
  · exact contains_listOnly h hk
  · rwa [contains_clear] at hk

lemma clear_appendedTo {root : RootUri} {s : ManifestStore} {m : Manifest}
    {es : List ManifestEntry} (h : Listed root m.partitionSpec s m.manifestListPath es)
    {established : EntryMap} {call : CommitCall} :
    EntryMap.clear (appendedTo root s m established call) =
      appendedTo root s m established call := by
  unfold appendedTo
  split_ifs
  · rw [ManifestStore.listOnly_eq h, clear_ofList h.cleared]
  · refine KeyedMap.ext fun k => ?_
    rw [EntryMap.get?_clear, EntryMap.get?_clear, Option.map_map]
    rfl

lemma appendedTo_eq_clear_iff {root : RootUri} {s : ManifestStore} {m : Manifest}
    {es : List ManifestEntry} (h : Listed root m.partitionSpec s m.manifestListPath es)
    {established : EntryMap} {call : CommitCall} (hremove : call.remove = [])
    (hnew : ∀ e ∈ call.add, established.contains e.filePath = false) :
    appendedTo root s m established call = EntryMap.clear established ↔
      call.add = [] ∨ (call.env 0).maxManifestFiles ≤ s.manifestFileCount m ∨
        s.listOnly root m = EntryMap.clear established := by
  unfold appendedTo
  split_ifs with hap
  · obtain ⟨hadd, hmax⟩ := (appendsOnly_iff h hremove hnew).1 hap
    simp [hadd, hmax]
  · rw [appendsOnly_iff h hremove hnew, not_and_or, not_not, not_lt] at hap
    exact iff_of_true rfl (hap.imp_right .inl)

/-- The table of the model shows the established and the appended entries exactly if the first
append builds on the established ones and the delete lists are the derived ones. -/
lemma view_eq_insertAll_iff {established base : EntryMap} {adds : List ManifestEntry}
    {deletes : List DeleteFile} {properties : Properties} {spec : PartitionSpec}
    (hbase : ∀ k, base.contains k = true → established.contains k = true)
    (hnew : ∀ e ∈ adds, established.contains e.filePath = false)
    (hclear : EntryMap.clear base = base) :
    (⟨base.insertAll (adds.map ManifestEntry.clearDeletes), deletes, properties, spec⟩ :
        TableModel).view = established.insertAll adds ↔
      base = EntryMap.clear established ∧
        ∀ k e, (established.insertAll adds).get? k = some e →
          e.deleteFiles = deletesOf deletes e.partitionValues := by
  have hraw : EntryMap.clear (base.insertAll (adds.map ManifestEntry.clearDeletes)) =
      base.insertAll (adds.map ManifestEntry.clearDeletes) := by
    rw [clear_insertAll, hclear, List.map_map]
    rfl
  have hview : base = EntryMap.clear established →
      base.insertAll (adds.map ManifestEntry.clearDeletes) =
        EntryMap.clear (established.insertAll adds) := by
    rintro rfl
    rw [clear_insertAll]
  constructor
  · intro h
    have hb : base = EntryMap.clear established := by
      refine @insertAll_right_cancel _ _ (adds.map ManifestEntry.clearDeletes) ?_ ?_ ?_
      · intro e he
        obtain ⟨e', he', rfl⟩ := List.mem_map.1 he
        rw [ManifestEntry.filePath_clearDeletes, ← Bool.not_eq_true]
        intro hk
        have hest := hnew e' he'
        rw [hbase _ hk] at hest
        cases hest
      · intro e he
        obtain ⟨e', he', rfl⟩ := List.mem_map.1 he
        rw [contains_clear]
        exact hnew e' he'
      · rw [← clear_insertAll, ← h]
        exact (@clear_view ⟨_, deletes, properties, spec⟩ hraw).symm
    refine ⟨hb, ?_⟩
    rw [hview hb] at h
    exact (view_clear_eq_iff _ _ _ _).1 h
  · rintro ⟨hb, hdel⟩
    rw [hview hb]
    exact (view_clear_eq_iff _ _ _ _).2 hdel

/-- After an import or a sync that returned `Ok`, a run of appends leaves `load_all_entries` of
the newest version equal to the entries established then and the appended ones exactly if
`SurvivesAppends`. -/
theorem loadAllEntries_commitAll_iff {root : RootUri} {w₀ w₁ w₂ : World} (h₀ : TableInv root w₀)
    {op : TableOp} (hop : op.Valid root) (hinline : ∀ call, op ≠ .commit call) {m₁ : Manifest}
    (hrun : op.run root w₀ = (.ok m₁, w₁)) {established : EntryMap}
    (hest : w₁.store.loadAllEntries root.uri (Arrival.fifo _) m₁ = .ok established)
    {calls : List CommitCall} (hcalls : AppendsTo root established calls)
    (hall : commitAll root calls w₁ = some w₂) :
    (∀ arrival, w₂.store.loadAllEntries root.uri arrival w₂.store.loadLatestDirect.1 =
      .ok (established.insertAll (calls.flatMap CommitCall.add))) ↔
    SurvivesAppends root w₁.store m₁ established calls := by
  have h₁ : TableInv root w₁ := by
    have h := h₀.run hop
    rwa [hrun] at h
  have hnewest : ∀ {m v}, w₁.store.Newest m v → m = m₁ :=
    fun hm => h₀.newest_of_inline hinline hrun hm
  have hm₁ := hnewest w₁.store.newest_loadLatestDirect
  obtain ⟨es, hes, -⟩ := h₁.newest w₁.store.newest_loadLatestDirect
  rw [hm₁] at hes
  have hview : established = m₁.view root es := by
    rw [hes.loadAllEntries] at hest
    exact (Except.ok.inj hest).symm
  cases calls with
  | nil =>
    cases hall
    refine iff_of_true (fun arrival => ?_) (by simp [SurvivesAppends])
    rw [hm₁, hes.loadAllEntries, hview]
    rfl
  | cons call calls =>
    subst hview
    rcases hcommit : commit root call w₁ with ⟨r, w⟩
    rw [commitAll, hcommit] at hall
    cases r with
    | error e => cases hall
    | ok m =>
      -- the first append decides what the other ones build on
      obtain ⟨properties, spec, hfirst⟩ := h₁.append hnewest hes hcalls.head hcommit
      obtain ⟨properties', spec', hrest⟩ := hfirst.commitAll
        (hcalls.tail fun k hk => contains_appendedTo hes hk) hall
      have hload : ∀ arrival, w₂.store.loadAllEntries root.uri arrival
          w₂.store.loadLatestDirect.1 = .ok (TableModel.view
            ⟨(appendedTo root w₁.store m₁ (m₁.view root es) call).insertAll
              (((call :: calls).flatMap CommitCall.add).map ManifestEntry.clearDeletes),
            globalDeleteFiles m₁.deleteFiles ((call :: calls).flatMap CommitCall.add),
            properties', spec'⟩) := by
        intro arrival
        obtain ⟨hentries, hdel, -, -, es', hes', hmap⟩ :=
          hrest.newest w₂.store.newest_loadLatestDirect
        rw [hes'.loadAllEntries, view_eq hentries hdel hes' hmap, List.flatMap_cons,
          List.map_append, KeyedMap.insertAll_append, globalDeleteFiles_append]
      have hiff (m : EntryMap) : (∀ arrival, w₂.store.loadAllEntries root.uri arrival
          w₂.store.loadLatestDirect.1 = .ok m) ↔ TableModel.view _ = m :=
        ⟨fun h => Except.ok.inj ((hload (Arrival.fifo _)).symm.trans (h _)),
          fun h arrival => by rw [hload, h]⟩
      rw [hiff, view_eq_insertAll_iff (fun k hk => contains_appendedTo hes hk) hcalls.new
        (clear_appendedTo hes), appendedTo_eq_clear_iff hes (hcalls.remove call List.mem_cons_self)
        fun e he => hcalls.new e (List.mem_append_left _ he)]
      simp [SurvivesAppends]

/-! ### An index attach that reverts -/

/-- A table with one data file. -/
def oneFileTable : World := (commit sampleRoot { add := [{ filePath := ['a'] }] } {}).2

/-- The index backfill attaches an index file to it. -/
def attachIndex : ImportCall where
  entries := [{ filePath := ['a'], indexFiles := [⟨"c.1", "btree", "c", ['i']⟩] }]

def indexedTable : World := (commitImportedEntries sampleRoot attachIndex oneFileTable).2

def indexedManifest : Manifest := indexedTable.store.loadLatestDirect.1

/-- A later append of another data file. -/
def appendOther : CommitCall where
  add := [{ filePath := ['b'] }]

def appendedTable : World := (commit sampleRoot appendOther indexedTable).2

lemma tableState_oneFileTable : TableState sampleRoot oneFileTable :=
  @TableState.step sampleRoot {} (.commit { add := [{ filePath := ['a'] }] }) .empty
    ⟨by decide, by decide⟩

lemma attachIndex_eq : commitImportedEntries sampleRoot attachIndex oneFileTable =
    (.ok indexedManifest, indexedTable) := by
  decide

lemma loadAllEntries_indexedTable :
    indexedTable.store.loadAllEntries sampleRoot.uri (Arrival.fifo _) indexedManifest =
      .ok (KeyedMap.ofList attachIndex.entries) := by
  decide

lemma appendsTo_appendOther :
    AppendsTo sampleRoot (KeyedMap.ofList attachIndex.entries) [appendOther] :=
  ⟨by decide, by decide, by decide, by decide, by decide⟩

lemma commitAll_appendOther :
    commitAll sampleRoot [appendOther] indexedTable = some appendedTable := by
  decide

theorem loadAllEntries_appendedTable_iff :
    (∀ arrival, appendedTable.store.loadAllEntries sampleRoot.uri arrival
      appendedTable.store.loadLatestDirect.1 =
        .ok ((KeyedMap.ofList attachIndex.entries).insertAll
          ([appendOther].flatMap CommitCall.add))) ↔
    SurvivesAppends sampleRoot indexedTable.store indexedManifest
      (KeyedMap.ofList attachIndex.entries) [appendOther] :=
  @loadAllEntries_commitAll_iff sampleRoot oneFileTable indexedTable appendedTable
    tableState_oneFileTable.inv (.imported attachIndex) trivial (by simp) indexedManifest
    attachIndex_eq _ loadAllEntries_indexedTable _ appendsTo_appendOther commitAll_appendOther

/-- The attached index file is gone after the append: the new version references the manifest
file that was written before the index was attached. -/
theorem loadAllEntries_appendedTable_ne :
    TableState sampleRoot oneFileTable ∧
    commitImportedEntries sampleRoot attachIndex oneFileTable =
      (.ok indexedManifest, indexedTable) ∧
    indexedTable.store.loadAllEntries sampleRoot.uri (Arrival.fifo _) indexedManifest =
      .ok (KeyedMap.ofList attachIndex.entries) ∧
    AppendsTo sampleRoot (KeyedMap.ofList attachIndex.entries) [appendOther] ∧
    commitAll sampleRoot [appendOther] indexedTable = some appendedTable ∧
    appendedTable.store.loadAllEntries sampleRoot.uri (Arrival.fifo _)
      appendedTable.store.loadLatestDirect.1 ≠
        .ok ((KeyedMap.ofList attachIndex.entries).insertAll
          ([appendOther].flatMap CommitCall.add)) :=
  ⟨tableState_oneFileTable, attachIndex_eq, loadAllEntries_indexedTable, appendsTo_appendOther,
    commitAll_appendOther, by decide⟩

end BenoStreamDB

import BenoStreamDB.Manifest.CommitSpec

/-!
# Commits refine a map update

The table as its users see it is a map of entries, a list of delete files, the properties and the
partition spec (`TableModel`). A run of commits by one client, whatever layout each of them chooses
and however uploads and downloads are ordered, moves the stored table as the model moves, if no
commit renames the partition fields of a table with entries. `Table.SpecEvolution` has the others.
-/

namespace BenoStreamDB

/-! ### The abstract table -/

structure TableModel where
  /-- The live entries, without delete files. -/
  entries : EntryMap := ∅
  deletes : List DeleteFile := []
  properties : Properties := ∅
  spec : PartitionSpec := {}

/-- Insert by path; an existing entry with more index files keeps them. -/
def upsert (entries : EntryMap) (e : ManifestEntry) : EntryMap :=
  entries.insert (keepIndexes (entries.get? e.filePath) e)

/-- Once a table with data declares an embedding model, the model and the declared dimension
stay. -/
def EmbeddingKept (current proposed : Properties) (hasData : Prop) : Prop :=
  hasData → ∀ model, current.lookup embeddingModelProp = some model →
    proposed.lookup embeddingModelProp = some model ∧
      ∀ dim, current.lookup embeddingDimProp = some dim →
        proposed.lookup embeddingDimProp = some dim

namespace TableModel

/-- The commit takes effect: it is not a compaction one of whose inputs is gone, its required
inputs are there, and it does not change the embedding space of stored vectors. -/
structure Accepts (t : TableModel) (call : CommitCall) : Prop where
  inputs : call.metadata.discardAddOnMissingRemove = true →
    ∀ p ∈ call.remove, t.entries.contains p = true
  required : call.metadata.requireRemovePathsExist = true →
    call.metadata.skipMissingRemovePaths = true ∨
      (∀ p ∈ call.remove, t.entries.contains p = true) ∧ call.remove.Nodup
  embedding : call.metadata.updatedProperties.isSome ∨ call.metadata.removedProperties.isSome →
    EmbeddingKept t.properties (newProperties t.properties call.metadata)
      (t.entries ≠ ∅ ∨ call.add ≠ [])

open Classical in
/-- Remove the listed paths, insert the added entries, append the new delete files. -/
noncomputable def commit (t : TableModel) (call : CommitCall) : TableModel :=
  if t.Accepts call then
    { entries := (call.add.map ManifestEntry.clearDeletes).foldl upsert
        (t.entries.eraseAll call.remove)
      deletes := globalDeleteFiles t.deletes call.add
      properties := newProperties t.properties call.metadata
      spec := finalPartitionSpec t.spec call.metadata }
  else t

noncomputable def run (calls : List CommitCall) : TableModel := calls.foldl commit {}

/-- The partition fields have the same names, or there are no entries that they would rename. -/
def KeepsNames (t t' : TableModel) : Prop :=
  t'.spec.names = t.spec.names ∨ t'.entries = ∅

/-- Every one of the calls keeps the names of the partition fields. -/
def AllKeepNames : TableModel → List CommitCall → Prop
  | _, [] => True
  | t, call :: calls => t.KeepsNames (t.commit call) ∧ AllKeepNames (t.commit call) calls

lemma keepsNames_commit (t : TableModel) {call : CommitCall}
    (h : call.metadata.updatedPartitionSpecs = none) : t.KeepsNames (t.commit call) := by
  left
  rw [commit]
  split_ifs
  · simp only [finalPartitionSpec, h]
  · rfl

/-- Every entry with the delete files of its partition. -/
def view (t : TableModel) : EntryMap :=
  t.entries.mapValues (fun e => { e with deleteFiles := deletesOf t.deletes e.partitionValues })
    fun _ => rfl

end TableModel

/-! ### When a commit takes effect -/

lemma validateEmbeddingPropertyTransition_eq_ok (current proposed : Properties) (b : Bool) :
    validateEmbeddingPropertyTransition current proposed b = .ok () ↔
      EmbeddingKept current proposed (b = true) := by
  unfold validateEmbeddingPropertyTransition EmbeddingKept
  cases b with
  | false => simp
  | true =>
    cases current.lookup embeddingModelProp with
    | none => simp
    | some model =>
      by_cases hmodel : proposed.lookup embeddingModelProp = some model
      · cases hdim : current.lookup embeddingDimProp with
        | none => simp [hmodel]
        | some dim =>
          by_cases hd : proposed.lookup embeddingDimProp = some dim
          · simp [hmodel, hd]
          · simp [hmodel, hd, Ne.symm hd]
      · simp [hmodel]

lemma removePaths_isOk_iff (md : CommitMetadata) (ver : ℕ) (active : EntryMap) (ps : List Path) :
    (∃ m, removePaths md ver active ps = .ok m) ↔ (md.requireRemovePathsExist = true →
      md.skipMissingRemovePaths = true ∨
        (∀ p ∈ ps, active.contains p = true) ∧ ps.Nodup) := by
  induction ps generalizing active with
  | nil => simp [removePaths]
  | cons p ps ih =>
    unfold removePaths
    split_ifs with hbad
    · simp [hbad]
    · rw [ih]
      cases hreq : md.requireRemovePathsExist with
      | false => simp
      | true =>
        cases hskip : md.skipMissingRemovePaths with
        | true => simp
        | false =>
          have hp : active.contains p = true := by simpa [hreq, hskip] using hbad
          have hiff : (∀ q ∈ ps, (active.erase p).contains q = true) ↔
              (∀ q ∈ ps, active.contains q = true) ∧ p ∉ ps := by
            simp only [KeyedMap.contains, KeyedMap.get?_erase]
            constructor
            · refine fun h => ⟨fun q hq => ?_, fun hmem => by simpa using h p hmem⟩
              have hq' := h q hq
              split_ifs at hq' with heq
              · cases hq'
              · exact hq'
            · rintro ⟨h, hmem⟩ q hq
              rw [if_neg (fun heq : p = q => hmem (heq ▸ hq))]
              exact h q hq
          simp [hp, hiff, and_assoc]

lemma rebase_isSome_iff (md : CommitMetadata) (ver : ℕ) (all : EntryMap) (ps : List Path) :
    rebase md ver all ps = .ok (some (all.eraseAll ps)) ↔
      (md.discardAddOnMissingRemove = true → ∀ p ∈ ps, all.contains p = true) ∧
      (md.requireRemovePathsExist = true → md.skipMissingRemovePaths = true ∨
        (∀ p ∈ ps, all.contains p = true) ∧ ps.Nodup) := by
  rw [← removePaths_isOk_iff md ver all ps]
  unfold rebase
  by_cases hdiscard : md.discardAddOnMissingRemove ∧ ∃ p ∈ ps, all.contains p = false
  · obtain ⟨hd, p, hp, hmiss⟩ := hdiscard
    rw [if_pos ⟨hd, p, hp, hmiss⟩]
    refine iff_of_false (by simp) fun h => ?_
    rw [h.1 hd p hp] at hmiss
    cases hmiss
  · have hall : md.discardAddOnMissingRemove = true → ∀ p ∈ ps, all.contains p = true := by
      intro hd p hp
      by_contra hmiss
      exact hdiscard ⟨hd, p, hp, by simpa using hmiss⟩
    rw [if_neg hdiscard]
    cases hr : removePaths md ver all ps with
    | error e => simp
    | ok m =>
      rw [removePaths_eq_ok hr]
      exact iff_of_true rfl ⟨hall, _, rfl⟩

lemma checkProperties_eq_ok (current : Properties) (md : CommitMetadata) (hasData : Bool) :
    checkProperties current md hasData = .ok () ↔
      (md.updatedProperties.isSome ∨ md.removedProperties.isSome →
        EmbeddingKept current (newProperties current md) (hasData = true)) := by
  unfold checkProperties
  split_ifs with htouch
  · rw [validateEmbeddingPropertyTransition_eq_ok]
    simp only [Bool.or_eq_true] at htouch
    exact ⟨fun h _ => h, fun h => h htouch⟩
  · simp only [Bool.or_eq_true] at htouch
    exact ⟨fun _ h => absurd h htouch, fun _ => rfl⟩

/-! ### The refinement -/

/-- The newest version of the table stands for the model, and the caches agree with the store. -/
structure Refines (root : RootUri) (w : World) (t : TableModel) : Prop where
  coherent : w.caches.Coherent w.store
  newest : ∀ {m v}, w.store.Newest m v →
    m.entries = [] ∧ m.deleteFiles = t.deletes ∧ m.properties = t.properties ∧
      m.partitionSpec = t.spec ∧ ∃ es, Listed root m.partitionSpec w.store m.manifestListPath es ∧
        KeyedMap.ofList es = t.entries

lemma refines_empty (root : RootUri) : Refines root {} {} where
  coherent := .empty _
  newest {m v} h := by
    cases h with
    | version h => cases h
    | genesis _ hm =>
      rcases hm with rfl | ⟨nowMs, rfl⟩ <;>
        exact ⟨rfl, rfl, rfl, rfl, [], .empty root _ _, rfl⟩

lemma clear_ofList {es : List ManifestEntry} (h : ∀ e ∈ es, e.deleteFiles = []) :
    EntryMap.clear (KeyedMap.ofList es) = KeyedMap.ofList es := by
  refine KeyedMap.ext fun k => ?_
  rw [EntryMap.get?_clear]
  cases hk : (KeyedMap.ofList es : EntryMap).get? k with
  | none => rfl
  | some e =>
    have hclear := h e (KeyedMap.mem_of_get?_ofList hk)
    cases e
    cases hclear
    rfl

/-- What a load of the newest version returns, by the model. -/
lemma view_eq {root : RootUri} {s : ManifestStore} {t : TableModel} {m : Manifest}
    {es : List ManifestEntry} (hentries : m.entries = []) (hdel : m.deleteFiles = t.deletes)
    (hes : Listed root m.partitionSpec s m.manifestListPath es)
    (hmap : KeyedMap.ofList es = t.entries) : m.view root es = t.view := by
  have hview : m.view root es = attachDeletes t.deletes t.entries := by
    simp [Manifest.view, hentries, hdel, hmap]
  rw [hview, attachDeletes, TableModel.view]
  split_ifs with hnil
  · -- without delete files the view attaches empty lists, which is what the entries have
    have hclear : EntryMap.clear t.entries = t.entries := hmap ▸ clear_ofList hes.cleared
    rw [hnil]
    exact hclear.symm
  · rfl

/-- A spec that renames no entry reads the same entries. -/
lemma Listed.renamed {root : RootUri} {spec spec' : PartitionSpec} {s : ManifestStore}
    {listPath : Option ListName} {es : List ManifestEntry} (h : Listed root spec s listPath es)
    (hnames : spec'.names = spec.names ∨ (KeyedMap.ofList es : EntryMap) = ∅) :
    Listed root spec' s listPath es := by
  rcases hnames with hnames | hempty
  · exact h.of_names hnames
  · obtain rfl : es = [] := by
      refine List.eq_nil_iff_forall_not_mem.2 fun e he => ?_
      have hmem : (KeyedMap.ofList es : EntryMap).contains e.filePath = true :=
        (KeyedMap.contains_insertAll _ _ _).2 (.inl (List.mem_map_of_mem he))
      rw [hempty] at hmem
      simp [KeyedMap.contains] at hmem
    obtain ⟨es', hes', hpaths⟩ := h.of_spec spec'
    rwa [List.map_eq_nil_iff.1 hpaths] at hes'

lemma TableModel.contains_view (t : TableModel) (k : Path) :
    t.view.contains k = t.entries.contains k := by
  simp [TableModel.view, KeyedMap.contains, KeyedMap.get?_mapValues]

lemma TableModel.view_eq_empty (t : TableModel) : t.view = ∅ ↔ t.entries = ∅ := by
  constructor <;> intro h <;> refine KeyedMap.ext fun k => ?_
  · have hk := t.contains_view k
    rw [h] at hk
    rw [KeyedMap.get?_empty]
    exact KeyedMap.not_contains_iff.1 (by rw [← hk]; rfl)
  · simp [TableModel.view, KeyedMap.get?_mapValues, h]

/-! ### The new map in the model -/

lemma keepIndexes_clearDeletes (x : Option ManifestEntry) (e : ManifestEntry) :
    (keepIndexes x e).clearDeletes =
      keepIndexes (x.map ManifestEntry.clearDeletes) e.clearDeletes := by
  cases x with
  | none => rfl
  | some x =>
    by_cases h : e.indexFiles.length < x.indexFiles.length <;>
      simp [keepIndexes, ManifestEntry.clearDeletes, h]

lemma addEntries_eq_foldl (m : EntryMap) (add : List ManifestEntry) :
    addEntries m add = add.foldl upsert m := by
  unfold addEntries
  congr 1
  funext m e
  exact addEntry_eq m e

/-- Delete lists do not matter for where an entry goes. -/
lemma clear_addEntries (m : EntryMap) (add : List ManifestEntry) :
    EntryMap.clear (addEntries m add) =
      (add.map ManifestEntry.clearDeletes).foldl upsert (EntryMap.clear m) := by
  induction add generalizing m with
  | nil => rfl
  | cons e add ih =>
    rw [addEntries_cons, ih, List.map_cons, List.foldl_cons]
    congr 1
    refine KeyedMap.ext fun k => ?_
    rw [EntryMap.get?_clear, get?_addEntry, upsert, KeyedMap.get?_insert, filePath_keepIndexes,
      ManifestEntry.filePath_clearDeletes, EntryMap.get?_clear, EntryMap.get?_clear]
    split_ifs with h
    · rw [h, Option.map_some, keepIndexes_clearDeletes]
    · rfl

lemma clear_eraseAll (m : EntryMap) (ps : List Path) :
    EntryMap.clear (m.eraseAll ps) = (EntryMap.clear m).eraseAll ps := by
  refine KeyedMap.ext fun k => ?_
  rw [EntryMap.get?_clear, KeyedMap.get?_eraseAll, KeyedMap.get?_eraseAll, EntryMap.get?_clear]
  split_ifs <;> rfl

lemma clear_view {t : TableModel} (h : EntryMap.clear t.entries = t.entries) :
    EntryMap.clear t.view = t.entries := by
  rw [← h]
  refine KeyedMap.ext fun k => ?_
  rw [EntryMap.get?_clear, TableModel.view, KeyedMap.get?_mapValues, Option.map_map,
    EntryMap.get?_clear]
  rfl

/-- Both layouts store the entries of the model. -/
lemma Written.ofList_eq {root : RootUri} {env : CommitEnv} {s s' : ManifestStore}
    {current : Manifest} {call : CommitCall} {es es' : List ManifestEntry} {t : TableModel}
    {listPath : Option ListName} (h : AttemptOk root s current es call.add)
    (hmap : KeyedMap.ofList es = t.entries)
    (hw : Written root env s current call es (t.view.eraseAll call.remove) s' listPath es') :
    KeyedMap.ofList es' = (call.add.map ManifestEntry.clearDeletes).foldl upsert
      (t.entries.eraseAll call.remove) := by
  have hclear : EntryMap.clear t.view = t.entries :=
    clear_view (by rw [← hmap]; exact clear_ofList h.listed.cleared)
  have hnew : EntryMap.clear (addEntries (t.view.eraseAll call.remove) call.add) =
      (call.add.map ManifestEntry.clearDeletes).foldl upsert (t.entries.eraseAll call.remove) := by
    rw [clear_addEntries, clear_eraseAll, hclear]
  by_cases hap : AppendsOnly s env current (t.view.eraseAll call.remove) call
  · obtain ⟨prev, -, hremove, hfresh, -⟩ | hnone :=
      appendBase_cases env call (t.view.eraseAll call.remove) h.listed
    · have hperm := hw.append hap
      rw [KeyedMap.ofList, KeyedMap.insertAll_perm hperm hw.listed.distinct,
        KeyedMap.insertAll_append, ← KeyedMap.ofList, hmap, hremove, KeyedMap.eraseAll_nil,
        ← addEntries_eq_foldl, addEntries_of_new]
      · intro e he
        obtain ⟨e', he', rfl⟩ := List.mem_map.1 he
        rw [ManifestEntry.filePath_clearDeletes, ← t.contains_view]
        simpa [hremove] using hfresh e' he'
      · simpa [Function.comp_def] using h.distinct
    · obtain ⟨prev, hprev⟩ := hap.2
      rw [hnone] at hprev
      cases hprev
  · rw [hw.rewrite hap, hnew]

/-! ### Steps and runs -/

/-- What the refinement needs of a call: normalised and distinct paths among the added entries. -/
structure CommitCall.WellFormed (root : RootUri) (call : CommitCall) : Prop where
  normalised : ∀ e ∈ call.add, Normalised root e.filePath
  distinct : (call.add.map ManifestEntry.filePath).Nodup

/-- A commit that does not create a version leaves the stored table as it was. -/
lemma Refines.of_versions_eq {root : RootUri} {w : World} {t : TableModel} (h : Refines root w t)
    {w' : World} (hext : w.store.Extends w'.store)
    (hs : w'.store.versions = w.store.versions) (hc : w'.caches.Coherent w'.store) :
    Refines root w' t where
  coherent := hc
  newest hm := by
    obtain ⟨hentries, hdel, hprops, hspec, es, hes, hmap⟩ := h.newest (hm.of_versions_eq hs.symm)
    exact ⟨hentries, hdel, hprops, hspec, es, hes.mono hext, hmap⟩

/-- The code and the model agree on whether a commit takes effect. -/
lemma effective_iff {root : RootUri} {current : Manifest} (ver : ℕ) (call : CommitCall)
    {es : List ManifestEntry} {t : TableModel} (hview : current.view root es = t.view)
    (hprops : current.properties = t.properties) :
    Effective root call current ver es ↔ t.Accepts call := by
  rw [Effective, rebase_isSome_iff, checkProperties_eq_ok, hview, hprops]
  simp only [TableModel.contains_view, ne_eq, TableModel.view_eq_empty, Bool.or_eq_true,
    decide_eq_true_eq]
  exact ⟨fun h => ⟨h.1.1, h.1.2, h.2⟩, fun h => ⟨⟨h.inputs, h.required⟩, h.embedding⟩⟩

/-- What a commit does to a table that stands for the model. -/
lemma Refines.effect {root : RootUri} {w : World} {t : TableModel} (h : Refines root w t)
    {call : CommitCall} (hcall : call.WellFormed root) :
    ∃ current ver es, AttemptOk root w.store current es call.add ∧
      current.deleteFiles = t.deletes ∧ current.properties = t.properties ∧
      current.partitionSpec = t.spec ∧ current.view root es = t.view ∧
      KeyedMap.ofList es = t.entries ∧
      (Effective root call current ver es ↔ t.Accepts call) ∧
      CommitEffect root call w current ver es := by
  obtain ⟨current, ver, w₀, hnewest, hw₀, hends⟩ :=
    (commitOp root call).run_ends call.expiry h.coherent (by simp [commitOp])
  obtain ⟨hentries, hdel, hprops, hspec, es, hes, hmap⟩ := h.newest hnewest
  have hview := view_eq hentries hdel hes hmap
  have hok : AttemptOk root w.store current es call.add :=
    ⟨hes, by simp [hentries], hcall.normalised, hcall.distinct⟩
  exact ⟨current, ver, es, hok, hdel, hprops, hspec, hview, hmap,
    effective_iff ver call hview hprops, commit_effect hw₀ hends hok⟩

/-- One commit: the model moves as the stored table does. -/
theorem Refines.commit {root : RootUri} {w : World} {t : TableModel} (h : Refines root w t)
    {call : CommitCall} (hcall : call.WellFormed root) (hnames : t.KeepsNames (t.commit call)) :
    Refines root (BenoStreamDB.commit root call w).2 (t.commit call) := by
  obtain ⟨current, ver, es, hok, hdel, hprops, hspec, hview, hmap, heff, heffect⟩ := h.effect hcall
  cases heffect with
  | unchanged ineffective eq failed ext versions coherent =>
    rw [TableModel.commit, if_neg (fun hacc => ineffective (heff.2 hacc)), eq]
    exact h.of_versions_eq ext versions coherent
  | created effective written manifest ext newest versions coherent eq =>
    rw [TableModel.commit, if_pos (heff.1 effective)] at hnames ⊢
    rw [eq]
    refine ⟨coherent, fun {m' v} hm' => ?_⟩
    obtain rfl := ManifestStore.Newest.eq_of_insert newest versions hm'
    subst manifest
    have hentries := Written.ofList_eq hok hmap (hview ▸ written)
    -- the manifest files are written with the old spec and will be read with the new one
    refine ⟨rfl, by rw [← hdel]; rfl, by rw [← hprops]; rfl, by rw [← hspec]; rfl, _,
      (written.listed.mono ext).renamed ?_, hentries⟩
    rw [TableModel.KeepsNames, ← hspec] at hnames
    rwa [hentries]

/-- A commit that removes nothing and returns `Ok` took effect. -/
lemma Refines.accepts_of_ok {root : RootUri} {w w' : World} {t : TableModel}
    (h : Refines root w t) {call : CommitCall} (hcall : call.WellFormed root)
    (hremove : call.remove = []) {m : Manifest}
    (hrun : BenoStreamDB.commit root call w = (.ok m, w')) : t.Accepts call := by
  obtain ⟨current, ver, es, -, -, -, -, -, -, heff, heffect⟩ := h.effect hcall
  cases heffect with
  | unchanged _ eq failed =>
    obtain ⟨e, rfl⟩ := failed hremove
    rw [hrun] at eq
    cases eq
  | created effective => exact heff.1 effective

/-- The commits of one client, one after the other. A refused call leaves an error behind, which
does not stop the run. -/
def runCommits (root : RootUri) (calls : List CommitCall) (w : World) : World :=
  calls.foldl (fun w call => (commit root call w).2) w

lemma Refines.runCommits {root : RootUri} {w : World} {t : TableModel} (h : Refines root w t)
    {calls : List CommitCall} (hcalls : ∀ call ∈ calls, call.WellFormed root)
    (hnames : t.AllKeepNames calls) :
    Refines root (BenoStreamDB.runCommits root calls w) (calls.foldl TableModel.commit t) := by
  induction calls generalizing w t with
  | nil => exact h
  | cons call calls ih =>
    exact ih (h.commit (hcalls call List.mem_cons_self) hnames.1)
      (fun c hc => hcalls c (List.mem_cons_of_mem call hc)) hnames.2

/-- A table that is partitioned by region, and two appends to the region `eu`, the second one with a
delete file. -/
def sampleAppends : List CommitCall :=
  [{ metadata.updatedPartitionSpecs :=
      some [⟨1, [⟨[1], some 1, some 1000, "region", "identity"⟩]⟩] },
   { add := [{ filePath := ['a'], recordCount := 2,
               partitionValues := Finmap.singleton "region" (.string "eu") }] },
   { add := [{ filePath := ['b'], recordCount := 1,
               partitionValues := Finmap.singleton "region" (.string "eu"),
               deleteFiles := [⟨['d'], .position, 1, 1,
                 Finmap.singleton "region" (.string "eu")⟩] }] }]

lemma allKeepNames_sampleAppends : TableModel.AllKeepNames {} sampleAppends := by
  refine ⟨.inr ?_, TableModel.keepsNames_commit _ rfl, TableModel.keepsNames_commit _ rfl, trivial⟩
  rw [TableModel.commit]
  split_ifs <;> rfl

/-- The fold that treats the delete list of an entry as a part of the entry. -/
def entryFold (calls : List CommitCall) : EntryMap :=
  calls.foldl (fun m call => call.add.foldl upsert (m.eraseAll call.remove)) ∅

end BenoStreamDB

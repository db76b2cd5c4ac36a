import BenoStreamDB.Manifest.Sequential

/-!
# Specification of a commit attempt

One equation for `commitAttempt` on a manifest whose entries are known (`commitAttempt_eq`), and
one for `commit` as a whole when no other client interferes (`commit_effect`).
-/

namespace BenoStreamDB

/-! ### Removing and adding -/

/-- The entry stored for `e` on top of an existing entry of the same path. -/
def keepIndexes (existing : Option ManifestEntry) (e : ManifestEntry) : ManifestEntry :=
  match existing with
  | some x =>
    if e.indexFiles.length < x.indexFiles.length then { e with indexFiles := x.indexFiles } else e
  | none => e

@[simp]
lemma filePath_keepIndexes (x : Option ManifestEntry) (e : ManifestEntry) :
    (keepIndexes x e).filePath = e.filePath := by
  cases x with
  | none => rfl
  | some x =>
    simp only [keepIndexes]
    split_ifs <;> rfl

lemma addEntry_eq (active : EntryMap) (e : ManifestEntry) :
    addEntry active e = active.insert (keepIndexes (active.get? e.filePath) e) := by
  unfold addEntry keepIndexes
  cases active.get? e.filePath with
  | none => rfl
  | some x =>
    simp only
    split_ifs <;> rfl

lemma get?_addEntry (active : EntryMap) (e : ManifestEntry) (k : Path) :
    (addEntry active e).get? k =
      if e.filePath = k then some (keepIndexes (active.get? k) e) else active.get? k := by
  rw [addEntry_eq, KeyedMap.get?_insert, filePath_keepIndexes]
  split_ifs with h
  · rw [h]
  · rfl

@[simp]
lemma addEntries_nil (active : EntryMap) : addEntries active [] = active := rfl

@[simp]
lemma addEntries_cons (active : EntryMap) (e : ManifestEntry) (add : List ManifestEntry) :
    addEntries active (e :: add) = addEntries (addEntry active e) add := rfl

lemma contains_addEntries (active : EntryMap) (add : List ManifestEntry) (k : Path) :
    (addEntries active add).contains k = true ↔
      k ∈ add.map ManifestEntry.filePath ∨ active.contains k = true := by
  induction add generalizing active with
  | nil => simp
  | cons e add ih =>
    rw [addEntries_cons, ih, KeyedMap.contains, get?_addEntry, List.map_cons, List.mem_cons]
    by_cases h : e.filePath = k
    · simp [h]
    · simp [h, Ne.symm h, KeyedMap.contains]

/-- Adding entries under new and distinct paths is inserting them. -/
lemma addEntries_of_new {active : EntryMap} {add : List ManifestEntry}
    (hnew : ∀ e ∈ add, active.contains e.filePath = false)
    (hdistinct : (add.map ManifestEntry.filePath).Nodup) :
    addEntries active add = active.insertAll add := by
  induction add generalizing active with
  | nil => rfl
  | cons e add ih =>
    rw [List.map_cons, List.nodup_cons] at hdistinct
    have hnone : active.get? e.filePath = none :=
      KeyedMap.not_contains_iff.1 (hnew e List.mem_cons_self)
    rw [addEntries_cons, addEntry_eq, hnone, KeyedMap.insertAll_cons]
    refine ih (fun e' he' => ?_) hdistinct.2
    have hne : e.filePath ≠ e'.filePath := fun h =>
      hdistinct.1 (h ▸ List.mem_map_of_mem he')
    rw [KeyedMap.not_contains_iff, KeyedMap.get?_insert_of_ne _ (by simpa using hne)]
    exact KeyedMap.not_contains_iff.1 (hnew e' (List.mem_cons_of_mem e he'))

lemma removePaths_eq_ok {md : CommitMetadata} {ver : ℕ} {active active' : EntryMap}
    {ps : List Path} (h : removePaths md ver active ps = .ok active') :
    active' = active.eraseAll ps := by
  induction ps generalizing active with
  | nil =>
    cases h
    rfl
  | cons p ps ih =>
    unfold removePaths at h
    split_ifs at h
    exact ih h

lemma rebase_eq_some {md : CommitMetadata} {ver : ℕ} {all active : EntryMap} {ps : List Path}
    (h : rebase md ver all ps = .ok (some active)) : active = all.eraseAll ps := by
  unfold rebase at h
  split_ifs at h
  · cases h
  · cases hr : removePaths md ver all ps with
    | error e => simp [hr] at h
    | ok m =>
      simp only [hr, Except.ok.injEq, Option.some.injEq] at h
      exact h ▸ removePaths_eq_ok hr

/-! ### The raw entries of a map -/

/-- The map without delete lists, as manifest files store it. -/
def EntryMap.clear (m : EntryMap) : EntryMap :=
  m.mapValues ManifestEntry.clearDeletes fun _ => rfl

lemma EntryMap.get?_clear (m : EntryMap) (k : Path) :
    KeyedMap.get? (EntryMap.clear m) k = (KeyedMap.get? m k).map ManifestEntry.clearDeletes :=
  KeyedMap.get?_mapValues _ _ _ _

/-! ### Views -/

namespace Manifest

variable {root : RootUri} {m : Manifest} {es : List ManifestEntry}

lemma contains_attachDeletes (ds : List DeleteFile) (map : EntryMap) (k : Path) :
    KeyedMap.contains (attachDeletes ds map) k = KeyedMap.contains map k := by
  unfold attachDeletes
  split_ifs
  · rfl
  · simp [KeyedMap.contains, KeyedMap.get?_mapValues]

lemma contains_view (k : Path) : (m.view root es).contains k = true ↔
    k ∈ m.entries.map (fun e => relativizeFilePath root.uri e.filePath) ∨
      k ∈ es.map ManifestEntry.filePath := by
  rw [view, contains_attachDeletes, KeyedMap.contains_insertAll, KeyedMap.ofList,
    KeyedMap.contains_insertAll]
  simp [relativizeEntry, Function.comp_def, KeyedMap.contains]

/-- Every path of a view is normalised. -/
lemma normalised_of_contains_view {s : ManifestStore} {spec : PartitionSpec}
    (h : Listed root spec s m.manifestListPath es)
    (hin : ∀ e ∈ m.entries, Normalised root (relativizeFilePath root.uri e.filePath)) {k : Path}
    (hk : (m.view root es).contains k = true) : Normalised root k := by
  rcases (contains_view k).1 hk with hk | hk
  · obtain ⟨e, he, rfl⟩ := List.mem_map.1 hk
    exact hin e he
  · obtain ⟨e, he, rfl⟩ := List.mem_map.1 hk
    exact h.normalised e he

end Manifest

/-! ### An attempt -/

/-- The attempt takes the append-only fast path. -/
def AppendsOnly (s : ManifestStore) (env : CommitEnv) (current : Manifest) (active : EntryMap)
    (call : CommitCall) : Prop :=
  call.add ≠ [] ∧ ∃ prev, appendBase s env current active call.add call.remove = .ok (some prev)

section Attempt

variable {root : RootUri} {env : CommitEnv} {s : ManifestStore} {current : Manifest}
  {currentVer : ℕ} {call : CommitCall} {es : List ManifestEntry} {active : EntryMap}

lemma appendBase_cases (env : CommitEnv) (call : CommitCall) (active : EntryMap)
    (hL : Listed root current.partitionSpec s current.manifestListPath es) :
    (∃ prev, appendBase s env current active call.add call.remove = .ok (some prev) ∧
      call.remove = [] ∧ (∀ e ∈ call.add, active.contains e.filePath = false) ∧
      s.loadManifestFiles root.uri current.partitionSpec (prev.filter (·.content = .data)) =
        .ok es ∧ ∀ f ∈ prev, s.HasFile f) ∨
    appendBase s env current active call.add call.remove = .ok none := by
  obtain ⟨fs, hlist, hnone, hload, hfiles⟩ := hL.files
  have hfilter := ManifestStore.loadManifestFiles_filter (p := (·.content = .data)) hload
    (fun f hf hc => (hfiles f hf).loadManifestFile_deletes (by cases hcf : f.content <;> simp_all))
  unfold appendBase
  by_cases hcond : call.remove = [] ∧ ∀ e ∈ call.add, active.contains e.filePath = false
  · rw [if_pos hcond]
    cases hpath : current.manifestListPath with
    | none =>
      rw [hnone hpath] at hfilter
      exact .inl ⟨[], rfl, hcond.1, hcond.2, hfilter, by simp⟩
    | some n =>
      simp only [ManifestStore.loadManifestList, hlist n hpath, bind, Except.bind, pure,
        Except.pure]
      split_ifs
      · exact .inr rfl
      · exact .inl ⟨fs, rfl, hcond.1, hcond.2, hfilter, hfiles⟩
  · rw [if_neg hcond]
    exact .inr rfl

/-- The hypotheses under which an attempt is specified: the current manifest list stands for
`es`, and every path around is normalised. -/
structure AttemptOk (root : RootUri) (s : ManifestStore) (current : Manifest)
    (es add : List ManifestEntry) : Prop where
  listed : Listed root current.partitionSpec s current.manifestListPath es
  inline : ∀ e ∈ current.entries, Normalised root (relativizeFilePath root.uri e.filePath)
  added : ∀ e ∈ add, Normalised root e.filePath
  distinct : (add.map ManifestEntry.filePath).Nodup

lemma normalised_addEntries (h : AttemptOk root s current es call.add)
    (hactive : ∀ k, active.contains k = true → (current.view root es).contains k = true) {k : Path}
    (hk : (addEntries active call.add).contains k = true) : Normalised root k := by
  rcases (contains_addEntries active call.add k).1 hk with hk | hk
  · obtain ⟨e, he, rfl⟩ := List.mem_map.1 hk
    exact h.added e he
  · exact Manifest.normalised_of_contains_view h.listed h.inline (hactive k hk)

/-- The full rewrite stores the new map, each entry once. -/
lemma listed_rewrite (h : AttemptOk root s current es call.add)
    (hactive : ∀ k, active.contains k = true → (current.view root es).contains k = true)
    (newVer : ℕ) (deletes : List DeleteFile) :
    ∃ es', Listed root current.partitionSpec
        (s.writeSnapshot root env current newVer [] (env.values (addEntries active call.add))
          deletes).1
        (s.writeSnapshot root env current newVer [] (env.values (addEntries active call.add))
          deletes).2 es' ∧
      (KeyedMap.ofList es' : EntryMap) = EntryMap.clear (addEntries active call.add) := by
  have hcoe := env.coe_values (addEntries active call.add)
  have hnil : s.loadManifestFiles root.uri current.partitionSpec [] = .ok [] := rfl
  obtain ⟨es', hlisted, hperm⟩ := ManifestStore.listed_writeSnapshot env current newVer
    (env.values (addEntries active call.add)) deletes hnil (by simp)
    (KeyedMap.nodup_map_key_of_coe hcoe) (fun e he => normalised_addEntries h hactive
      (KeyedMap.contains_iff.2 ⟨e, (KeyedMap.mem_of_coe hcoe).1 he⟩)) (by simp)
  refine ⟨es', hlisted, ?_⟩
  rw [KeyedMap.ofList, KeyedMap.insertAll_perm hperm hlisted.distinct]
  exact KeyedMap.ofList_map_of_coe _ _ hcoe

/-- The fast path stores the listed entries and the added ones. -/
lemma listed_append (h : AttemptOk root s current es call.add) {prev : List ManifestListEntry}
    (hprev : s.loadManifestFiles root.uri current.partitionSpec
      (prev.filter (·.content = .data)) = .ok es) (hfiles : ∀ f ∈ prev, s.HasFile f)
    (hnew : ∀ e ∈ call.add, (current.view root es).contains e.filePath = false)
    (newVer : ℕ) (deletes : List DeleteFile) :
    ∃ es', Listed root current.partitionSpec
        (s.writeSnapshot root env current newVer (prev.filter (·.content = .data)) call.add
          deletes).1
        (s.writeSnapshot root env current newVer (prev.filter (·.content = .data)) call.add
          deletes).2 es' ∧
      es'.Perm (es ++ call.add.map ManifestEntry.clearDeletes) := by
  refine ManifestStore.listed_writeSnapshot env current newVer call.add deletes hprev ?_ ?_ ?_
    h.listed.cleared
  · exact fun f hf => hfiles f (List.mem_filter.1 hf).1
  · rw [List.map_append, List.nodup_append]
    refine ⟨h.listed.distinct, h.distinct, fun p hp q hq hpq => ?_⟩
    obtain ⟨e, he, rfl⟩ := List.mem_map.1 hq
    have hcontains : (current.view root es).contains e.filePath = true :=
      (Manifest.contains_view _).2 (.inr (hpq ▸ hp))
    rw [hnew e he] at hcontains
    cases hcontains
  · intro e he
    rcases List.mem_append.1 he with he | he
    · exact h.listed.normalised e he
    · exact h.added e he

/-- What an attempt writes when it is neither refused nor discarded: the new manifest list stands,
under the spec of the current manifest, for `es'`, which on the fast path is the listed entries and
the added ones, and else the whole new map. -/
structure Written (root : RootUri) (env : CommitEnv) (s : ManifestStore) (current : Manifest)
    (call : CommitCall) (es : List ManifestEntry) (active : EntryMap) (s' : ManifestStore)
    (listPath : Option ListName) (es' : List ManifestEntry) : Prop where
  ext : s.Extends s'
  versions : s'.versions = s.versions
  listed : Listed root current.partitionSpec s' listPath es'
  append : AppendsOnly s env current active call →
    es'.Perm (es ++ call.add.map ManifestEntry.clearDeletes)
  rewrite : ¬ AppendsOnly s env current active call →
    (KeyedMap.ofList es' : EntryMap) = EntryMap.clear (addEntries active call.add)

lemma addEntries_eq_empty (hempty : addEntries active call.add = ∅) : call.add = [] := by
  by_contra hne
  obtain ⟨e, add, hadd⟩ := List.exists_cons_of_ne_nil hne
  have hcontains : (addEntries active call.add).contains e.filePath = true :=
    (contains_addEntries _ _ _).2 (.inl (by simp [hadd]))
  rw [hempty] at hcontains
  simp [KeyedMap.contains] at hcontains

lemma written_writeManifests (h : AttemptOk root s current es call.add)
    (hactive : active = (current.view root es).eraseAll call.remove) (newVer : ℕ)
    (deletes : List DeleteFile) {append : Option (List ManifestListEntry)}
    (happend : appendBase s env current active call.add call.remove = .ok append) :
    ∃ es', Written root env s current call es active
      (s.writeManifests root env current newVer call.add
        (env.values (addEntries active call.add)) append deletes).1
      (s.writeManifests root env current newVer call.add
        (env.values (addEntries active call.add)) append deletes).2 es' := by
  have hsub : ∀ k, active.contains k = true → (current.view root es).contains k = true := by
    intro k hk
    rw [hactive, KeyedMap.contains, KeyedMap.get?_eraseAll] at hk
    split_ifs at hk
    · cases hk
    · exact hk
  have hcoe := env.coe_values (addEntries active call.add)
  by_cases hnil : env.values (addEntries active call.add) = []
  · have hempty : addEntries active call.add = ∅ := by
      rw [hnil] at hcoe
      exact (KeyedMap.ofList_of_coe hcoe).symm
    have hadd := addEntries_eq_empty hempty
    refine ⟨[], ManifestStore.extends_writeManifests, ManifestStore.versions_writeManifests, ?_,
      fun hap => absurd hadd hap.1, fun _ => ?_⟩
    · simpa [ManifestStore.writeManifests, hnil] using Listed.empty root _ s
    · rw [hempty]
      exact KeyedMap.ext fun k => by rw [EntryMap.get?_clear]; rfl
  · by_cases hap : AppendsOnly s env current active call
    · obtain ⟨prev, happ, hremove, hnew, hprev, hfiles⟩ | hnone :=
        appendBase_cases env call active h.listed
      · rw [happend] at happ
        cases happ
        have hview : active = current.view root es := by rw [hactive, hremove]; rfl
        obtain ⟨es', hlisted, hperm⟩ := listed_append h hprev hfiles (hview ▸ hnew) newVer deletes
        refine ⟨es', ManifestStore.extends_writeManifests, ManifestStore.versions_writeManifests,
          ?_, fun _ => hperm, fun hn => absurd hap hn⟩
        simpa [ManifestStore.writeManifests, hnil, hap.1] using hlisted
      · obtain ⟨prev, hprev⟩ := hap.2
        rw [hnone] at hprev
        cases hprev
    · obtain ⟨es', hlisted, hmap⟩ := listed_rewrite h hsub newVer deletes
      refine ⟨es', ManifestStore.extends_writeManifests, ManifestStore.versions_writeManifests,
        ?_, fun hn => absurd hn hap, fun _ => hmap⟩
      cases append with
      | none => simpa [ManifestStore.writeManifests, hnil] using hlisted
      | some prev =>
        have hadd : call.add = [] := by
          by_contra hne
          exact hap ⟨hne, prev, happend⟩
        simp only [ManifestStore.writeManifests, if_neg hnil, if_pos hadd]
        exact hlisted

/-- An attempt, given that it is neither refused nor discarded. -/
lemma commitAttempt_eq (h : AttemptOk root s current es call.add)
    (hrebase : rebase call.metadata currentVer (current.view root es) call.remove =
      .ok (some active)) :
    ∃ s' listPath es', Written root env s current call es active s' listPath es' ∧
      commitAttempt root env s current currentVer call =
        (proposeIfKept (checkProperties current.properties call.metadata
            (decide (current.view root es ≠ ∅) || decide (call.add ≠ [])))
          (newManifest env.nowMs current currentVer call.metadata
            (globalDeleteFiles current.deleteFiles call.add) listPath), s') := by
  obtain ⟨append, happend⟩ : ∃ append,
      appendBase s env current active call.add call.remove = .ok append := by
    obtain ⟨prev, hprev, -⟩ | hnone := appendBase_cases env call active h.listed
    · exact ⟨_, hprev⟩
    · exact ⟨_, hnone⟩
  obtain ⟨es', hwritten⟩ := written_writeManifests h (rebase_eq_some hrebase) (currentVer + 1)
    (globalDeleteFiles current.deleteFiles call.add) happend
  refine ⟨_, _, es', hwritten, ?_⟩
  simp only [commitAttempt, h.listed.loadAllEntries, hrebase, happend]

/-- An attempt that is refused or discarded writes nothing. -/
lemma commitAttempt_of_rebase (h : AttemptOk root s current es call.add) :
    (∀ e, rebase call.metadata currentVer (current.view root es) call.remove = .error e →
      commitAttempt root env s current currentVer call = (.error e, s)) ∧
    (rebase call.metadata currentVer (current.view root es) call.remove = .ok none →
      commitAttempt root env s current currentVer call = (.ok none, s)) := by
  refine ⟨fun e he => ?_, fun hnone => ?_⟩
  · simp only [commitAttempt, h.listed.loadAllEntries, he]
  · simp only [commitAttempt, h.listed.loadAllEntries, hnone]

end Attempt

/-! ### Commits without interference -/

/-- The commit is neither refused nor discarded on the manifest `current`. -/
def Effective (root : RootUri) (call : CommitCall) (current : Manifest) (currentVer : ℕ)
    (es : List ManifestEntry) : Prop :=
  rebase call.metadata currentVer (current.view root es) call.remove =
      .ok (some ((current.view root es).eraseAll call.remove)) ∧
    checkProperties current.properties call.metadata
      (decide (current.view root es ≠ ∅) || decide (call.add ≠ [])) = .ok ()

/-- The effect of a single client's commit on a table whose entries are known. -/
inductive CommitEffect (root : RootUri) (call : CommitCall) (w : World) (current : Manifest)
    (currentVer : ℕ) (es : List ManifestEntry) : Prop
  | unchanged {r w'}
      (ineffective : ¬ Effective root call current currentVer es)
      (eq : commit root call w = (r, w'))
      (failed : call.remove = [] → ∃ e, r = .error e)
      (ext : w.store.Extends w'.store)
      (versions : w'.store.versions = w.store.versions)
      (coherent : w'.caches.Coherent w'.store)
  | created {m s' w' listPath es'}
      (effective : Effective root call current currentVer es)
      (written : Written root (call.env 0) w.store current call es
        ((current.view root es).eraseAll call.remove) s' listPath es')
      (manifest : m = newManifest (call.env 0).nowMs current currentVer call.metadata
        (globalDeleteFiles current.deleteFiles call.add) listPath)
      (ext : s'.Extends w'.store)
      (newest : w'.store.maxVersion = currentVer + 1)
      (versions : w'.store.versions = w.store.versions.insert (currentVer + 1) m)
      (coherent : w'.caches.Coherent w'.store)
      (eq : commit root call w = (.ok m, w'))

/-- A proposal that is neither refused nor discarded. -/
lemma commitAttempt_effective {root : RootUri} {env : CommitEnv} {s : ManifestStore}
    {current : Manifest} {currentVer : ℕ} {call : CommitCall} {es : List ManifestEntry}
    (hok : AttemptOk root s current es call.add)
    (heff : Effective root call current currentVer es) :
    ∃ s' listPath es', Written root env s current call es
        ((current.view root es).eraseAll call.remove) s' listPath es' ∧
      commitAttempt root env s current currentVer call =
        (.ok (some (newManifest env.nowMs current currentVer call.metadata
          (globalDeleteFiles current.deleteFiles call.add) listPath)), s') := by
  obtain ⟨s', listPath, es', hw, hattempt⟩ := commitAttempt_eq hok heff.1
  rw [heff.2] at hattempt
  exact ⟨s', listPath, es', hw, hattempt⟩

lemma commitAttempt_ineffective {root : RootUri} {env : CommitEnv} {s : ManifestStore}
    {current : Manifest} {currentVer : ℕ} {call : CommitCall} {es : List ManifestEntry}
    (hok : AttemptOk root s current es call.add)
    (hineff : ¬ Effective root call current currentVer es) (m : Manifest) :
    (commitAttempt root env s current currentVer call).1 ≠ .ok (some m) := by
  obtain ⟨herr, hnone⟩ := @commitAttempt_of_rebase root env s current currentVer call es hok
  cases hr : rebase call.metadata currentVer (current.view root es) call.remove with
  | error e => simp [herr e hr]
  | ok active =>
    cases active with
    | none => simp [hnone hr]
    | some active =>
      obtain rfl := rebase_eq_some hr
      obtain ⟨s', listPath, es', -, hattempt⟩ := @commitAttempt_eq _ env _ _ _ _ _ _ hok hr
      cases hcheck : checkProperties current.properties call.metadata
          (decide (current.view root es ≠ ∅) || decide (call.add ≠ [])) with
      | ok u => exact absurd ⟨hr, hcheck⟩ hineff
      | error e =>
        rw [hattempt, hcheck]
        simp [proposeIfKept]

/-- Only a compaction is discarded, and only if it removes something. -/
lemma commitAttempt_eq_none {root : RootUri} {env : CommitEnv} {s : ManifestStore}
    {current : Manifest} {currentVer : ℕ} {call : CommitCall}
    (h : (commitAttempt root env s current currentVer call).1 = .ok none) :
    call.metadata.discardAddOnMissingRemove = true ∧ call.remove ≠ [] := by
  unfold commitAttempt at h
  cases hload : s.loadAllEntries root.uri env.loads current with
  | error e => simp [hload] at h
  | ok all =>
    simp only [hload] at h
    cases hr : rebase call.metadata currentVer all call.remove with
    | error e => simp [hr] at h
    | ok active =>
      cases active with
      | none =>
        unfold rebase at hr
        split_ifs at hr with hdiscard
        · obtain ⟨hd, p, hp, -⟩ := hdiscard
          exact ⟨hd, List.ne_nil_of_mem hp⟩
        · cases hrm : removePaths call.metadata currentVer all call.remove <;> simp [hrm] at hr
      | some active =>
        simp only [hr] at h
        cases ha : appendBase s env current active call.add call.remove with
        | error e => simp [ha] at h
        | ok append =>
          simp only [ha, proposeIfKept] at h
          split at h <;> cases h

lemma commit_effect {root : RootUri} {call : CommitCall} {w w₀ : World} {current : Manifest}
    {currentVer : ℕ} {es : List ManifestEntry} (hw₀ : w₀.store = w.store)
    (h : (commitOp root call).Ends call.expiry w w₀ current currentVer)
    (hok : AttemptOk root w.store current es call.add) :
    CommitEffect root call w current currentVer es := by
  rw [← hw₀] at hok
  have hprep := (commitOp root call).prepares 0 w₀ current currentVer
  cases h with
  | refused proposed coherent eq =>
    rw [proposed] at hprep
    refine .unchanged (fun heff => ?_) eq (fun _ => ⟨_, rfl⟩) (hw₀ ▸ hprep.ext)
      (hw₀ ▸ hprep.versions) coherent
    obtain ⟨s', listPath, es', -, hattempt⟩ := @commitAttempt_effective _ (call.env 0) _ _ _ _ _
      hok heff
    simp [commitOp, hattempt] at proposed
  | returned proposed coherent eq =>
    rw [proposed] at hprep
    refine .unchanged (fun heff => ?_) eq (fun hremove => ?_) (hw₀ ▸ hprep.ext)
      (hw₀ ▸ hprep.versions) coherent
    · obtain ⟨s', listPath, es', -, hattempt⟩ := @commitAttempt_effective _ (call.env 0) _ _ _ _ _
        hok heff
      simp [commitOp, hattempt] at proposed
    · simp only [commitOp, Prod.mk.injEq] at proposed
      exact absurd hremove (commitAttempt_eq_none proposed.1).2
  | created proposed ext newest versions coherent eq =>
    by_cases heff : Effective root call current currentVer es
    · obtain ⟨s', listPath, es', hw, hattempt⟩ := @commitAttempt_effective _ (call.env 0) _ _ _ _ _
        hok heff
      simp only [commitOp, hattempt, Prod.mk.injEq, Except.ok.injEq, Option.some.injEq] at proposed
      obtain ⟨rfl, rfl⟩ := proposed
      rw [hw₀] at hw
      exact .created heff hw rfl ext newest versions coherent eq
    · have hne := @commitAttempt_ineffective _ (call.env 0) _ _ _ _ _ hok heff
      simp only [commitOp, Prod.mk.injEq] at proposed
      exact absurd proposed.1 (hne _)

end BenoStreamDB

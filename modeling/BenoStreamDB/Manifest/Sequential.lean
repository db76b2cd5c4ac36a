import BenoStreamDB.Manifest.Representation

/-!
# Calls by a single client

When one client at a time works on a table, the caches never hold anything but what the store
holds, and the first attempt of a commit succeeds.
-/

namespace BenoStreamDB

namespace ManifestStore

/-- `m` and `v` are what a load of the newest version may return. For a table without any version
`load_latest` and `load_latest_direct` return different empty manifests. -/
inductive Newest (s : ManifestStore) : Manifest → ℕ → Prop
  | version {m} (h : s.versions.lookup s.maxVersion = some m) : Newest s m s.maxVersion
  | genesis {m} (h : s.versions = ∅) (hm : m = {} ∨ ∃ nowMs, m = Manifest.new nowMs 0 [] none) :
      Newest s m 0

lemma le_maxVersion {s : ManifestStore} {v : ℕ} (h : v ∈ s.versions) : v ≤ s.maxVersion :=
  Finset.le_sup (f := id) (Finmap.mem_keys.2 h)

lemma maxVersion_mem {s : ManifestStore} (h : s.versions ≠ ∅) : s.maxVersion ∈ s.versions := by
  have hne : s.versions.keys.Nonempty := by
    by_contra hempty
    refine h (Finmap.ext_lookup fun v => ?_)
    rw [Finmap.lookup_empty, Finmap.lookup_eq_none, ← Finmap.mem_keys,
      Finset.not_nonempty_iff_eq_empty.1 hempty]
    exact Finset.notMem_empty v
  obtain ⟨v, hv, heq⟩ := Finset.exists_mem_eq_sup s.versions.keys hne id
  rw [maxVersion, heq]
  exact Finmap.mem_keys.1 hv

lemma maxVersion_eq_zero {s : ManifestStore} (h : s.versions = ∅) : s.maxVersion = 0 := by
  simp [maxVersion, h]

lemma Newest.eq_maxVersion {s : ManifestStore} {m : Manifest} {v : ℕ} (h : s.Newest m v) :
    v = s.maxVersion := by
  cases h with
  | version => rfl
  | genesis h => exact (maxVersion_eq_zero h).symm

lemma Newest.of_versions_eq {s s' : ManifestStore} {m : Manifest} {v : ℕ} (h : s.Newest m v)
    (hs : s'.versions = s.versions) : s'.Newest m v := by
  have hmax : s.maxVersion = s'.maxVersion := by simp [maxVersion, hs]
  cases h with
  | version h =>
    rw [hmax]
    exact .version (by rw [hs, ← hmax, h])
  | genesis h hm => exact .genesis (hs.trans h) hm

/-- What two loads of the newest version return differs at most in the time stamp of an empty
table. -/
lemma Newest.entries_eq {s : ManifestStore} {m m' : Manifest} {v v' : ℕ} (h : s.Newest m v)
    (h' : s.Newest m' v') : m.manifestListPath = m'.manifestListPath ∧ m.entries = m'.entries ∧
      m.deleteFiles = m'.deleteFiles ∧ m.partitionSpec = m'.partitionSpec := by
  cases h with
  | version h =>
    cases h' with
    | version h' =>
      rw [h] at h'
      cases h'
      exact ⟨rfl, rfl, rfl, rfl⟩
    | genesis hempty =>
      rw [hempty] at h
      cases h
  | genesis hempty hm =>
    cases h' with
    | version h' =>
      rw [hempty] at h'
      cases h'
    | genesis _ hm' =>
      rcases hm with rfl | ⟨nowMs, rfl⟩ <;> rcases hm' with rfl | ⟨nowMs', rfl⟩ <;>
        exact ⟨rfl, rfl, rfl, rfl⟩

/-- The version just created is the newest one. -/
lemma Newest.eq_of_insert {s s' : ManifestStore} {m m' : Manifest} {v w : ℕ}
    (hmax : s'.maxVersion = v + 1) (hs : s'.versions = s.versions.insert (v + 1) m)
    (h : s'.Newest m' w) : m' = m := by
  have hmem : v + 1 ∈ s'.versions := hs ▸ Finmap.mem_insert.2 (.inl rfl)
  cases h with
  | version h =>
    rw [hmax, hs, Finmap.lookup_insert] at h
    exact (Option.some.inj h).symm
  | genesis h =>
    rw [h] at hmem
    exact absurd hmem Finmap.notMem_empty

lemma newest_loadLatestDirect (s : ManifestStore) :
    s.Newest s.loadLatestDirect.1 s.loadLatestDirect.2 := by
  unfold loadLatestDirect
  cases h : s.versions.lookup s.maxVersion with
  | some m => exact .version h
  | none =>
    refine .genesis ?_ (.inl rfl)
    by_contra hne
    exact Finmap.lookup_eq_none.1 h (maxVersion_mem hne)

lemma succ_maxVersion_notMem (s : ManifestStore) : s.maxVersion + 1 ∉ s.versions := fun h =>
  absurd (le_maxVersion h) (by omega)

/-- Creating the successor of the newest version succeeds, and makes it the newest one. -/
lemma createNext_maxVersion (s : ManifestStore) (m : Manifest) :
    ∃ s', s.createNext s.maxVersion m = some s' ∧ s.Extends s' ∧
      s'.maxVersion = s.maxVersion + 1 ∧ s'.versions = s.versions.insert (s.maxVersion + 1) m := by
  obtain ⟨s', hs'⟩ : ∃ s', s.createNext s.maxVersion m = some s' := by
    simp [createNext, succ_maxVersion_notMem]
  obtain ⟨-, hversions, -⟩ := createNext_eq_some hs'
  refine ⟨s', hs', extends_createNext hs', ?_, hversions⟩
  apply le_antisymm
  · refine Finset.sup_le fun v hv => ?_
    rw [hversions, Finmap.mem_keys, Finmap.mem_insert] at hv
    rcases hv with rfl | hv
    · exact le_rfl
    · exact (le_maxVersion hv).trans (Nat.le_succ _)
  · exact le_maxVersion (hversions ▸ Finmap.mem_insert.2 (.inl rfl))

lemma maxVersion_pos {s : ManifestStore} (h : s.versions ≠ ∅) : 0 < s.maxVersion :=
  s.versions_pos _ (maxVersion_mem h)

end ManifestStore

/-! ### Coherent caches -/

/-- The caches hold nothing but what the store holds. -/
structure Caches.Coherent (c : Caches) (s : ManifestStore) : Prop where
  latest : ∀ v, c.latestVersion = some v → v = s.maxVersion ∧ s.versions ≠ ∅
  manifests : ∀ v m, c.manifests.lookup v = some m → s.versions.lookup v = some m

namespace Caches.Coherent

variable {c : Caches} {s : ManifestStore}

lemma empty (s : ManifestStore) : ({} : Caches).Coherent s :=
  ⟨by simp, by simp⟩

lemma expire (h : c.Coherent s) (x : Expiry) : (c.expire x).Coherent s where
  latest v hv := by
    simp only [Caches.expire] at hv
    split_ifs at hv
    exact h.latest v hv
  manifests v m hm := h.manifests v m (Caches.lookup_expire hm)

/-- A load through coherent caches returns what is stored and keeps them coherent. -/
lemma loadVersion (h : c.Coherent s) {v : ℕ} {m : Manifest} (hm : s.versions.lookup v = some m) :
    ∃ c', s.loadVersion c v = (.ok m, c') ∧ c'.Coherent s ∧
      c'.latestVersion = c.latestVersion := by
  unfold ManifestStore.loadVersion
  cases hc : c.manifests.lookup v with
  | some m' =>
    have heq := h.manifests v m' hc
    rw [hm] at heq
    cases heq
    exact ⟨c, rfl, h, rfl⟩
  | none =>
    rw [hm]
    refine ⟨_, rfl, ⟨h.latest, fun k m' hk => ?_⟩, rfl⟩
    by_cases hkv : k = v
    · subst hkv
      rw [Finmap.lookup_insert] at hk
      rwa [← hk]
    · rw [Finmap.lookup_insert_of_ne _ hkv] at hk
      exact h.manifests k m' hk

lemma loadLatestListed (h : c.Coherent s) (nowMs : ℤ) :
    ∃ m v c', s.loadLatestListed c nowMs = (.ok (m, v), c') ∧ s.Newest m v ∧ c'.Coherent s := by
  unfold ManifestStore.loadLatestListed
  by_cases hv : s.versions = ∅
  · rw [ManifestStore.maxVersion_eq_zero hv]
    exact ⟨_, _, c, rfl, .genesis hv (.inr ⟨nowMs, rfl⟩), h⟩
  · obtain ⟨m, hm⟩ := Finmap.mem_iff.1 (ManifestStore.maxVersion_mem hv)
    have h' : ({ c with latestVersion := some s.maxVersion } : Caches).Coherent s :=
      ⟨by rintro v ⟨⟩; exact ⟨rfl, hv⟩, h.manifests⟩
    obtain ⟨c', hload, hc', -⟩ := h'.loadVersion hm
    rw [if_pos (ManifestStore.maxVersion_pos hv)]
    simp only [hload]
    exact ⟨m, s.maxVersion, c', rfl, .version hm, hc'⟩

lemma loadLatest (h : c.Coherent s) (nowMs : ℤ) :
    ∃ m v c', s.loadLatest c nowMs = (.ok (m, v), c') ∧ s.Newest m v ∧ c'.Coherent s := by
  unfold ManifestStore.loadLatest
  cases hc : c.latestVersion with
  | none => exact h.loadLatestListed nowMs
  | some v =>
    obtain ⟨rfl, hv⟩ := h.latest v hc
    obtain ⟨m, hm⟩ := Finmap.mem_iff.1 (ManifestStore.maxVersion_mem hv)
    obtain ⟨c', hload, hc', -⟩ := h.loadVersion hm
    simp only [hload]
    exact ⟨m, s.maxVersion, c', rfl, .version hm, hc'⟩

/-- Caches stay coherent when other objects are written. -/
lemma of_versions_eq (h : c.Coherent s) {s' : ManifestStore} (hs : s'.versions = s.versions) :
    c.Coherent s' where
  latest v hv := by
    obtain ⟨rfl, hne⟩ := h.latest v hv
    exact ⟨by simp [ManifestStore.maxVersion, hs], hs ▸ hne⟩
  manifests v m hm := hs ▸ h.manifests v m hm

lemma of_prepares {w w' : World} (h : w.caches.Coherent w.store) (hp : w.Prepares w') :
    w'.caches.Coherent w'.store where
  latest v hv := by
    rw [hp.latest] at hv
    exact (h.of_versions_eq hp.versions).latest v hv
  manifests v m hm := by
    rw [hp.versions]
    rcases hp.cached hm with hm | hm
    · exact h.manifests v m hm
    · exact hm

/-- The caches after the client itself created the next version. -/
lemma insert (h : c.Coherent s) {m : Manifest} {s' : ManifestStore}
    (hmax : s'.maxVersion = s.maxVersion + 1)
    (hs : s'.versions = s.versions.insert (s.maxVersion + 1) m) {l : Option ℕ}
    (hl : ∀ v, l = some v → v = s.maxVersion + 1) :
    Caches.Coherent ⟨l, c.manifests.insert (s.maxVersion + 1) m⟩ s' where
  latest v hv := by
    refine ⟨(hl v hv).trans hmax.symm, fun hempty => ?_⟩
    have hmem : s.maxVersion + 1 ∈ s'.versions := hs ▸ Finmap.mem_insert.2 (.inl rfl)
    rw [hempty] at hmem
    exact Finmap.notMem_empty hmem
  manifests v m' hv := by
    rw [hs]
    by_cases hne : v = s.maxVersion + 1
    · subst hne
      rw [Finmap.lookup_insert] at hv ⊢
      exact hv
    · rw [Finmap.lookup_insert_of_ne _ hne] at hv ⊢
      have hstored := h.manifests v m' hv
      exact hstored

end Caches.Coherent

/-! ### Operations without interference -/

namespace VersionOp

variable (op : VersionOp) {w : World}

lemma load_newest (h : w.caches.Coherent w.store) (attempt : ℕ) :
    ∃ m v c, op.load attempt w = (.ok (m, v), c) ∧ w.store.Newest m v ∧ c.Coherent w.store := by
  unfold load
  split_ifs
  · exact h.loadLatest _
  · exact ⟨_, _, w.caches, rfl, w.store.newest_loadLatestDirect, h⟩

/-- Where a run on `w` ends, by the proposal its first attempt makes in `w₀`. -/
inductive Ends (x : Expiry) (w w₀ : World) (current : Manifest) (currentVer : ℕ) : Prop
  | refused {e w'}
      (proposed : op.propose 0 w₀ current currentVer = (.error e, w'))
      (coherent : w'.caches.Coherent w'.store)
      (eq : op.run x w = (.error e, w'))
  | returned {w'}
      (proposed : op.propose 0 w₀ current currentVer = (.ok none, w'))
      (coherent : w'.caches.Coherent w'.store)
      (eq : op.run x w = (.ok current, w'))
  | created {m w' w''}
      (proposed : op.propose 0 w₀ current currentVer = (.ok (some m), w'))
      (ext : w'.store.Extends w''.store)
      (newest : w''.store.maxVersion = currentVer + 1)
      (versions : w''.store.versions = w.store.versions.insert (currentVer + 1) m)
      (coherent : w''.caches.Coherent w''.store)
      (eq : op.run x w = (.ok m, w''))

/-- When no other client interferes, the first attempt decides. -/
theorem run_ends (x : Expiry) (h : w.caches.Coherent w.store) (hpos : 0 < op.attempts) :
    ∃ current currentVer w₀, w.store.Newest current currentVer ∧ w₀.store = w.store ∧
      op.Ends x w w₀ current currentVer := by
  obtain ⟨left, hleft⟩ : ∃ left, op.attempts = left + 1 := ⟨op.attempts - 1, by omega⟩
  obtain ⟨current, v, c, hload, hnewest, hc⟩ := @load_newest op
    { w with caches := w.caches.expire x } (h.expire x) 0
  obtain rfl := hnewest.eq_maxVersion
  refine ⟨current, _, ⟨w.store, c⟩, hnewest, rfl, ?_⟩
  have hrun : op.run x w = op.loop (left + 1) 0 { w with caches := w.caches.expire x } := by
    rw [run, hleft]
  simp only [loop, hload] at hrun
  have hprep := op.prepares 0 ⟨w.store, c⟩ current w.store.maxVersion
  rcases hprop : op.propose 0 ⟨w.store, c⟩ current w.store.maxVersion with ⟨r, w'⟩
  rw [hprop] at hprep hrun
  have hcoh : w'.caches.Coherent w'.store := hc.of_prepares hprep
  have hversions : w'.store.versions = w.store.versions := hprep.versions
  cases r with
  | error e => exact .refused hprop hcoh hrun
  | ok m? =>
    cases m? with
    | none => exact .returned hprop hcoh hrun
    | some m =>
      have hmax : w'.store.maxVersion = w.store.maxVersion := by
        simp [ManifestStore.maxVersion, hversions]
      obtain ⟨s, hcreate, hext, hmax', hinsert⟩ := w'.store.createNext_maxVersion m
      rw [hmax] at hcreate hmax'
      simp only [hcreate] at hrun
      refine .created hprop hext hmax' ?_ ?_ hrun
      · rw [hinsert, hmax, hversions]
      · rw [← hmax]
        refine hcoh.insert (hmax ▸ hmax') hinsert fun v hv => ?_
        simp only [Option.ite_none_right_eq_some, Option.some.injEq] at hv
        exact hv.2.symm

end VersionOp

end BenoStreamDB

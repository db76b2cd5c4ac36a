import BenoStreamDB.Manifest.Load
import Mathlib.Order.Lattice.Nat

/-!
# Versions and their caches

`v{N}.json` objects, the process-wide `LATEST_VERSION_CACHE` and `MANIFEST_CACHE` in front of
them, and the loads of `manifest/manager/load.rs` that go through the caches.
-/

namespace BenoStreamDB

/-- The entries of the two caches that belong to one table. -/
structure Caches where
  latestVersion : Option ℕ := none
  manifests : Finmap (fun _ : ℕ => Manifest) := ∅
  deriving DecidableEq

/-- What the time-to-live of the caches drops. -/
structure Expiry where
  latest : Bool := false
  manifests : List ℕ := []

def Caches.expire (c : Caches) (x : Expiry) : Caches where
  latestVersion := if x.latest then none else c.latestVersion
  manifests := x.manifests.foldl (fun m v => m.erase v) c.manifests

/-- Expiry only drops entries. -/
lemma Caches.lookup_expire {c : Caches} {x : Expiry} {v : ℕ} {m : Manifest}
    (h : (c.expire x).manifests.lookup v = some m) : c.manifests.lookup v = some m := by
  suffices ∀ (vs : List ℕ) (ms : Finmap fun _ : ℕ => Manifest),
      (vs.foldl (fun ms v => ms.erase v) ms).lookup v = some m → ms.lookup v = some m from
    this x.manifests c.manifests h
  intro vs
  induction vs with
  | nil => exact fun _ h => h
  | cons k vs ih =>
    intro ms h
    have hk := ih _ h
    by_cases hkv : v = k
    · subst hkv
      simp at hk
    · rwa [Finmap.lookup_erase_ne hkv] at hk

namespace ManifestStore

/-- The greatest `N` for which the directory lists `v{N}.json`, 0 if there is none. -/
def maxVersion (s : ManifestStore) : ℕ := s.versions.keys.sup id

/-- `load_latest_direct` -/
def loadLatestDirect (s : ManifestStore) : Manifest × ℕ :=
  match s.versions.lookup s.maxVersion with
  | some m => (m, s.maxVersion)
  | none => ({}, 0)

/-- `load_version` -/
def loadVersion (s : ManifestStore) (c : Caches) (v : ℕ) : Except LoadError Manifest × Caches :=
  match c.manifests.lookup v with
  | some m => (.ok m, c)
  | none =>
    match s.versions.lookup v with
    | some m => (.ok m, { c with manifests := c.manifests.insert v m })
    | none => (.error (.versionNotFound v), c)

/-- The listing branch of `load_latest`. -/
def loadLatestListed (s : ManifestStore) (c : Caches) (nowMs : ℤ) :
    Except LoadError (Manifest × ℕ) × Caches :=
  if 0 < s.maxVersion then
    let c := { c with latestVersion := some s.maxVersion }
    match s.loadVersion c s.maxVersion with
    | (.ok m, c) => (.ok (m, s.maxVersion), c)
    | (.error e, c) => (.error e, c)
  else
    (.ok (Manifest.new nowMs 0 [] none, 0), c)

/-- `load_latest` -/
def loadLatest (s : ManifestStore) (c : Caches) (nowMs : ℤ) :
    Except LoadError (Manifest × ℕ) × Caches :=
  match c.latestVersion with
  | some v =>
    match s.loadVersion c v with
    | (.ok m, c) => (.ok (m, v), c)
    | (.error _, c) => s.loadLatestListed c nowMs
  | none => s.loadLatestListed c nowMs

/-- `put_opts` with `PutMode::Create` on `v{N+1}.json`: fails if the name is taken. -/
def createNext (s : ManifestStore) (currentVer : ℕ) (m : Manifest) : Option ManifestStore :=
  if currentVer + 1 ∈ s.versions then none
  else some
    { s with
      versions := s.versions.insert (currentVer + 1) m
      versions_pos := fun v hv => by
        rcases Finmap.mem_insert.1 hv with rfl | hv
        · exact Nat.succ_pos _
        · exact s.versions_pos v hv }

end ManifestStore

end BenoStreamDB

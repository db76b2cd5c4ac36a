import BenoStreamDB.Manifest.Caches
import BenoStreamDB.Table.Properties

/-!
# Operations that create a version

Every writer of the table goes through the same optimistic loop: load the newest version, build
a proposal from it, create `v{N+1}.json` if no other writer did, and start over if one did. The
operations differ in the proposal, the number of attempts and how they treat the caches.
-/

namespace BenoStreamDB

inductive OpName where
  | commit
  | importedEntries
  | syncedSnapshot
  | rollback
  | schemaUpdate
  | propertiesUpdate
  | indexSpecUpdate
  | partitionSpecUpdate
  deriving DecidableEq

inductive CommitError where
  | load (e : LoadError)
  | precondition (path : Path) (currentVer : ℕ)
  | embedding (e : EmbeddingError)
  | noSchema
  | noIdentifierSchema
  | retriesExhausted (op : OpName) (maxRetries : ℕ)
  deriving DecidableEq

/-- The text of an error the manager raises itself; a store error passes through. -/
def CommitError.message : CommitError → Option String
  | .load _ => none
  | .precondition path currentVer =>
    some ("Compaction precondition failed: candidate file '" ++ String.ofList path ++
      "' was concurrently removed or replaced in snapshot v" ++ toString currentVer)
  | .embedding e => some e.message
  | .noSchema => some "No schema found in manifest"
  | .noIdentifierSchema => some "No existing schema found to update identifier fields"
  | .retriesExhausted op maxRetries =>
    some (match op with
      | .commit => "Failed to commit manifest after " ++ toString maxRetries ++
          " attempts due to concurrent updates"
      | .importedEntries => "Failed to commit imported entries after " ++ toString maxRetries ++
          " attempts"
      | .syncedSnapshot => "Failed to commit synchronized snapshot after " ++
          toString maxRetries ++ " attempts"
      | .rollback => "Failed to rollback after " ++ toString maxRetries ++ " attempts"
      | .schemaUpdate => "Failed to commit schema update after " ++ toString maxRetries ++
          " attempts"
      | .propertiesUpdate => "Failed to commit properties update after " ++
          toString maxRetries ++ " attempts"
      | .indexSpecUpdate => "Failed to commit index spec update"
      | .partitionSpecUpdate => "Failed to commit partition spec update")

/-- A table as one process sees it: the store and the process's caches. -/
structure World where
  store : ManifestStore := {}
  caches : Caches := {}
  deriving DecidableEq

/-- Manifest lists and manifest files of `s` are still there, unchanged, in `s'`. -/
structure ManifestStore.Extends (s s' : ManifestStore) : Prop where
  lists : ∀ {n fs}, s.lists.lookup n = some fs → s'.lists.lookup n = some fs
  files : ∀ {n c}, s.files.lookup n = some c → s'.files.lookup n = some c

lemma ManifestStore.Extends.refl (s : ManifestStore) : s.Extends s := ⟨id, id⟩

lemma ManifestStore.Extends.trans {s t u : ManifestStore} (h : s.Extends t) (h' : t.Extends u) :
    s.Extends u :=
  ⟨fun hl => h'.lists (h.lists hl), fun hf => h'.files (h.files hf)⟩

lemma ManifestStore.createNext_eq_some {s s' : ManifestStore} {v : ℕ} {m : Manifest}
    (h : s.createNext v m = some s') :
    v + 1 ∉ s.versions ∧ s'.versions = s.versions.insert (v + 1) m ∧ s'.lists = s.lists ∧
      s'.files = s.files ∧ s'.nextUuid = s.nextUuid := by
  unfold createNext at h
  split_ifs at h with hv
  cases h
  exact ⟨hv, rfl, rfl, rfl, rfl⟩

lemma ManifestStore.extends_createNext {s s' : ManifestStore} {v : ℕ} {m : Manifest}
    (h : s.createNext v m = some s') : s.Extends s' := by
  obtain ⟨-, -, hl, hf, -⟩ := createNext_eq_some h
  exact ⟨fun h => hl ▸ h, fun h => hf ▸ h⟩

/-- What building a proposal may do: write new objects other than versions, and cache versions
that are stored. -/
structure World.Prepares (w w' : World) : Prop where
  ext : w.store.Extends w'.store
  versions : w'.store.versions = w.store.versions
  latest : w'.caches.latestVersion = w.caches.latestVersion
  cached : ∀ {v m}, w'.caches.manifests.lookup v = some m →
    w.caches.manifests.lookup v = some m ∨ w.store.versions.lookup v = some m

lemma World.Prepares.refl (w : World) : w.Prepares w := ⟨.refl _, rfl, rfl, .inl⟩

/-- An operation of the manifest manager. -/
structure VersionOp where
  name : OpName
  /-- The number reported when the attempts are used up. -/
  maxRetries : ℕ
  attempts : ℕ
  /-- The attempt starts from `load_latest`, which may answer from the caches; the other ones
  list the directory with `load_latest_direct`. -/
  startsCached : ℕ → Bool
  nowMs : ℕ → ℤ
  /-- The manifest to be created, built on the loaded manifest and its version, or `none` if the
  operation returns without creating one. -/
  propose : ℕ → World → Manifest → ℕ → Except CommitError (Option Manifest) × World
  prepares : ∀ (attempt : ℕ) (w : World) (m : Manifest) (v : ℕ),
    w.Prepares (propose attempt w m v).2
  /-- A proposal names its version and its predecessor. -/
  numbered : ∀ {attempt : ℕ} {w : World} {m : Manifest} {v : ℕ} {m' : Manifest},
    (propose attempt w m v).1 = .ok (some m') → m'.version = v + 1 ∧ m'.prevVersion = some v
  /-- On success the new version enters `LATEST_VERSION_CACHE`; else its entry is dropped. -/
  cachesLatest : Bool
  /-- On a conflict the entry of `LATEST_VERSION_CACHE` is dropped. -/
  invalidatesOnConflict : Bool

namespace VersionOp

variable (op : VersionOp)

/-- The caches after `v{N}.json` was created. -/
def cachesAfterCreate (c : Caches) (v : ℕ) (m : Manifest) : Caches where
  latestVersion := if op.cachesLatest then some v else none
  manifests := c.manifests.insert v m

/-- The caches after `v{N}.json` turned out to exist. -/
def cachesAfterConflict (c : Caches) : Caches where
  latestVersion := if op.invalidatesOnConflict then none else c.latestVersion
  manifests := c.manifests

/-- The newest version, as the given attempt loads it. -/
def load (attempt : ℕ) (w : World) : Except LoadError (Manifest × ℕ) × Caches :=
  if op.startsCached attempt then w.store.loadLatest w.caches (op.nowMs attempt)
  else (.ok w.store.loadLatestDirect, w.caches)

/-- The optimistic loop, with the number of attempts left. -/
def loop : ℕ → ℕ → World → Except CommitError Manifest × World
  | 0, _, w => (.error (.retriesExhausted op.name op.maxRetries), w)
  | left + 1, attempt, w =>
    match op.load attempt w with
    | (.error e, caches) => (.error (.load e), { w with caches })
    | (.ok (current, currentVer), caches) =>
      match op.propose attempt { w with caches } current currentVer with
      | (.error e, w) => (.error e, w)
      | (.ok none, w) => (.ok current, w)
      | (.ok (some m), w) =>
        match w.store.createNext currentVer m with
        | some s => (.ok m, ⟨s, op.cachesAfterCreate w.caches (currentVer + 1) m⟩)
        | none => loop left (attempt + 1) ⟨w.store, op.cachesAfterConflict w.caches⟩

/-- Run the operation after the time-to-live of some cache entries has passed. -/
def run (x : Expiry) (w : World) : Except CommitError Manifest × World :=
  op.loop op.attempts 0 { w with caches := w.caches.expire x }

end VersionOp

end BenoStreamDB

import Mathlib.Data.Char
import Mathlib.Data.List.DropRight
import Mathlib.Data.List.Infix

/-!
# File paths of manifest entries

Avro manifests store a data file under its full URI, every other part of the engine uses the
path relative to the table root. A commit qualifies the paths on the way out
(`qualifyFilePath`), a load relativizes them on the way in (`relativizeFilePath`).
-/

namespace BenoStreamDB

abbrev Path := List Char

/-- The separator `"://"` that marks a full URI. -/
def schemeSep : Path := [':', '/', '/']

def fileScheme : Path := ['f', 'i', 'l', 'e', ':', '/', '/']

/-- The inner `strip_scheme` of `relativize_file_path`. -/
def stripScheme (s : Path) : Path := (s.dropPrefix? fileScheme).getD s

/-- `trim_end_matches('/')` -/
def trimEndSlashes (s : Path) : Path := s.rdropWhile (· = '/')

/-- `trim_start_matches('/')` -/
def trimStartSlashes (s : Path) : Path := s.dropWhile (· = '/')

/-- Convert an absolute file URI back to a store-relative path. A path that is not under
`rootUri` is returned unchanged. -/
def relativizeFilePath (rootUri filePath : Path) : Path :=
  let rootLocal := trimEndSlashes (stripScheme rootUri)
  if rootLocal = [] then
    filePath
  else
    match (stripScheme filePath).dropPrefix? rootLocal with
    | some rest => trimStartSlashes rest
    | none => filePath

/-- Neither a full URI nor an absolute path: the test `commit` makes before it qualifies. -/
def StoreRelative (p : Path) : Prop := ¬ schemeSep <:+: p ∧ p.head? ≠ some '/'

instance (p : Path) : Decidable (StoreRelative p) :=
  inferInstanceAs (Decidable (_ ∧ _))

/-- The URI a manifest file records for a data file. -/
def qualifyFilePath (rootUri p : Path) : Path :=
  if StoreRelative p then trimEndSlashes rootUri ++ '/' :: trimStartSlashes p else p

/-- A table location as the table builder normalises it: no trailing slash, and either a URI of
another scheme or an absolute local path, optionally behind `file://`. -/
structure RootUri where
  uri : Path
  trimmed : trimEndSlashes uri = uri
  nonempty : trimEndSlashes (stripScheme uri) ≠ []
  absolute : (trimEndSlashes (stripScheme uri)).head? = some '/' ∨
    schemeSep <:+: trimEndSlashes (stripScheme uri)

/-- The table at `file:///t`. -/
def sampleRoot : RootUri where
  uri := fileScheme ++ ['/', 't']
  trimmed := by decide
  nonempty := by decide
  absolute := by decide

/-! ### Prefixes -/

lemma stripScheme_append (s : Path) : stripScheme (fileScheme ++ s) = s := by
  simp [stripScheme, List.dropPrefix?_append_of_beq]

lemma stripScheme_of_not_fileScheme {s : Path} (h : ¬ fileScheme <+: s) : stripScheme s = s := by
  have hnone : s.dropPrefix? fileScheme = none := by
    refine Option.eq_none_iff_forall_ne_some.2 fun rest hrest => h ?_
    obtain ⟨p, hp, hbeq⟩ := List.dropPrefix?_eq_some_iff.1 hrest
    exact ⟨rest, by rw [hp, eq_of_beq hbeq]⟩
  simp [stripScheme, hnone]

lemma schemeSep_infix_fileScheme : schemeSep <:+: fileScheme := by decide

lemma trimStartSlashes_of_head {p : Path} (h : p.head? ≠ some '/') : trimStartSlashes p = p := by
  cases p with
  | nil => rfl
  | cons c cs =>
    have hc : c ≠ '/' := fun hc => h (by simp [hc])
    simp [trimStartSlashes, hc]

lemma StoreRelative.not_fileScheme {p : Path} (h : StoreRelative p) : ¬ fileScheme <+: p :=
  fun hp => h.1 (schemeSep_infix_fileScheme.trans hp.isInfix)

/-! ### Round trips -/

/-- A relative path does not start with an absolute root. -/
lemma StoreRelative.dropPrefix?_root {p : Path} (h : StoreRelative p) (r : RootUri) :
    p.dropPrefix? (trimEndSlashes (stripScheme r.uri)) = none := by
  refine Option.eq_none_iff_forall_ne_some.2 fun rest hrest => ?_
  obtain ⟨q, hq, hbeq⟩ := List.dropPrefix?_eq_some_iff.1 hrest
  rw [eq_of_beq hbeq] at hq
  rcases r.absolute with habs | habs
  · apply h.2
    rw [hq, List.head?_append_of_ne_nil _ r.nonempty, habs]
  · exact h.1 (habs.trans ⟨[], rest, by simp [hq]⟩)

lemma relativizeFilePath_of_storeRelative (r : RootUri) {p : Path} (h : StoreRelative p) :
    relativizeFilePath r.uri p = p := by
  simp [relativizeFilePath, r.nonempty, stripScheme_of_not_fileScheme h.not_fileScheme,
    h.dropPrefix?_root r]

/-- No proper prefix of `file://` is an absolute location. -/
private lemma not_absolute_of_mem_inits : ∀ s ∈ fileScheme.inits, s ≠ fileScheme →
    ¬ (s.head? = some '/' ∨ schemeSep <:+: s) := by
  decide

/-- Qualifying with the root does not create a `file://` scheme the root does not have. -/
lemma RootUri.not_fileScheme_append (r : RootUri) (hr : ¬ fileScheme <+: r.uri) (p : Path) :
    ¬ fileScheme <+: r.uri ++ p := by
  intro hpre
  rcases List.prefix_or_prefix_of_prefix hpre (List.prefix_append r.uri p) with h | h
  · exact hr h
  · have habs := r.absolute
    rw [stripScheme_of_not_fileScheme hr, r.trimmed] at habs
    refine not_absolute_of_mem_inits r.uri ((List.mem_inits _ _).2 h) (fun heq => ?_) habs
    exact hr (heq ▸ List.prefix_rfl)

/-- The local part of the root heads the local part of every location below the root. -/
lemma RootUri.stripScheme_append_slash (r : RootUri) (p : Path) :
    stripScheme (r.uri ++ '/' :: p) = trimEndSlashes (stripScheme r.uri) ++ '/' :: p := by
  by_cases hr : fileScheme <+: r.uri
  · obtain ⟨s, hs⟩ := hr
    have htrim : trimEndSlashes s = s := by
      have h := r.trimmed
      rw [← hs] at h
      have hne : s ≠ [] := by
        rintro rfl
        simp [trimEndSlashes, fileScheme] at h
      have hlast : s.getLast hne ≠ '/' := by
        intro hl
        have := List.rdropWhile_eq_self_iff.1 h (by simp [hne])
        rw [List.getLast_append_of_ne_nil _ hne] at this
        simp [hl] at this
      exact List.rdropWhile_eq_self_iff.2 fun _ => by simpa using hlast
    rw [← hs, stripScheme_append, htrim, List.append_assoc, stripScheme_append]
  · rw [stripScheme_of_not_fileScheme hr, r.trimmed,
      stripScheme_of_not_fileScheme (r.not_fileScheme_append hr _)]

lemma relativizeFilePath_append_slash (r : RootUri) {p : Path} (h : p.head? ≠ some '/') :
    relativizeFilePath r.uri (r.uri ++ '/' :: p) = p := by
  have hdrop : trimStartSlashes ('/' :: p) = p := by
    rw [trimStartSlashes, List.dropWhile_cons_of_pos (by simp)]
    exact trimStartSlashes_of_head h
  simp [relativizeFilePath, r.nonempty, r.stripScheme_append_slash,
    List.dropPrefix?_append_of_beq, hdrop]

/-- A path in the form every part of the engine but the Avro manifests uses. -/
def Normalised (r : RootUri) (p : Path) : Prop := relativizeFilePath r.uri p = p

instance (r : RootUri) (p : Path) : Decidable (Normalised r p) :=
  inferInstanceAs (Decidable (_ = _))

lemma StoreRelative.normalised {p : Path} (h : StoreRelative p) (r : RootUri) :
    Normalised r p :=
  relativizeFilePath_of_storeRelative r h

/-- What a commit writes for a normalised path is read back as that path. -/
lemma relativizeFilePath_qualifyFilePath (r : RootUri) {p : Path} (h : Normalised r p) :
    relativizeFilePath r.uri (qualifyFilePath r.uri p) = p := by
  unfold qualifyFilePath
  split_ifs with hrel
  · rw [r.trimmed, trimStartSlashes_of_head hrel.2]
    exact relativizeFilePath_append_slash r hrel.2
  · exact h

end BenoStreamDB

import BenoStreamDB.Foundations.Failing
import BenoStreamDB.Manifest.Path
import BenoStreamDB.Reader.RowGroups
import Mathlib.Data.List.GetD
import Mathlib.Tactic.IntervalCases

/-!
# Splits of a scan

`get_splits`, `get_splits_async` (which differ in the listing of the files only) and
`read_split_async` of `table/stats.rs`, without a filter. Splits are cut by bytes, but the split `i`
of a file reads its row group `i`; reading all splits gives each live row once exactly if the two
ways of cutting the files agree: `covers_iff`.

A row is its file and its position there, so a file is given by the sizes of its row groups. The
object of a listed file is found under its path.
-/

namespace BenoStreamDB

structure SplitFile where
  filePath : Path
  fileSizeBytes : ℕ
  sizes : List ℕ
  /-- The positions of `load_merged_deletes`. -/
  deleted : List ℕ := []
  /-- The rows that pass the equality deletes. -/
  keeps : ℕ → Bool := fun _ => true

def SplitFile.Live (f : SplitFile) (p : ℕ) : Prop :=
  p < f.sizes.sum ∧ p ∉ f.deleted ∧ f.keeps p = true

instance SplitFile.decidableLive (f : SplitFile) (p : ℕ) : Decidable (f.Live p) :=
  inferInstanceAs (Decidable (_ ∧ _ ∧ _))

structure Split where
  filePath : Path
  startOffset : ℕ
  length : ℕ
  rowGroupIds : List ℕ

structure SplitTable where
  uri : Path
  files : List SplitFile

namespace SplitTable

variable (t : SplitTable) (maxSplitSize : ℕ)

/-- The path of a file as `list_data_files` gives it. -/
def dataPath (f : SplitFile) : Path :=
  if "://".toList <:+: f.filePath then f.filePath
  else trimEndSlashes t.uri ++ '/' :: trimStartSlashes f.filePath

def fileSplits (f : SplitFile) : Except String (List Split) :=
  if maxSplitSize < f.fileSizeBytes then
    if maxSplitSize = 0 then .error "attempt to divide by zero"
    else .ok ((List.range (f.fileSizeBytes / maxSplitSize + 1)).map fun i =>
      ⟨t.dataPath f, i * maxSplitSize, maxSplitSize, [i]⟩)
  else .ok [⟨t.dataPath f, 0, f.fileSizeBytes, [0]⟩]

def getSplits : Except String (List Split) :=
  (t.files.mapM (t.fileSplits maxSplitSize)).map List.flatten

/-- The entry of the manifest from which a split gets its deletes. -/
def entryFor (path : Path) : Option SplitFile :=
  t.files.find? fun e => e.filePath = path || path.isSuffixOf e.filePath

/-- The positions that a split returns; an object that is not found gives an empty stream. -/
def readSplitAsync (split : Split) : Except String (List ℕ) :=
  match t.files.find? fun f => t.dataPath f = split.filePath with
  | none => .ok []
  | some f =>
    if split.rowGroupIds.any fun i => f.sizes.length ≤ i then .error "row group out of bounds"
    else match t.entryFor split.filePath with
      | some e =>
        .ok (streamRowGroups (positionFile f.sizes) e.deleted e.keeps (some split.rowGroupIds))
      | none =>
        .ok (streamRowGroups (positionFile f.sizes) [] (fun _ => true) (some split.rowGroupIds))

/-- All splits, each row with the path of its file. -/
def readSplits : Except String (List (Path × ℕ)) := do
  let splits ← t.getSplits maxSplitSize
  let parts ← splits.mapM fun split =>
    (t.readSplitAsync split).map fun rows => rows.map fun p => (split.filePath, p)
  .ok parts.flatten

/-! ### Coverage -/

/-- Reading all splits gives every live row once and no other row. -/
def Covers : Prop :=
  ∃ rows, t.readSplits maxSplitSize = .ok rows ∧ rows.Nodup ∧
    ∀ f ∈ t.files, ∀ p, (t.dataPath f, p) ∈ rows ↔ f.Live p

/-- The number of pieces by bytes. -/
def splitCount (f : SplitFile) : ℕ :=
  if maxSplitSize < f.fileSizeBytes then f.fileSizeBytes / maxSplitSize + 1 else 1

/-- The row `k` of a row group passes the deletes that the split of the group has, whose positions
are counted within the group. -/
def Passes (f : SplitFile) (k p : ℕ) : Prop :=
  ∀ e ∈ t.entryFor (t.dataPath f),
    (e.deleted = [] ∨ (k < f.sizes.sum % 2 ^ 32 ∧ k ∉ e.deleted)) ∧ e.keeps p = true

instance decidablePasses (f : SplitFile) (k p : ℕ) : Decidable (t.Passes f k p) :=
  inferInstanceAs (Decidable (∀ e ∈ t.entryFor (t.dataPath f), _ ∧ _))

/-- The pieces by bytes are as many as the first row groups, which have all live rows, and the
deletes hit the same rows counted within a group as counted within the file. -/
structure Splittable (f : SplitFile) : Prop where
  nonzero : maxSplitSize = 0 → f.fileSizeBytes = 0
  enough : splitCount maxSplitSize f ≤ f.sizes.length
  rows : ∀ i k, k < f.sizes.getD i 0 →
    (i < splitCount maxSplitSize f ∧ t.Passes f k (groupOffset f.sizes i + k) ↔
      f.Live (groupOffset f.sizes i + k))

end SplitTable

/-! ### One row group -/

section Group

variable {sizes deleted : List ℕ} {keeps : ℕ → Bool} {i p : ℕ}

lemma streamRowGroups_sublist {ρ : Type} {file : List (List ρ)} {keeps : ρ → Bool}
    {rowGroups : List ℕ} :
    (streamRowGroups file deleted keeps (some rowGroups)).Sublist
      (rowGroups.flatMap fun i => file.getD i []) := by
  by_cases hdeleted : deleted = []
  · subst hdeleted
    exact List.filter_sublist
  · rw [streamRowGroups_eq hdeleted, ← map_fst_groupRows]
    refine List.filter_sublist.trans ?_
    refine (List.filter_sublist.map fun r : (ρ × ℕ) × ℕ => r.1.1).trans ?_
    conv_rhs => rw [← List.zipIdx_map_fst 0 (groupRows file rowGroups), List.map_map]
    exact List.Sublist.refl _

lemma nodup_streamRowGroups {rowGroups : List ℕ} (hnodup : rowGroups.Nodup) :
    (streamRowGroups (positionFile sizes) deleted keeps (some rowGroups)).Nodup := by
  refine List.Nodup.sublist streamRowGroups_sublist ?_
  rw [flatMap_positionFile]
  exact nodup_scannedPositions hnodup

lemma mem_streamRowGroups_singleton :
    p ∈ streamRowGroups (positionFile sizes) deleted keeps (some [i]) ↔
      ∃ k < sizes.getD i 0, p = groupOffset sizes i + k ∧
        (deleted = [] ∨ (k < sizes.sum % 2 ^ 32 ∧ k ∉ deleted)) ∧ keeps p = true := by
  have hscan : (positionFile sizes).getD i [] =
      List.range' (groupOffset sizes i) (sizes.getD i 0) := by
    simpa [scannedPositions] using @flatMap_positionFile sizes [i]
  by_cases hdeleted : deleted = []
  · subst hdeleted
    have hstream : streamRowGroups (positionFile sizes) [] keeps (some [i]) =
        ((positionFile sizes).getD i []).filter keeps := by
      simp [streamRowGroups]
    rw [hstream, hscan, List.mem_filter, List.mem_range'_1]
    constructor
    · rintro ⟨⟨hle, hlt⟩, hkeeps⟩
      exact ⟨p - groupOffset sizes i, by omega, by omega, .inl rfl, hkeeps⟩
    · rintro ⟨k, hk, rfl, -, hkeeps⟩
      exact ⟨⟨by omega, by omega⟩, hkeeps⟩
  · -- the rows of the group, each with its place in the group
    have hrow : ∀ r : (ℕ × ℕ) × ℕ, r ∈ (groupRows (positionFile sizes) [i]).zipIdx →
        r.2 < sizes.getD i 0 ∧ r.1.1 = groupOffset sizes i + r.2 := by
      intro r hr
      have hget := List.mem_zipIdx_iff_getElem?.1 hr
      rw [groupRows, List.flatMap_singleton, hscan, List.getElem?_zipIdx] at hget
      obtain ⟨q, hq, hr⟩ := Option.map_eq_some_iff.1 hget
      obtain ⟨hlt, hq⟩ := List.getElem?_eq_some_iff.1 hq
      rw [List.getElem_range'] at hq
      rw [List.length_range'] at hlt
      refine ⟨hlt, ?_⟩
      rw [← hr, ← hq, Nat.one_mul]
    have hmem : ∀ k < sizes.getD i 0, ∃ j, ((groupOffset sizes i + k, j), k) ∈
        (groupRows (positionFile sizes) [i]).zipIdx := by
      intro k hk
      refine ⟨groupOffset ((positionFile sizes).map List.length) i + k,
        List.mem_zipIdx_iff_getElem?.2 ?_⟩
      rw [groupRows, List.flatMap_singleton, hscan, List.getElem?_zipIdx,
        List.getElem?_range' hk, Nat.one_mul]
      rfl
    rw [streamRowGroups_eq hdeleted, length_positionFile, List.mem_filter, List.mem_map]
    simp only [List.mem_filter, Bool.and_eq_true, decide_eq_true_eq, Bool.not_eq_true',
      List.contains_eq_mem, decide_eq_false_iff_not, hdeleted, false_or]
    constructor
    · rintro ⟨⟨r, ⟨hr, hpasses⟩, rfl⟩, hkeeps⟩
      obtain ⟨hlt, heq⟩ := hrow r hr
      exact ⟨r.2, hlt, heq, hpasses, hkeeps⟩
    · rintro ⟨k, hk, rfl, hpasses, hkeeps⟩
      obtain ⟨j, hj⟩ := hmem k hk
      exact ⟨⟨_, ⟨hj, hpasses⟩, rfl⟩, hkeeps⟩

/-- A position is in one row group only. -/
lemma eq_of_groupOffset {j k l : ℕ} (hk : k < sizes.getD i 0) (hl : l < sizes.getD j 0)
    (h : groupOffset sizes i + k = groupOffset sizes j + l) : i = j := by
  rcases Nat.lt_trichotomy i j with hij | hij | hij
  · have := groupOffset_add_le sizes hij
    omega
  · exact hij
  · have := groupOffset_add_le sizes hij
    omega

/-- Every position is in a row group. -/
lemma lt_sum_iff_groupOffset :
    p < sizes.sum ↔ ∃ i k, k < sizes.getD i 0 ∧ p = groupOffset sizes i + k := by
  rw [lt_sum_iff]
  constructor
  · rintro ⟨i, -, hp⟩
    obtain ⟨hle, hlt⟩ := List.mem_range'_1.1 hp
    exact ⟨i, p - groupOffset sizes i, by omega, by omega⟩
  · rintro ⟨i, k, hk, rfl⟩
    have hi : i < sizes.length := by
      by_contra hge
      rw [List.getD_eq_default _ _ (by omega)] at hk
      omega
    exact ⟨i, hi, List.mem_range'_1.2 ⟨by omega, by omega⟩⟩

end Group

/-! ### All splits -/

namespace SplitTable

variable {t : SplitTable} {maxSplitSize : ℕ} {f : SplitFile}

/-- The positions that the split of a row group returns. -/
def groupRead (t : SplitTable) (f : SplitFile) (i : ℕ) : List ℕ :=
  match t.entryFor (t.dataPath f) with
  | some e => streamRowGroups (positionFile f.sizes) e.deleted e.keeps (some [i])
  | none => streamRowGroups (positionFile f.sizes) [] (fun _ => true) (some [i])

lemma mem_groupRead {i p : ℕ} : p ∈ t.groupRead f i ↔
    ∃ k < f.sizes.getD i 0, p = groupOffset f.sizes i + k ∧ t.Passes f k p := by
  rw [groupRead]
  cases hentry : t.entryFor (t.dataPath f) with
  | none => simp [mem_streamRowGroups_singleton, Passes, hentry]
  | some e => simp [mem_streamRowGroups_singleton, Passes, hentry]

lemma nodup_groupRead (i : ℕ) : (t.groupRead f i).Nodup := by
  rw [groupRead]
  cases t.entryFor (t.dataPath f) with
  | none => exact nodup_streamRowGroups (List.nodup_singleton i)
  | some e => exact nodup_streamRowGroups (List.nodup_singleton i)

lemma fileSplits_eq_ok {splits : List Split} (h : t.fileSplits maxSplitSize f = .ok splits) :
    (maxSplitSize = 0 → f.fileSizeBytes = 0) ∧
      splits.map (fun s => (s.filePath, s.rowGroupIds)) =
        (List.range (splitCount maxSplitSize f)).map fun i => (t.dataPath f, [i]) := by
  rw [fileSplits] at h
  rw [splitCount]
  split_ifs at h ⊢ with hlt hzero
  · obtain rfl := Except.ok.inj h
    exact ⟨fun h0 => absurd h0 hzero, by simp [List.map_map, Function.comp_def]⟩
  · obtain rfl := Except.ok.inj h
    exact ⟨fun h0 => by omega, rfl⟩

/-- The splits of a file if they can be planned. -/
def splitsOf (t : SplitTable) (maxSplitSize : ℕ) (f : SplitFile) : List Split :=
  if maxSplitSize < f.fileSizeBytes then
    (List.range (f.fileSizeBytes / maxSplitSize + 1)).map fun i =>
      ⟨t.dataPath f, i * maxSplitSize, maxSplitSize, [i]⟩
  else [⟨t.dataPath f, 0, f.fileSizeBytes, [0]⟩]

lemma fileSplits_eq_splitsOf (h : maxSplitSize = 0 → f.fileSizeBytes = 0) :
    t.fileSplits maxSplitSize f = .ok (t.splitsOf maxSplitSize f) := by
  rw [fileSplits, splitsOf]
  split_ifs with hlt hzero
  · have := h hzero
    omega
  · rfl
  · rfl

/-- The rows of the row groups with the given numbers of the file with the given path. -/
def splitRows (t : SplitTable) (x : Path × List ℕ) : List (Path × ℕ) :=
  (t.files.find? fun f => t.dataPath f = x.1).toList.flatMap fun f =>
    x.2.flatMap fun i => (t.groupRead f i).map fun p => (x.1, p)

def allRows (t : SplitTable) (maxSplitSize : ℕ) : List (Path × ℕ) :=
  t.files.flatMap fun f => (List.range (splitCount maxSplitSize f)).flatMap fun i =>
    (t.groupRead f i).map fun p => (t.dataPath f, p)

section Distinct

variable (hpaths : (t.files.map t.dataPath).Nodup)

include hpaths

lemma find_dataPath (hf : f ∈ t.files) :
    t.files.find? (fun g => t.dataPath g = t.dataPath f) = some f := by
  obtain ⟨g, hg⟩ : ∃ g, t.files.find? (fun g => t.dataPath g = t.dataPath f) = some g := by
    rw [← Option.isSome_iff_exists, List.find?_isSome]
    exact ⟨f, hf, by simp⟩
  have hpath : t.dataPath g = t.dataPath f := by simpa using List.find?_some hg
  rw [hg, List.inj_on_of_nodup_map hpaths (List.mem_of_find?_eq_some hg) hf hpath]

lemma splitRows_dataPath (hf : f ∈ t.files) {i : ℕ} :
    t.splitRows (t.dataPath f, [i]) = (t.groupRead f i).map fun p => (t.dataPath f, p) := by
  rw [splitRows, find_dataPath hpaths hf]
  simp

lemma readSplitAsync_eq (hf : f ∈ t.files) {split : Split} {i : ℕ}
    (hsplit : (split.filePath, split.rowGroupIds) = (t.dataPath f, [i])) :
    t.readSplitAsync split =
      if f.sizes.length ≤ i then .error "row group out of bounds" else .ok (t.groupRead f i) := by
  obtain ⟨hpath, hids⟩ := Prod.ext_iff.1 hsplit
  simp only at hpath hids
  rw [readSplitAsync, hpath, find_dataPath hpaths hf, hids, groupRead]
  simp only [List.any_cons, List.any_nil, Bool.or_false, decide_eq_true_eq]
  split_ifs with hle
  · rfl
  · cases t.entryFor (t.dataPath f) <;> rfl

/-- Each split of a file returns the rows of its row group. -/
lemma read_of_mem_fileSplits (hf : f ∈ t.files) {splits : List Split}
    (h : t.fileSplits maxSplitSize f = .ok splits)
    (henough : splitCount maxSplitSize f ≤ f.sizes.length) {split : Split}
    (hsplit : split ∈ splits) :
    (t.readSplitAsync split).map (fun ps => ps.map fun p => (split.filePath, p)) =
      .ok (t.splitRows (split.filePath, split.rowGroupIds)) := by
  have hpair := List.mem_map_of_mem (f := fun s : Split => (s.filePath, s.rowGroupIds)) hsplit
  rw [(fileSplits_eq_ok h).2] at hpair
  obtain ⟨i, hi, hpair⟩ := List.mem_map.1 hpair
  have hlt := List.mem_range.1 hi
  have hpath : t.dataPath f = split.filePath := (Prod.ext_iff.1 hpair).1
  rw [readSplitAsync_eq hpaths hf hpair.symm, if_neg (by omega), ← hpair,
    splitRows_dataPath hpaths hf, hpath]
  rfl

/-- Reading succeeds exactly if no file is cut into zero bytes or into more pieces than it has row
groups. -/
lemma readSplits_eq_ok_iff {rows : List (Path × ℕ)} :
    t.readSplits maxSplitSize = .ok rows ↔
      (∀ f ∈ t.files, (maxSplitSize = 0 → f.fileSizeBytes = 0) ∧
        splitCount maxSplitSize f ≤ f.sizes.length) ∧ rows = t.allRows maxSplitSize := by
  have hread : (∀ f ∈ t.files, (maxSplitSize = 0 → f.fileSizeBytes = 0) ∧
      splitCount maxSplitSize f ≤ f.sizes.length) →
        t.readSplits maxSplitSize = .ok (t.allRows maxSplitSize) := by
    intro hfiles
    have hsplits : ∀ f ∈ t.files, t.fileSplits maxSplitSize f = .ok (t.splitsOf maxSplitSize f) :=
      fun f hf => fileSplits_eq_splitsOf (hfiles f hf).1
    have hreads : ∀ split ∈ (t.files.map (t.splitsOf maxSplitSize)).flatten,
        (t.readSplitAsync split).map (fun ps => ps.map fun p => (split.filePath, p)) =
          .ok (t.splitRows (split.filePath, split.rowGroupIds)) := by
      intro split hsplit
      obtain ⟨_, hl, hsplit⟩ := List.mem_flatten.1 hsplit
      obtain ⟨f, hf, rfl⟩ := List.mem_map.1 hl
      exact read_of_mem_fileSplits hpaths hf (hsplits f hf) (hfiles f hf).2 hsplit
    have hplan : t.getSplits maxSplitSize =
        .ok (t.files.map (t.splitsOf maxSplitSize)).flatten := by
      rw [getSplits, Failing.mapM_eq_ok hsplits]
      rfl
    simp only [readSplits, hplan, Failing.mapM_eq_ok hreads, bind, Except.bind]
    congr 1
    rw [allRows, ← List.flatMap_def, ← List.flatMap_def, List.flatMap_assoc]
    refine List.flatMap_congr fun f hf => ?_
    have hmap := congrArg (fun l => l.flatMap t.splitRows) (fileSplits_eq_ok (hsplits f hf)).2
    simp only [List.flatMap_map] at hmap
    rw [hmap]
    exact List.flatMap_congr fun i _ => splitRows_dataPath hpaths hf
  constructor
  · intro h
    have hfiles : ∀ f ∈ t.files, (maxSplitSize = 0 → f.fileSizeBytes = 0) ∧
        splitCount maxSplitSize f ≤ f.sizes.length := by
      intro f hf
      rw [readSplits] at h
      obtain ⟨splits, hsplits, h⟩ := Failing.exists_of_bind_eq_ok h
      obtain ⟨parts, hparts, -⟩ := Failing.exists_of_bind_eq_ok h
      obtain ⟨lists, hlists, rfl⟩ := Failing.exists_of_map_eq_ok hsplits
      obtain ⟨own, hown⟩ := Failing.exists_ok_of_mem hlists hf
      obtain ⟨hnonzero, hpairs⟩ := fileSplits_eq_ok hown
      refine ⟨hnonzero, ?_⟩
      by_contra hless
      -- the split of the first missing row group fails
      have hmem : (t.dataPath f, [f.sizes.length]) ∈
          own.map fun s => (s.filePath, s.rowGroupIds) := by
        rw [hpairs]
        exact List.mem_map_of_mem (List.mem_range.2 (by omega))
      obtain ⟨split, hsplit, hpair⟩ := List.mem_map.1 hmem
      have hin : split ∈ lists.flatten :=
        List.mem_flatten.2 ⟨own, Failing.mem_of_mapM_eq_ok hlists hf hown, hsplit⟩
      obtain ⟨part, hpart⟩ := Failing.exists_ok_of_mem hparts hin
      rw [readSplitAsync_eq hpaths hf hpair, if_pos le_rfl] at hpart
      cases hpart
    exact ⟨hfiles, Except.ok.inj (h.symm.trans (hread hfiles))⟩
  · rintro ⟨hfiles, rfl⟩
    exact hread hfiles

lemma nodup_allRows : (t.allRows maxSplitSize).Nodup := by
  rw [allRows, List.nodup_flatMap]
  refine ⟨fun f _ => List.nodup_flatMap.2 ⟨fun i _ => ?_, ?_⟩, ?_⟩
  · exact (nodup_groupRead i).map fun a b h => (Prod.ext_iff.1 h).2
  · refine List.nodup_range.imp fun {i j} hij x hi hj => hij ?_
    obtain ⟨p, hp, rfl⟩ := List.mem_map.1 hi
    obtain ⟨q, hq, hpq⟩ := List.mem_map.1 hj
    obtain rfl : q = p := (Prod.ext_iff.1 hpq).2
    obtain ⟨k, hk, hqi, -⟩ := mem_groupRead.1 hp
    obtain ⟨l, hl, hqj, -⟩ := mem_groupRead.1 hq
    exact eq_of_groupOffset hk hl (hqi.symm.trans hqj)
  · refine (List.pairwise_map.1 hpaths).imp fun {f g} hfg x hf hg => hfg ?_
    obtain ⟨i, -, hf⟩ := List.mem_flatMap.1 hf
    obtain ⟨j, -, hg⟩ := List.mem_flatMap.1 hg
    obtain ⟨p, -, rfl⟩ := List.mem_map.1 hf
    obtain ⟨q, -, hq⟩ := List.mem_map.1 hg
    exact (Prod.ext_iff.1 hq).1.symm

lemma mem_allRows (hf : f ∈ t.files) {p : ℕ} : (t.dataPath f, p) ∈ t.allRows maxSplitSize ↔
    ∃ i < splitCount maxSplitSize f, p ∈ t.groupRead f i := by
  simp only [allRows, List.mem_flatMap, List.mem_range, List.mem_map, Prod.mk.injEq]
  constructor
  · rintro ⟨g, hg, i, hi, q, hq, hpath, rfl⟩
    obtain rfl := List.inj_on_of_nodup_map hpaths hg hf hpath
    exact ⟨i, hi, hq⟩
  · rintro ⟨i, hi, hp⟩
    exact ⟨f, hf, i, hi, p, hp, rfl, rfl⟩

end Distinct

/-- A file of 15 bytes in two row groups, each with its second row deleted, and a smaller file. -/
def twoFiles : SplitTable where
  uri := ['t']
  files := [⟨"s3://t/a".toList, 15, [2, 2], [1, 3], fun _ => true⟩,
    ⟨['b'], 10, [3], [], fun _ => true⟩]

/-- A table with one file of 10 bytes. -/
def oneFile (sizes : List ℕ) : SplitTable where
  uri := ['t']
  files := [⟨['a'], 10, sizes, [], fun _ => true⟩]

end SplitTable

end BenoStreamDB

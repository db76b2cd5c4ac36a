import BenoStreamDB.Manifest.Iceberg
import BenoStreamDB.Table.Rows

/-!
# Deleted positions of a data file

`load_merged_deletes` of `reader/delete.rs` with `filter_map_to_bitmap` of `iceberg/delete.rs`: the
positions that the delete files of an entry take out of its data file. A delete file is attached to
every data file of its partition; the records of a position-delete file are then matched by the
ends of the paths, a deletion vector and a plain bitmap are not matched at all.

Which rows a snapshot takes out of which file is `Recorded`, from the records of its manifests. The
reader agrees with it, whatever the delete files hold, exactly for the snapshots of
`DeletesScoped`: `deletesExact_iff`. That is for caches which hold what the delete files hold,
`Coherent`; `Reader.DeleteLoading` is about those which an earlier error has left behind.
-/

namespace BenoStreamDB

/-! ### Delete files -/

/-- Which delete files can be read, and which data files the position-delete files name. -/
structure DeleteLayout where
  /-- Whether a Parquet or Avro file can be read and decoded. -/
  readable : Path → Bool
  /-- Whether a plain bitmap can be. -/
  bitmapReadable : Path → Bool
  /-- Whether a byte range of a Puffin file can be read and decoded. -/
  vectorReadable : Path → ℤ → ℤ → Bool
  names : Path → List Path

/-- What the delete files hold. -/
structure DeleteContents where
  /-- The positions in a position-delete file for one of the data files it names. -/
  positions : Path → Path → Finset ℤ := fun _ _ => ∅
  bitmap : Path → Finset ℕ := fun _ => ∅
  vector : Path → ℤ → ℤ → Finset ℕ := fun _ _ _ => ∅

/-- What the caches hold: the merged positions that the reader of an entry finds, in its own cell or
in `POSITION_DELETE_CACHE`, and the maps of delete files in `FULL_DELETE_FILE_CACHE`. -/
structure CachedDeletes where
  merged : ManifestEntry → Option (Finset ℕ) := fun _ => none
  files : Path → Option (List (Path × Finset ℤ)) := fun _ => none

/-- A Parquet or Avro file; every other position-delete file is a plain bitmap. -/
def isDeleteTable (path : Path) : Bool :=
  ".parquet".toList.isSuffixOf path || ".avro".toList.isSuffixOf path

/-- `filter_map_to_bitmap`. -/
def filterMapToBitmap (fullMap : List (Path × Finset ℤ)) (target : Path) : Finset ℕ :=
  (fullMap.filter fun x => namesTarget x.1 target).foldl
    (fun bm x => bm ∪ (x.2.filter fun pos => 0 ≤ pos ∧ pos < 2 ^ 32).image Int.toNat) ∅

namespace DeleteLayout

variable (F : DeleteLayout) (C : DeleteContents) (K : CachedDeletes) (rootUri : Path)

/-- `fetch_deletes_map`; an error is logged and taken for an empty file. -/
def fetchDeletesMap (path : Path) : List (Path × Finset ℤ) :=
  match K.files path with
  | some m => m
  | none =>
    if F.readable path then (F.names path).map fun fp => (fp, C.positions path fp) else []

/-- The positions that one delete file takes out of the data file `target`. -/
def fileDeletes (target : Path) (d : DeleteFile) : Finset ℕ :=
  match d.content with
  | .position =>
    if isDeleteTable (resolveDeletePath rootUri d.filePath) then
      filterMapToBitmap (F.fetchDeletesMap C K (resolveDeletePath rootUri d.filePath)) target
    else if F.bitmapReadable d.filePath then C.bitmap d.filePath else ∅
  | .deletionVector puffin offset size =>
    if F.vectorReadable puffin offset size then C.vector puffin offset size else ∅
  | .equality _ => ∅

/-- `load_merged_deletes` for an entry, each path of its delete list once. -/
def loadMergedDeletes (e : ManifestEntry) : Finset ℕ :=
  match K.merged e with
  | some bm => bm
  | none =>
    (e.deleteFiles.foldl pushNewDelete []).foldl
      (fun bm d => bm ∪ F.fileDeletes C K rootUri (stripScheme e.filePath) d) ∅

end DeleteLayout

/-- The caches hold what a reader without them would read. -/
structure CachedDeletes.Coherent (K : CachedDeletes) (F : DeleteLayout) (C : DeleteContents)
    (rootUri : Path) : Prop where
  merged : ∀ e bm, K.merged e = some bm → bm = F.loadMergedDeletes C {} rootUri e
  files : ∀ path m, K.files path = some m → m = F.fetchDeletesMap C {} path

/-! ### What a reader takes out -/

lemma mem_foldl_union {α β : Type} [DecidableEq β] (f : α → Finset β) (xs : List α)
    (s : Finset β) (b : β) :
    b ∈ xs.foldl (fun s x => s ∪ f x) s ↔ b ∈ s ∨ ∃ x ∈ xs, b ∈ f x := by
  induction xs generalizing s with
  | nil => simp
  | cons x xs ih => simp [ih, or_assoc]

lemma mem_filterMapToBitmap {fullMap : List (Path × Finset ℤ)} {target : Path} {n : ℕ} :
    n ∈ filterMapToBitmap fullMap target ↔
      n < 2 ^ 32 ∧ ∃ x ∈ fullMap, namesTarget x.1 target = true ∧ (n : ℤ) ∈ x.2 := by
  rw [filterMapToBitmap, mem_foldl_union]
  simp only [Finset.notMem_empty, false_or, List.mem_filter, Finset.mem_image, Finset.mem_filter]
  constructor
  · rintro ⟨x, ⟨hx, hname⟩, pos, ⟨hpos, h0, hlt⟩, rfl⟩
    refine ⟨by omega, x, hx, hname, ?_⟩
    rwa [Int.toNat_of_nonneg h0]
  · rintro ⟨hlt, x, hx, hname, hpos⟩
    exact ⟨x, ⟨hx, hname⟩, n, ⟨hpos, by omega, by exact_mod_cast hlt⟩, Int.toNat_natCast n⟩

namespace DeleteLayout

variable {F : DeleteLayout} {C : DeleteContents} {K : CachedDeletes} {rootUri : Path}
  {target : Path} {d : DeleteFile} {n : ℕ}

/-- Nothing is cached before the first call. -/
lemma coherent_empty : CachedDeletes.Coherent {} F C rootUri where
  merged _ _ h := by cases h
  files _ _ h := by cases h

lemma fetchDeletesMap_of_coherent (h : K.Coherent F C rootUri) (path : Path) :
    F.fetchDeletesMap C K path = F.fetchDeletesMap C {} path := by
  cases hfile : K.files path with
  | some m => rw [← h.files path m hfile, fetchDeletesMap, hfile]
  | none => simp only [fetchDeletesMap, hfile]

/-- Coherent caches are not seen. -/
lemma loadMergedDeletes_of_coherent (h : K.Coherent F C rootUri) (e : ManifestEntry) :
    F.loadMergedDeletes C K rootUri e = F.loadMergedDeletes C {} rootUri e := by
  have hfile (d : DeleteFile) : F.fileDeletes C K rootUri (stripScheme e.filePath) d =
      F.fileDeletes C {} rootUri (stripScheme e.filePath) d := by
    simp only [fileDeletes, fetchDeletesMap_of_coherent h]
  cases hmerged : K.merged e with
  | some bm => rw [← h.merged e bm hmerged, loadMergedDeletes, hmerged]
  | none => simp only [loadMergedDeletes, hmerged, hfile]

/-- Delete files with different paths are all read. -/
lemma mem_loadMergedDeletes_of_nodup {e : ManifestEntry}
    (h : (e.deleteFiles.map DeleteFile.filePath).Nodup) :
    n ∈ F.loadMergedDeletes C {} rootUri e ↔
      ∃ d ∈ e.deleteFiles, n ∈ F.fileDeletes C {} rootUri (stripScheme e.filePath) d := by
  rw [loadMergedDeletes, mem_foldl_union]
  simp only [Finset.notMem_empty, false_or]
  refine exists_congr fun d => and_congr_left fun _ => ⟨fun hd => ?_, fun hd => ?_⟩
  · simpa using mem_or_mem_of_mem_pushed hd
  · exact mem_pushed hd (by simp) fun d' hd' hpath => List.inj_on_of_nodup_map h hd' hd hpath

lemma mem_fileDeletes_table (hcontent : d.content = .position)
    (htable : isDeleteTable (resolveDeletePath rootUri d.filePath) = true) :
    n ∈ F.fileDeletes C {} rootUri target d ↔
      n < 2 ^ 32 ∧ F.readable (resolveDeletePath rootUri d.filePath) = true ∧
        ∃ fp ∈ F.names (resolveDeletePath rootUri d.filePath), namesTarget fp target = true ∧
          (n : ℤ) ∈ C.positions (resolveDeletePath rootUri d.filePath) fp := by
  simp only [fileDeletes, hcontent, htable, if_true, mem_filterMapToBitmap, fetchDeletesMap]
  split_ifs with hread <;> simp [hread]

lemma mem_fileDeletes_bitmap (hcontent : d.content = .position)
    (htable : isDeleteTable (resolveDeletePath rootUri d.filePath) = false) :
    n ∈ F.fileDeletes C {} rootUri target d ↔
      F.bitmapReadable d.filePath = true ∧ n ∈ C.bitmap d.filePath := by
  simp only [fileDeletes, hcontent, htable, Bool.false_eq_true, if_false]
  split_ifs with hread <;> simp [hread]

lemma mem_fileDeletes_vector {puffin : Path} {offset size : ℤ}
    (hcontent : d.content = .deletionVector puffin offset size) :
    n ∈ F.fileDeletes C {} rootUri target d ↔
      F.vectorReadable puffin offset size = true ∧ n ∈ C.vector puffin offset size := by
  simp only [fileDeletes, hcontent]
  split_ifs with hread <;> simp [hread]

end DeleteLayout

namespace Lake

variable {ρ : Type} (L : Lake ρ)

/-- Position-delete files that can all be read. -/
def layout : DeleteLayout where
  readable _ := true
  bitmapReadable _ := true
  vectorReadable _ _ _ := true
  names path := (L.marks path).map Prod.fst

def contents : DeleteContents where
  positions path fp := (((L.marks path).filter (·.1 = fp)).map fun m => (m.2 : ℤ)).toFinset

/-- A reader takes out what is marked if the delete files are Parquet or Avro files with different
paths below the table. -/
lemma mem_deleted_iff {rootUri : Path} {e : ManifestEntry} {n : ℕ} (hn : n < 2 ^ 32)
    (hnodup : (e.deleteFiles.map DeleteFile.filePath).Nodup)
    (h : ∀ d ∈ e.deleteFiles, d.content = .position ∧ isDeleteTable d.filePath = true ∧
      resolveDeletePath rootUri d.filePath = d.filePath) :
    n ∈ L.deleted e ↔ n ∈ L.layout.loadMergedDeletes L.contents {} rootUri e := by
  rw [DeleteLayout.mem_loadMergedDeletes_of_nodup hnodup, deleted, List.mem_flatMap]
  refine exists_congr fun d => ?_
  rw [List.mem_filter, and_assoc]
  refine and_congr_right fun hd => ?_
  obtain ⟨hcontent, htable, hpath⟩ := h d hd
  rw [DeleteLayout.mem_fileDeletes_table hcontent (hpath.symm ▸ htable), hpath]
  constructor
  · rintro ⟨-, hmem⟩
    obtain ⟨m, hm, rfl⟩ := List.mem_map.1 hmem
    obtain ⟨hmark, hname⟩ := List.mem_filter.1 hm
    exact ⟨hn, rfl, m.1, List.mem_map_of_mem hmark, hname, by simpa [contents] using hmark⟩
  · rintro ⟨-, -, fp, -, hname, hmark⟩
    have hmark : (fp, n) ∈ L.marks d.filePath := by simpa [contents] using hmark
    exact ⟨by simp [hcontent], List.mem_map.2 ⟨_, List.mem_filter.2 ⟨hmark, hname⟩, rfl⟩⟩

end Lake

/-! ### Snapshots -/

/-- The data files of a snapshot, and the records of its delete files. -/
structure Snapshot where
  spec : PartitionSpec := {}
  records : List IcebergDataFile
  entries : EntryMap

/-- The object that holds the delete file of a record. -/
def IcebergDataFile.object (rootUri : Path) (df : IcebergDataFile) : Path :=
  resolveDeletePath rootUri (relativizeFilePath rootUri df.filePath)

namespace Snapshot

variable (rootUri : Path) (s : Snapshot)

def deletes : List DeleteFile := snapshotDeletes rootUri s.spec s.records

/-- The table that readers see. -/
def table : TableModel := { entries := s.entries, deletes := s.deletes rootUri }

/-- The row `n` of the data file is deleted by the snapshot: a record of a position-delete file
names the file and the position, or a deletion vector that was written for the file has the
position. -/
inductive Recorded (F : DeleteLayout) (C : DeleteContents) (file : Path) (n : ℕ) : Prop
  | position (df : IcebergDataFile) (hmem : df ∈ s.records) (hdelete : df.content ≠ 0)
      (hcontent : df.deleteContent = .position) (htable : isDeleteTable (df.object rootUri) = true)
      (fp : Path) (hfp : fp ∈ F.names (df.object rootUri))
      (hname : relativizeFilePath rootUri fp = file)
      (hpos : (n : ℤ) ∈ C.positions (df.object rootUri) fp)
  | vector (df : IcebergDataFile) (hmem : df ∈ s.records) (puffin : Path) (offset size : ℤ)
      (hcontent : df.deleteContent = .deletionVector puffin offset size)
      (ref : Path) (href : df.referencedDataFile = some ref)
      (hname : relativizeFilePath rootUri ref = file) (hpos : n ∈ C.vector puffin offset size)

/-- A reader takes exactly the deleted rows out of every data file; `rows` are the sizes of the
data files. -/
def DeletesExact (F : DeleteLayout) (rows : Path → ℕ) (C : DeleteContents) (K : CachedDeletes) :
    Prop :=
  ∀ file e, (s.table rootUri).view.get? file = some e → ∀ n < rows file,
    n ∈ F.loadMergedDeletes C K rootUri e ↔ s.Recorded rootUri F C file n

/-- The delete files listed for the partition of a data file. -/
def ListedFor (e : ManifestEntry) (d : DeleteFile) : Prop :=
  d ∈ s.deletes rootUri ∧ d.partitionValues = e.partitionValues

/-- What the delete files of the partition of a data file have to be like. -/
structure Scoped (F : DeleteLayout) (rows : Path → ℕ) (e : ManifestEntry) : Prop where
  /-- A recorded path with the same end is the path of the file. -/
  matched : ∀ d, s.ListedFor rootUri e d → d.content = .position →
    isDeleteTable (resolveDeletePath rootUri d.filePath) = true →
    F.readable (resolveDeletePath rootUri d.filePath) = true →
    ∀ fp ∈ F.names (resolveDeletePath rootUri d.filePath),
      namesTarget fp (stripScheme e.filePath) = true → relativizeFilePath rootUri fp = e.filePath
  /-- There are no plain bitmaps. -/
  bitmaps : ∀ d, s.ListedFor rootUri e d → d.content = .position →
    isDeleteTable (resolveDeletePath rootUri d.filePath) = false →
    F.bitmapReadable d.filePath = false
  /-- A deletion vector was written for the file. -/
  vectors : ∀ d, s.ListedFor rootUri e d → ∀ puffin offset size,
    d.content = .deletionVector puffin offset size → F.vectorReadable puffin offset size = true →
    ∃ df ∈ s.records, df.deleteContent = .deletionVector puffin offset size ∧
      ∃ ref, df.referencedDataFile = some ref ∧ relativizeFilePath rootUri ref = e.filePath
  /-- A position-delete file that names the file is readable and listed for its partition. -/
  named : ∀ df ∈ s.records, df.content ≠ 0 → df.deleteContent = .position →
    isDeleteTable (df.object rootUri) = true →
    ∀ fp ∈ F.names (df.object rootUri), relativizeFilePath rootUri fp = e.filePath →
      rows e.filePath ≤ 2 ^ 32 ∧ F.readable (df.object rootUri) = true ∧
        ∃ d, s.ListedFor rootUri e d ∧ d.content = .position ∧
          resolveDeletePath rootUri d.filePath = df.object rootUri
  /-- A deletion vector for the file is readable and listed for its partition. -/
  written : ∀ df ∈ s.records, ∀ puffin offset size,
    df.deleteContent = .deletionVector puffin offset size →
    ∀ ref, df.referencedDataFile = some ref → relativizeFilePath rootUri ref = e.filePath →
      F.vectorReadable puffin offset size = true ∧
        ∃ d, s.ListedFor rootUri e d ∧ d.content = .deletionVector puffin offset size

/-- The condition for every data file that has rows. -/
def DeletesScoped (F : DeleteLayout) (rows : Path → ℕ) : Prop :=
  ∀ file e, s.entries.get? file = some e → 0 < rows file → s.Scoped rootUri F rows e

end Snapshot

/-! ### Scoped snapshots are exact -/

lemma stripScheme_suffix (p : Path) : stripScheme p <:+ p := by
  by_cases h : fileScheme <+: p
  · obtain ⟨q, rfl⟩ := h
    rw [stripScheme_append]
    exact List.suffix_append fileScheme q
  · rw [stripScheme_of_not_fileScheme h]

/-- A path that resolves to the file is matched. -/
lemma namesTarget_of_relativize {rootUri fp file : Path}
    (h : relativizeFilePath rootUri fp = file) : namesTarget fp (stripScheme file) = true := by
  have hsuffix : stripScheme (stripScheme file) <:+ stripScheme fp := by
    have hself : stripScheme (stripScheme fp) <:+ stripScheme fp := stripScheme_suffix _
    rw [relativizeFilePath] at h
    split_ifs at h
    · exact h ▸ hself
    · cases hdrop : (stripScheme fp).dropPrefix? (trimEndSlashes (stripScheme rootUri)) with
      | none =>
        simp only [hdrop] at h
        exact h ▸ hself
      | some rest =>
        simp only [hdrop] at h
        obtain ⟨q, hq, -⟩ := List.dropPrefix?_eq_some_iff.1 hdrop
        have hrest : file <:+ stripScheme fp := by
          rw [← h, hq]
          exact (List.dropWhile_suffix _).trans (List.suffix_append q rest)
        exact ((stripScheme_suffix _).trans (stripScheme_suffix _)).trans hrest
  simp [namesTarget, List.isSuffixOf_iff_suffix, hsuffix]

lemma nodup_pushed {xs acc : List DeleteFile} (h : (acc.map DeleteFile.filePath).Nodup) :
    ((xs.foldl pushNewDelete acc).map DeleteFile.filePath).Nodup := by
  induction xs generalizing acc with
  | nil => exact h
  | cons x xs ih =>
    apply ih
    rw [pushNewDelete]
    split_ifs with hx
    · exact h
    · simpa [List.nodup_append] using ⟨h, fun d hd heq => hx (List.mem_map.2 ⟨d, hd, heq⟩)⟩

namespace Snapshot

variable {rootUri : Path} {s : Snapshot} {F : DeleteLayout} {C : DeleteContents}
  {rows : Path → ℕ} {e : ManifestEntry} {d : DeleteFile} {n : ℕ}

/-- A listed delete file is the one of a record. -/
lemma exists_record (h : d ∈ s.deletes rootUri) :
    ∃ df ∈ s.records, df.content ≠ 0 ∧ df.listedAs rootUri s.spec = d := by
  rcases mem_or_mem_of_mem_pushed h with h | h
  · cases h
  · obtain ⟨o, ho, hd⟩ := List.mem_flatMap.1 h
    simp only [liveObjects, List.filter_map, List.map_map, List.mem_map, List.mem_filter,
      Function.comp_apply] at ho
    obtain ⟨df, ⟨hdf, -⟩, rfl⟩ := ho
    refine ⟨df, hdf, ?_⟩
    by_cases h0 : df.content = 0
    · simp [IcebergDataFile.convertIcebergToObject, h0, IcebergDataFile.toManifestEntry] at hd
    · simp only [IcebergDataFile.convertIcebergToObject, h0, if_false, List.mem_singleton] at hd
      exact ⟨h0, hd.symm⟩

/-- What a reader of an entry takes out. -/
lemma mem_loadMergedDeletes {file : Path} (he : (s.table rootUri).view.get? file = some e) :
    n ∈ F.loadMergedDeletes C {} rootUri e ↔
      ∃ d, s.ListedFor rootUri e d ∧ n ∈ F.fileDeletes C {} rootUri (stripScheme e.filePath) d := by
  obtain ⟨e₀, -, rfl⟩ := Option.map_eq_some_iff.1 (TableModel.get?_view ▸ he)
  have hunique : ((deletesOf (s.deletes rootUri) e₀.partitionValues).map
      DeleteFile.filePath).Nodup :=
    (nodup_pushed (by simp)).sublist (List.filter_sublist.map _)
  rw [DeleteLayout.mem_loadMergedDeletes_of_nodup hunique]
  simp [deletesOf, ListedFor, table, eq_comm]

lemma Scoped.recorded (h : s.Scoped rootUri F rows e) (hd : s.ListedFor rootUri e d)
    (hn : n ∈ F.fileDeletes C {} rootUri (stripScheme e.filePath) d) :
    s.Recorded rootUri F C e.filePath n := by
  cases hcontent : d.content with
  | equality ids => simp [DeleteLayout.fileDeletes, hcontent] at hn
  | deletionVector puffin offset size =>
    obtain ⟨hread, hn⟩ := (DeleteLayout.mem_fileDeletes_vector hcontent).1 hn
    obtain ⟨df, hdf, hdv, ref, href, hname⟩ := h.vectors d hd puffin offset size hcontent hread
    exact .vector df hdf puffin offset size hdv ref href hname hn
  | position =>
    cases htable : isDeleteTable (resolveDeletePath rootUri d.filePath) with
    | false =>
      obtain ⟨hread, -⟩ := (DeleteLayout.mem_fileDeletes_bitmap hcontent htable).1 hn
      simp [h.bitmaps d hd hcontent htable] at hread
    | true =>
      obtain ⟨-, hread, fp, hfp, hname, hpos⟩ :=
        (DeleteLayout.mem_fileDeletes_table hcontent htable).1 hn
      obtain ⟨df, hdf, hdelete, rfl⟩ := exists_record hd.1
      exact .position df hdf hdelete hcontent htable fp hfp
        (h.matched _ hd hcontent htable hread fp hfp hname) hpos

lemma Scoped.mem_fileDeletes (h : s.Scoped rootUri F rows e) (hn : n < rows e.filePath)
    (hrec : s.Recorded rootUri F C e.filePath n) :
    ∃ d, s.ListedFor rootUri e d ∧ n ∈ F.fileDeletes C {} rootUri (stripScheme e.filePath) d := by
  cases hrec with
  | position df hmem hdelete hcontent htable fp hfp hname hpos =>
    obtain ⟨hrows, hread, d, hd, hdpos, hobject⟩ :=
      h.named df hmem hdelete hcontent htable fp hfp hname
    refine ⟨d, hd, (DeleteLayout.mem_fileDeletes_table hdpos (hobject ▸ htable)).2 ?_⟩
    rw [hobject]
    exact ⟨hn.trans_le hrows, hread, fp, hfp, namesTarget_of_relativize hname, hpos⟩
  | vector df hmem puffin offset size hcontent ref href hname hpos =>
    obtain ⟨hread, d, hd, hdv⟩ := h.written df hmem puffin offset size hcontent ref href hname
    exact ⟨d, hd, (DeleteLayout.mem_fileDeletes_vector hdv).2 ⟨hread, hpos⟩⟩

lemma deletesExact_of_scoped (h : s.DeletesScoped rootUri F rows) :
    s.DeletesExact rootUri F rows C {} := by
  intro file e he n hn
  obtain rfl : e.filePath = file := KeyedMap.key_of_get? he
  obtain ⟨e₀, he₀, rfl⟩ := Option.map_eq_some_iff.1 (TableModel.get?_view ▸ he)
  have hscoped : s.Scoped rootUri F rows e₀ := h _ e₀ he₀ (Nat.zero_lt_of_lt hn)
  rw [mem_loadMergedDeletes he]
  constructor
  · rintro ⟨d, hd, hmem⟩
    exact hscoped.recorded hd hmem
  · exact fun hrec => hscoped.mem_fileDeletes hn hrec

/-! ### Exact snapshots are scoped

Each part of the condition is necessary because of a content that has one position in one place. -/

/-- The position `n` of one data file in one position-delete file, and nothing else. -/
def onePosition (object fp : Path) (n : ℕ) : DeleteContents where
  positions p q := if p = object ∧ q = fp then {(n : ℤ)} else ∅

/-- The first row in one plain bitmap, and nothing else. -/
def oneBitmap (path : Path) : DeleteContents where
  bitmap p := if p = path then {0} else ∅

/-- The first row in one deletion vector, and nothing else. -/
def oneVector (puffin : Path) (offset size : ℤ) : DeleteContents where
  vector p o z := if p = puffin ∧ o = offset ∧ z = size then {0} else ∅

lemma recorded_onePosition {object fp file : Path} {k : ℕ} :
    s.Recorded rootUri F (onePosition object fp k) file n ↔
      n = k ∧ fp ∈ F.names object ∧ relativizeFilePath rootUri fp = file ∧
        isDeleteTable object = true ∧ ∃ df ∈ s.records, df.content ≠ 0 ∧
          df.deleteContent = .position ∧ df.object rootUri = object := by
  constructor
  · rintro (⟨df, hmem, hdelete, hcontent, htable, fp', hfp, hname, hpos⟩ |
      ⟨_, _, _, _, _, _, _, _, _, hpos⟩)
    · simp only [onePosition] at hpos
      split_ifs at hpos with heq
      · obtain ⟨hobject, rfl⟩ := heq
        refine ⟨by simpa using hpos, hobject ▸ hfp, hname, hobject ▸ htable, ?_⟩
        exact ⟨df, hmem, hdelete, hcontent, hobject⟩
      · simp at hpos
    · simp [onePosition] at hpos
  · rintro ⟨rfl, hfp, hname, htable, df, hmem, hdelete, hcontent, rfl⟩
    exact .position df hmem hdelete hcontent htable fp hfp hname (by simp [onePosition])

lemma not_recorded_oneBitmap {path file : Path} :
    ¬ s.Recorded rootUri F (oneBitmap path) file n := by
  rintro (⟨_, _, _, _, _, _, _, _, hpos⟩ | ⟨_, _, _, _, _, _, _, _, _, hpos⟩) <;>
    simp [oneBitmap] at hpos

lemma recorded_oneVector {puffin file : Path} {offset size : ℤ} :
    s.Recorded rootUri F (oneVector puffin offset size) file n ↔
      n = 0 ∧ ∃ df ∈ s.records, df.deleteContent = .deletionVector puffin offset size ∧
        ∃ ref, df.referencedDataFile = some ref ∧ relativizeFilePath rootUri ref = file := by
  constructor
  · rintro (⟨_, _, _, _, _, _, _, _, hpos⟩ |
      ⟨df, hmem, p, o, z, hcontent, ref, href, hname, hpos⟩)
    · simp [oneVector] at hpos
    · simp only [oneVector] at hpos
      split_ifs at hpos with heq
      · obtain ⟨rfl, rfl, rfl⟩ := heq
        exact ⟨by simpa using hpos, df, hmem, hcontent, ref, href, hname⟩
      · simp at hpos
  · rintro ⟨rfl, df, hmem, hcontent, ref, href, hname⟩
    exact .vector df hmem puffin offset size hcontent ref href hname (by simp [oneVector])

/-- If a reader takes out what is recorded then the listed delete files have it. -/
lemma recorded_iff (h : ∀ C, s.DeletesExact rootUri F rows C {}) {file : Path}
    (he : s.entries.get? file = some e) (hn : n < rows file) : s.Recorded rootUri F C file n ↔
      ∃ d, s.ListedFor rootUri e d ∧ n ∈ F.fileDeletes C {} rootUri (stripScheme file) d := by
  obtain rfl : e.filePath = file := KeyedMap.key_of_get? he
  have hview : (s.table rootUri).view.get? e.filePath =
      some { e with deleteFiles := deletesOf (s.deletes rootUri) e.partitionValues } := by
    simp [TableModel.get?_view, table, he]
  rw [← h C _ _ hview n hn]
  exact mem_loadMergedDeletes hview

/-- The one position of a position-delete file is taken out by that file. -/
lemma of_mem_fileDeletes_onePosition {object fp target : Path} {k : ℕ}
    (hmem : n ∈ F.fileDeletes (onePosition object fp k) {} rootUri target d) :
    n < 2 ^ 32 ∧ d.content = .position ∧ resolveDeletePath rootUri d.filePath = object ∧
      F.readable object = true := by
  cases hcontent : d.content with
  | equality ids => simp [DeleteLayout.fileDeletes, hcontent] at hmem
  | deletionVector puffin offset size =>
    simp [DeleteLayout.mem_fileDeletes_vector hcontent, onePosition] at hmem
  | position =>
    cases htable : isDeleteTable (resolveDeletePath rootUri d.filePath) with
    | false => simp [DeleteLayout.mem_fileDeletes_bitmap hcontent htable, onePosition] at hmem
    | true =>
      obtain ⟨hlt, hread, fp', -, -, hpos⟩ :=
        (DeleteLayout.mem_fileDeletes_table hcontent htable).1 hmem
      simp only [onePosition] at hpos
      split_ifs at hpos with heq
      · exact ⟨hlt, rfl, heq.1, heq.1 ▸ hread⟩
      · simp at hpos

/-- The one position of a deletion vector is taken out by that vector. -/
lemma of_mem_fileDeletes_oneVector {puffin target : Path} {offset size : ℤ}
    (hmem : n ∈ F.fileDeletes (oneVector puffin offset size) {} rootUri target d) :
    d.content = .deletionVector puffin offset size ∧
      F.vectorReadable puffin offset size = true := by
  cases hcontent : d.content with
  | equality ids => simp [DeleteLayout.fileDeletes, hcontent] at hmem
  | position =>
    cases htable : isDeleteTable (resolveDeletePath rootUri d.filePath) with
    | false => simp [DeleteLayout.mem_fileDeletes_bitmap hcontent htable, oneVector] at hmem
    | true => simp [DeleteLayout.mem_fileDeletes_table hcontent htable, oneVector] at hmem
  | deletionVector p o z =>
    obtain ⟨hread, hpos⟩ := (DeleteLayout.mem_fileDeletes_vector hcontent).1 hmem
    simp only [oneVector] at hpos
    split_ifs at hpos with heq
    · obtain ⟨rfl, rfl, rfl⟩ := heq
      exact ⟨rfl, hread⟩
    · simp at hpos

lemma scoped_of_deletesExact (h : ∀ C, s.DeletesExact rootUri F rows C {}) :
    s.DeletesScoped rootUri F rows := by
  intro file e he hrows
  obtain rfl : e.filePath = file := KeyedMap.key_of_get? he
  refine ⟨?_, ?_, ?_, ?_, ?_⟩
  · intro d hd hcontent htable hread fp hfp hname
    have hmem : 0 ∈ F.fileDeletes (onePosition (resolveDeletePath rootUri d.filePath) fp 0) {}
        rootUri (stripScheme e.filePath) d :=
      (DeleteLayout.mem_fileDeletes_table hcontent htable).2
        ⟨by norm_num, hread, fp, hfp, hname, by simp [onePosition]⟩
    exact (recorded_onePosition.1 ((recorded_iff h he hrows).2 ⟨d, hd, hmem⟩)).2.2.1
  · intro d hd hcontent htable
    by_contra hread
    have hmem : 0 ∈ F.fileDeletes (oneBitmap d.filePath) {} rootUri (stripScheme e.filePath) d :=
      (DeleteLayout.mem_fileDeletes_bitmap hcontent htable).2
        ⟨by simpa using hread, by simp [oneBitmap]⟩
    exact not_recorded_oneBitmap ((recorded_iff h he hrows).2 ⟨d, hd, hmem⟩)
  · intro d hd puffin offset size hcontent hread
    have hmem : 0 ∈ F.fileDeletes (oneVector puffin offset size) {} rootUri
        (stripScheme e.filePath) d :=
      (DeleteLayout.mem_fileDeletes_vector hcontent).2 ⟨hread, by simp [oneVector]⟩
    exact (recorded_oneVector.1 ((recorded_iff h he hrows).2 ⟨d, hd, hmem⟩)).2
  · intro df hdf hdelete hcontent htable fp hfp hname
    have hrec (k : ℕ) : s.Recorded rootUri F (onePosition (df.object rootUri) fp k) e.filePath k :=
      recorded_onePosition.2 ⟨rfl, hfp, hname, htable, df, hdf, hdelete, hcontent, rfl⟩
    refine ⟨?_, ?_⟩
    · -- a position that does not fit into 32 bits is not taken out
      by_contra hlarge
      obtain ⟨d, -, hmem⟩ := (recorded_iff h he (by omega)).1 (hrec (2 ^ 32))
      exact absurd (of_mem_fileDeletes_onePosition hmem).1 (lt_irrefl _)
    · obtain ⟨d, hd, hmem⟩ := (recorded_iff h he hrows).1 (hrec 0)
      obtain ⟨-, hdpos, hobject, hread⟩ := of_mem_fileDeletes_onePosition hmem
      exact ⟨hread, d, hd, hdpos, hobject⟩
  · intro df hdf puffin offset size hcontent ref href hname
    have hrec : s.Recorded rootUri F (oneVector puffin offset size) e.filePath 0 :=
      recorded_oneVector.2 ⟨rfl, df, hdf, hcontent, ref, href, hname⟩
    obtain ⟨d, hd, hmem⟩ := (recorded_iff h he hrows).1 hrec
    obtain ⟨hdv, hread⟩ := of_mem_fileDeletes_oneVector hmem
    exact ⟨hread, d, hd, hdv⟩

/-- The deletes of a snapshot hide exactly the rows of the files they were made for, whatever the
delete files hold and whichever coherent caches there are, iff the snapshot is scoped. -/
theorem deletesExact_iff (rootUri : Path) (s : Snapshot) (F : DeleteLayout) (rows : Path → ℕ) :
    (∀ C K, K.Coherent F C rootUri → s.DeletesExact rootUri F rows C K) ↔
      s.DeletesScoped rootUri F rows := by
  constructor
  · exact fun h => scoped_of_deletesExact fun C => h C {} DeleteLayout.coherent_empty
  · intro h C K hK file e he n hn
    rw [DeleteLayout.loadMergedDeletes_of_coherent hK]
    exact deletesExact_of_scoped h file e he n hn

/-! A table with the data files `a.parquet` and `x/a.parquet` and one position-delete file, for the
first row of `x/a.parquet`. -/

def nestedSnapshot : Snapshot where
  records := [{ content := 1, filePath := "d.parquet".toList }]
  entries := KeyedMap.ofList
    [{ filePath := "a.parquet".toList }, { filePath := "x/a.parquet".toList }]

def nestedLayout : DeleteLayout where
  readable _ := true
  bitmapReadable _ := true
  vectorReadable _ _ _ := true
  names p := if p = "d.parquet".toList then ["x/a.parquet".toList] else []

/-- The row of `a.parquet` disappears with the deleted row of `x/a.parquet`, with empty caches. -/
theorem not_deletesExact_nested :
    ¬ nestedSnapshot.DeletesExact sampleRoot.uri nestedLayout (fun _ => 1)
      (onePosition "d.parquet".toList "x/a.parquet".toList 0) {} := by
  intro h
  have hview : (nestedSnapshot.table sampleRoot.uri).view.get? "a.parquet".toList =
      some { filePath := "a.parquet".toList
             deleteFiles := nestedSnapshot.deletes sampleRoot.uri } := by decide
  have hrec := (h _ _ hview 0 Nat.one_pos).1 (by decide)
  exact absurd (recorded_onePosition.1 hrec).2.2.1 (by decide)

end Snapshot

end BenoStreamDB

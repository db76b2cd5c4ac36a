import BenoStreamDB.Reader.FlatSearch
import BenoStreamDB.Reader.RowGroupPruning

/-!
# Positions and numbers in exact vector search

The two flat searches number the rows of a scan that has left the removed rows out, and the fetch
reads the numbers as positions in the file. They agree exactly for the rows that have no removed row
before them: in the file for `vector_search_flat`, in their row group for the search with row-group
pruning, whose scan also misplaces the deleted positions. `searchesExact_iff` says when both
searches and the fetch are exact for all distances.

The rows are named by their positions in the file.
-/

namespace BenoStreamDB

structure SearchedSegment where
  columns : List ParquetColumn
  groups : List RowGroupMeta
  file : StoredFile ℕ
  rowGroups_file : file.rowGroups = positionFile (groups.map RowGroupMeta.numRows)
  /-- The row at a position. -/
  row : ℕ → Row
  /-- `load_merged_deletes` -/
  deleted : List ℕ
  /-- The row passes the equality deletes. -/
  keeps : Row → Bool
  /-- The batches of a scan, which the equality deletes may leave empty. -/
  scanBatches : List ℕ → List (List ℕ)
  flatten_scanBatches : ∀ rows, (scanBatches rows).flatten = rows
  parse : ParseF64
  semantics : Semantics
  /-- `evaluate_expr` fails on the batch. -/
  fails : List Row → Expr → Bool
  nullBit : Row → Expr → Bool

namespace SearchedSegment

variable {φ δ : Type} [LinearOrder δ] (s : SearchedSegment)

def sizes : List ℕ := s.groups.map RowGroupMeta.numRows

def scan (rowGroups : Option (List ℕ)) : List ℕ :=
  streamRowGroups s.file.rowGroups s.deleted (fun p => s.keeps (s.row p)) rowGroups

def filter (e : Expr) : RowFilter ℕ where
  value p := s.semantics.eval (s.row p) e
  nullBit p := s.nullBit (s.row p) e
  fails batch := s.fails (batch.map s.row) e

/-- `prune_row_groups` -/
def surviving (e : Expr) : List ℕ :=
  pruneRowGroups s.parse s.columns s.groups e.extractAndConditions

def flat (D : DistanceFn φ ℕ δ) (query : VectorValue φ) (k : ℕ) (allowed : Option (List ℕ)) :
    Except String (List (ℕ × δ)) :=
  vectorSearchFlat D (s.scanBatches (s.scan none)) query k allowed

def pruned (D : DistanceFn φ ℕ δ) (query : VectorValue φ) (k : ℕ) (e : Expr) :
    Except String (List (ℕ × δ)) :=
  vectorSearchFlatWithRowGroupPruning D (s.filter e) s.sizes (s.surviving e)
    (fun i => s.scanBatches (s.scan (some [i]))) query k

def fetch (D : DistanceFn φ ℕ δ) (filter : Option (RowFilter ℕ)) (scoreOnly : Bool)
    (hits : List (ℕ × δ)) : Except String (List (FetchedBatch ℕ δ)) :=
  fetchRowsWithDistances s.file s.deleted D.max filter scoreOnly hits

/-! ### Exact searches -/

def live (p : ℕ) : Bool :=
  decide (p < s.sizes.sum) && !s.deleted.contains p && s.keeps (s.row p)

/-- The live rows that the filter lets through. -/
def wanted (ok : ℕ → Bool) : List ℕ :=
  (List.range s.sizes.sum).filter fun p => s.live p && ok p

/-- A search among `rows` found `k` of them (or all), none of the others is strictly closer, and the
fetch pairs each with its row and the distance of that row. -/
def Exact (D : DistanceFn φ ℕ δ) (query : VectorValue φ) (k : ℕ) (filter : Option (RowFilter ℕ))
    (rows : List ℕ) (found : Except String (List (ℕ × δ))) : Prop :=
  ∃ hits, found = .ok hits ∧
    TopK.NoneCloser Prod.snd k (rows.map fun p => (p, D.dist query p)) hits ∧
    ∀ scoreOnly, ∃ out, s.fetch D filter scoreOnly hits = .ok out ∧
      (out.flatMap FetchedBatch.pairs).Perm
        (hits.map fun h => (if scoreOnly then none else some h.1, D.dist query h.1))

/-- Both searches are exact, whatever the distances of the rows are. -/
def SearchesExact (query : VectorValue φ) (e : Expr) (allowed : Option (List ℕ)) : Prop :=
  ∀ (δ : Type) [LinearOrder δ] (D : DistanceFn φ ℕ δ) (k : ℕ),
    s.Exact D query k none (s.wanted (inBitmap allowed)) (s.flat D query k allowed) ∧
    s.Exact D query k (some (s.filter e)) (s.wanted (s.filter e).satisfied) (s.pruned D query k e)

/-- Every row that a search ranks is wanted and has its position as its number, and every wanted row
is scanned under its position. -/
structure InPlace (e : Expr) (allowed : Option (List ℕ)) : Prop where
  flat : ∀ r ∈ (s.scan none).zipIdx, inBitmap allowed (r.2 % 2 ^ 32) = true →
    r.1 = r.2 ∧ inBitmap allowed r.1 = true
  flat_live : ∀ p ∈ s.wanted (inBitmap allowed), p < 2 ^ 32 ∧ (p, p) ∈ (s.scan none).zipIdx
  pruned : ∀ i ∈ s.surviving e,
    ∀ r ∈ batchRows (groupOffset s.sizes i) (s.scanBatches (s.scan (some [i]))),
      ((s.filter e).fails r.1 || (s.filter e).bit r.2.1) = true →
        r.2.1 = r.2.2 ∧ r.2.1 ∈ s.wanted (s.filter e).satisfied
  pruned_live : ∀ p ∈ s.wanted (s.filter e).satisfied, p < 2 ^ 32 ∧
    ∃ i ∈ s.surviving e, (p, p) ∈ (s.scan (some [i])).zipIdx (groupOffset s.sizes i)

lemma rows_file : s.file.rows = List.range s.sizes.sum := by
  rw [StoredFile.rows, s.rowGroups_file, flatten_positionFile]
  rfl

lemma mem_wanted {ok : ℕ → Bool} {p : ℕ} :
    p ∈ s.wanted ok ↔ (p < s.sizes.sum ∧ p ∉ s.deleted ∧ s.keeps (s.row p) = true) ∧
      ok p = true := by
  simp [wanted, live]
  tauto

lemma nodup_wanted (ok : ℕ → Bool) : (s.wanted ok).Nodup := List.nodup_range.filter _

/-! ### Searches that rank a list of rows -/

section Ranked

variable {s} {query : VectorValue φ} {filter : Option (RowFilter ℕ)} {ok : ℕ → Bool}
  {ranked : List (ℕ × ℕ)}

/-- The ranked rows, with their numbers, are the wanted rows with their positions. -/
lemma Exact.of_perm {D : DistanceFn φ ℕ δ} {k : ℕ} {hits : List (ℕ × δ)}
    (hfilter : ∀ f ∈ filter, ∀ p, ok p = true → f.satisfied p = true)
    (hfirst : TopK.IsFirst Prod.snd k (ranked.map fun r => (r.2, D.dist query r.1)) hits)
    (hperm : ranked.Perm ((s.wanted ok).map fun p => (p, p)))
    (hfits : ∀ p ∈ s.wanted ok, p < 2 ^ 32) :
    s.Exact D query k filter (s.wanted ok) (.ok hits) := by
  have hrows : (ranked.map fun r => (r.2, D.dist query r.1)).Perm
      ((s.wanted ok).map fun p => (p, D.dist query p)) := by
    refine (hperm.map _).trans (.of_eq ?_)
    rw [List.map_map]
    rfl
  obtain ⟨rest, hsplit, -⟩ := (hfirst.perm hrows).noneCloser
  have hmem : ∀ h ∈ hits, h.1 ∈ s.wanted ok ∧ h.2 = D.dist query h.1 := by
    intro h hh
    obtain ⟨p, hp, rfl⟩ := List.mem_map.1 (hsplit.mem_iff.2 (List.mem_append_left rest hh))
    exact ⟨hp, rfl⟩
  have hnodup : (hits.map Prod.fst).Nodup := by
    have hall := (hsplit.map Prod.fst).nodup_iff.1 (by
      rw [List.map_map]
      exact (List.map_id _).symm ▸ s.nodup_wanted ok)
    rw [List.map_append] at hall
    exact hall.of_append_left
  refine ⟨hits, rfl, (hfirst.perm hrows).noneCloser, fun scoreOnly => ?_⟩
  have hrow : ∀ h ∈ hits, s.file.rows[h.1]? = some h.1 := by
    intro h hh
    rw [s.rows_file, List.getElem?_range (s.mem_wanted.1 (hmem h hh).1).1.1]
  obtain ⟨out, hok, hpairs⟩ := fetchRowsWithDistances_of_live hnodup
    (fun h hh => hfits h.1 (hmem h hh).1) s.file s.deleted D.max filter scoreOnly
    (by
      intro h hh
      obtain ⟨⟨hlt, hdeleted, -⟩, -⟩ := s.mem_wanted.1 (hmem h hh).1
      exact ⟨by rwa [s.rows_file, List.length_range], hdeleted⟩)
    (by
      intro f hf h hh row hrow'
      obtain rfl := Option.some.inj ((hrow h hh).symm.trans hrow')
      exact hfilter f hf h.1 (s.mem_wanted.1 (hmem h hh).1).2)
  refine ⟨out, hok, hpairs.trans (.of_eq (List.map_congr_left fun h hh => ?_))⟩
  rw [hrow h hh, (hmem h hh).2]

/-- Distances by which no two rows are equally close. -/
def byPosition (φ : Type) : DistanceFn φ ℕ ℕ where
  dist _ p := p
  givesUp _ _ _ := false
  lt_of_givesUp _ _ _ h := Bool.noConfusion h
  max := 0

/-- With the positions as distances and all rows asked for, an exact search has ranked the wanted
rows under their positions. -/
lemma Exact.perm {k : ℕ} {hits : List (ℕ × ℕ)}
    (hexact : s.Exact (byPosition φ) query k filter (s.wanted ok) (.ok hits))
    (hfirst : TopK.IsFirst Prod.snd k
      (ranked.map fun r => (r.2, (byPosition φ).dist query r.1)) hits)
    (hk : (s.wanted ok).length + ranked.length ≤ k) :
    ranked.Perm ((s.wanted ok).map fun p => (p, p)) ∧ ∀ p ∈ s.wanted ok, p < 2 ^ 32 := by
  obtain ⟨hits', heq, hclose, hfetch⟩ := hexact
  obtain rfl := Except.ok.inj heq
  have hwanted := hclose.perm (by rw [List.length_map]; omega)
  have hranked := hfirst.noneCloser.perm (by rw [List.length_map]; omega)
  refine ⟨?_, fun p hp => ?_⟩
  · have hswap := (hranked.trans hwanted.symm).map Prod.swap
    rw [List.map_map, List.map_map] at hswap
    have hid : ranked.map (Prod.swap ∘ fun r => (r.2, (byPosition φ).dist query r.1)) = ranked :=
      List.map_id ranked
    rwa [hid] at hswap
  · obtain ⟨out, hok, hpairs⟩ := hfetch false
    have hhit : (p, p) ∈ hits := hwanted.mem_iff.1 (List.mem_map.2 ⟨p, hp, rfl⟩)
    have hpair := hpairs.mem_iff.2 (List.mem_map.2 ⟨_, hhit, rfl⟩)
    obtain ⟨id, hid, hrow⟩ := mem_of_fetchRowsWithDistances hok hpair
    rw [s.rows_file] at hrow
    obtain ⟨-, rfl⟩ := List.getElem?_eq_some_iff.1 hrow
    rwa [List.getElem_range]

end Ranked

/-! ### The scans -/

lemma rowGroups_flatten : s.file.rowGroups.flatten = List.range s.sizes.sum := s.rows_file

lemma scan_none_sublist : (s.scan none).Sublist (List.range s.sizes.sum) := by
  simp only [scan, streamRowGroups, s.rowGroups_flatten]
  refine List.filter_sublist.trans ?_
  split_ifs
  · exact .refl _
  · exact Selection.apply_sublist _ _

lemma rowGroup_file (i : ℕ) : [i].flatMap (fun i => s.file.rowGroups.getD i []) =
    List.range' (groupOffset s.sizes i) (s.sizes.getD i 0) := by
  rw [s.rowGroups_file, flatMap_positionFile, scannedPositions, List.flatMap_singleton]
  rfl

lemma scan_some_sublist (i : ℕ) :
    (s.scan (some [i])).Sublist (List.range' (groupOffset s.sizes i) (s.sizes.getD i 0)) := by
  simp only [scan, streamRowGroups, s.rowGroup_file]
  refine List.filter_sublist.trans ?_
  split_ifs
  · exact .refl _
  · exact Selection.apply_sublist _ _

/-- The scan of the segment hands out live rows. -/
lemma live_of_mem_scan {p : ℕ} (h : p ∈ s.scan none) :
    p < s.sizes.sum ∧ p ∉ s.deleted ∧ s.keeps (s.row p) = true := by
  refine ⟨List.mem_range.1 (s.scan_none_sublist.subset h), ?_, ?_⟩
  · simp only [scan, streamRowGroups, s.rowGroups_flatten] at h
    have h := List.mem_of_mem_filter h
    split_ifs at h with hempty
    · simp [List.isEmpty_iff.1 hempty]
    · rw [apply_bitmapToRowSelection (List.pairwise_lt_range.filter _)] at h
      obtain ⟨n, hn, hp⟩ := List.mem_filterMap.1 h
      obtain ⟨-, rfl⟩ := List.getElem?_eq_some_iff.1 hp
      rw [List.getElem_range]
      simpa using (List.mem_filter.1 hn).2
  · exact (List.mem_filter.1 h).2

/-! ### The ranked rows -/

/-- The rows that `vector_search_flat` ranks. -/
def flatRanked (allowed : Option (List ℕ)) : List (ℕ × ℕ) :=
  (s.scan none).zipIdx.filter fun r => inBitmap allowed (r.2 % 2 ^ 32)

/-- The rows that `vector_search_flat_with_row_group_pruning` ranks. -/
def groupRanked (e : Expr) : List (ℕ × ℕ) :=
  groupCandidates (s.filter e) s.sizes (s.surviving e) fun i => s.scanBatches (s.scan (some [i]))

lemma exists_flat (D : DistanceFn φ ℕ δ) (v : List φ) (k : ℕ) (allowed : Option (List ℕ)) :
    ∃ hits, s.flat D (.float32 v) k allowed = .ok hits ∧ TopK.IsFirst Prod.snd k
      ((s.flatRanked allowed).map fun r => (r.2, D.dist (.float32 v) r.1)) hits := by
  have hfound := isFirst_vectorSearchFlat D (s.scanBatches (s.scan none)) v k allowed
  rwa [s.flatten_scanBatches] at hfound

lemma exists_pruned (D : DistanceFn φ ℕ δ) (v : List φ) (k : ℕ) (e : Expr) :
    ∃ hits, s.pruned D (.float32 v) k e = .ok hits ∧ TopK.IsFirst Prod.snd k
      ((s.groupRanked e).map fun r => (r.2, D.dist (.float32 v) r.1)) hits :=
  isFirst_vectorSearchFlatWithRowGroupPruning D _ _ _ _ v k

section Perm

variable {s} {ranked : List (ℕ × ℕ)} {rows : List ℕ}

lemma mem_diagonal {x : ℕ × ℕ} : x ∈ rows.map (fun p => (p, p)) ↔ x.1 = x.2 ∧ x.1 ∈ rows := by
  rw [List.mem_map]
  constructor
  · rintro ⟨p, hp, rfl⟩
    exact ⟨rfl, hp⟩
  · rintro ⟨heq, hx⟩
    exact ⟨x.1, hx, Prod.ext rfl heq⟩

/-- Distinct rows with their numbers are the wanted rows with their positions. -/
lemma perm_diagonal_iff (hranked : (ranked.map Prod.fst).Nodup) (hrows : rows.Nodup) :
    ranked.Perm (rows.map fun p => (p, p)) ↔
      (∀ r ∈ ranked, r.1 = r.2 ∧ r.1 ∈ rows) ∧ ∀ p ∈ rows, (p, p) ∈ ranked := by
  rw [List.perm_ext_iff_of_nodup (List.Nodup.of_map _ hranked)
    (hrows.map fun _ _ h => congrArg Prod.fst h)]
  simp only [mem_diagonal]
  constructor
  · exact fun h => ⟨fun r => (h r).1, fun p hp => (h (p, p)).2 ⟨rfl, hp⟩⟩
  · rintro ⟨hmem, hall⟩ r
    refine ⟨hmem r, ?_⟩
    rintro ⟨heq, hr⟩
    have hr' := hall r.1 hr
    rwa [show (r.1, r.1) = r from Prod.ext rfl heq] at hr'

end Perm

lemma nodup_flatRanked (allowed : Option (List ℕ)) :
    ((s.flatRanked allowed).map Prod.fst).Nodup := by
  refine List.Nodup.sublist (List.filter_sublist.map _) ?_
  rw [List.zipIdx_map_fst]
  exact List.nodup_range.sublist s.scan_none_sublist

lemma flatRanked_perm_iff (allowed : Option (List ℕ)) :
    ((s.flatRanked allowed).Perm ((s.wanted (inBitmap allowed)).map fun p => (p, p)) ∧
      ∀ p ∈ s.wanted (inBitmap allowed), p < 2 ^ 32) ↔
    (∀ r ∈ (s.scan none).zipIdx, inBitmap allowed (r.2 % 2 ^ 32) = true →
      r.1 = r.2 ∧ inBitmap allowed r.1 = true) ∧
    ∀ p ∈ s.wanted (inBitmap allowed), p < 2 ^ 32 ∧ (p, p) ∈ (s.scan none).zipIdx := by
  rw [perm_diagonal_iff (s.nodup_flatRanked allowed) (s.nodup_wanted _)]
  constructor
  · rintro ⟨⟨hmem, hall⟩, hfits⟩
    refine ⟨fun r hr hbit => ?_, fun p hp => ⟨hfits p hp, (List.mem_filter.1 (hall p hp)).1⟩⟩
    obtain ⟨heq, hwanted⟩ := hmem r (List.mem_filter.2 ⟨hr, hbit⟩)
    exact ⟨heq, (s.mem_wanted.1 hwanted).2⟩
  · rintro ⟨hmem, hall⟩
    refine ⟨⟨fun r hr => ?_, fun p hp => ?_⟩, fun p hp => (hall p hp).1⟩
    · obtain ⟨hr, hbit⟩ := List.mem_filter.1 hr
      obtain ⟨heq, hallowed⟩ := hmem r hr hbit
      exact ⟨heq, s.mem_wanted.2 ⟨s.live_of_mem_scan (List.fst_mem_of_mem_zipIdx hr), hallowed⟩⟩
    · obtain ⟨hlt, hscan⟩ := hall p hp
      refine List.mem_filter.2 ⟨hscan, ?_⟩
      rw [Nat.mod_eq_of_lt hlt]
      exact (s.mem_wanted.1 hp).2

lemma mem_groupRanked {e : Expr} {r : ℕ × ℕ} : r ∈ s.groupRanked e ↔ ∃ i ∈ s.surviving e,
    ∃ batch, (batch, r) ∈ batchRows (groupOffset s.sizes i) (s.scanBatches (s.scan (some [i]))) ∧
      ((s.filter e).fails batch || (s.filter e).bit r.1) = true := by
  simp only [groupRanked, groupCandidates, List.mem_flatMap, List.mem_map, List.mem_filter]
  constructor
  · rintro ⟨i, hi, ⟨batch, r'⟩, ⟨hr, hbit⟩, rfl⟩
    exact ⟨i, hi, batch, hr, hbit⟩
  · rintro ⟨i, hi, batch, hr, hbit⟩
    exact ⟨i, hi, (batch, r), ⟨hr, hbit⟩, rfl⟩

lemma map_snd_scanned (i : ℕ) :
    (batchRows (groupOffset s.sizes i) (s.scanBatches (s.scan (some [i])))).map Prod.snd =
      (s.scan (some [i])).zipIdx (groupOffset s.sizes i) := by
  rw [map_snd_batchRows, s.flatten_scanBatches]

/-- The row groups have no rows in common. -/
lemma nodup_groupRanked (e : Expr) : ((s.groupRanked e).map Prod.fst).Nodup := by
  have hpart : ∀ surviving : List ℕ,
      ((groupCandidates (s.filter e) s.sizes surviving fun i =>
        s.scanBatches (s.scan (some [i]))).map Prod.fst).Sublist
          (scannedPositions s.sizes surviving) := by
    intro surviving
    induction surviving with
    | nil => exact .slnil
    | cons i surviving ih =>
      rw [groupCandidates, List.flatMap_cons, List.map_append, scannedPositions,
        List.flatMap_cons]
      refine List.Sublist.append ?_ ih
      refine ((List.filter_sublist.map Prod.snd).map Prod.fst).trans ?_
      rw [s.map_snd_scanned, List.zipIdx_map_fst]
      exact s.scan_some_sublist i
  exact (nodup_scannedPositions (List.nodup_range.filter _)).sublist (hpart (s.surviving e))

lemma groupRanked_perm_iff (e : Expr) :
    ((s.groupRanked e).Perm ((s.wanted (s.filter e).satisfied).map fun p => (p, p)) ∧
      ∀ p ∈ s.wanted (s.filter e).satisfied, p < 2 ^ 32) ↔
    (∀ i ∈ s.surviving e,
      ∀ r ∈ batchRows (groupOffset s.sizes i) (s.scanBatches (s.scan (some [i]))),
        ((s.filter e).fails r.1 || (s.filter e).bit r.2.1) = true →
          r.2.1 = r.2.2 ∧ r.2.1 ∈ s.wanted (s.filter e).satisfied) ∧
    ∀ p ∈ s.wanted (s.filter e).satisfied, p < 2 ^ 32 ∧
      ∃ i ∈ s.surviving e, (p, p) ∈ (s.scan (some [i])).zipIdx (groupOffset s.sizes i) := by
  rw [perm_diagonal_iff (s.nodup_groupRanked e) (s.nodup_wanted _)]
  constructor
  · rintro ⟨⟨hmem, hall⟩, hfits⟩
    refine ⟨fun i hi r hr hbit => hmem r.2 (s.mem_groupRanked.2 ⟨i, hi, r.1, hr, hbit⟩),
      fun p hp => ⟨hfits p hp, ?_⟩⟩
    obtain ⟨i, hi, batch, hr, -⟩ := s.mem_groupRanked.1 (hall p hp)
    refine ⟨i, hi, ?_⟩
    rw [← s.map_snd_scanned]
    exact List.mem_map.2 ⟨_, hr, rfl⟩
  · rintro ⟨hmem, hall⟩
    refine ⟨⟨fun r hr => ?_, fun p hp => ?_⟩, fun p hp => (hall p hp).1⟩
    · obtain ⟨i, hi, batch, hr, hbit⟩ := s.mem_groupRanked.1 hr
      exact hmem i hi (batch, r) hr hbit
    · obtain ⟨-, i, hi, hscan⟩ := hall p hp
      rw [← s.map_snd_scanned] at hscan
      obtain ⟨⟨batch, r⟩, hr, rfl⟩ := List.mem_map.1 hscan
      have hbit := RowFilter.bit_of_satisfied (s.mem_wanted.1 hp).2
      exact s.mem_groupRanked.2 ⟨i, hi, batch, hr, by rw [hbit, Bool.or_true]⟩

/-- Both searches and the fetch are exact for all distances exactly if the query is a vector of
32-bit numbers and the rows are in place. -/
theorem searchesExact_iff (query : VectorValue φ) (e : Expr) (allowed : Option (List ℕ)) :
    s.SearchesExact query e allowed ↔
      (∃ v, query = .float32 v) ∧ s.InPlace e allowed := by
  constructor
  · intro h
    have hvector : ∃ v, query = .float32 v := by
      obtain ⟨⟨hits, hok, -⟩, -⟩ := h ℕ (byPosition φ) 1
      cases query with
      | float32 v => exact ⟨v, rfl⟩
      | binary bytes => cases hok
      | sparse v => cases hok
    obtain ⟨v, rfl⟩ := hvector
    have hflat : (s.flatRanked allowed).Perm ((s.wanted (inBitmap allowed)).map fun p => (p, p)) ∧
        ∀ p ∈ s.wanted (inBitmap allowed), p < 2 ^ 32 := by
      let k := (s.wanted (inBitmap allowed)).length + (s.flatRanked allowed).length
      obtain ⟨hits, hok, hfirst⟩ := s.exists_flat (byPosition φ) v k allowed
      have hexact := (h ℕ (byPosition φ) k).1
      rw [hok] at hexact
      exact hexact.perm hfirst le_rfl
    have hgroups : (s.groupRanked e).Perm
        ((s.wanted (s.filter e).satisfied).map fun p => (p, p)) ∧
          ∀ p ∈ s.wanted (s.filter e).satisfied, p < 2 ^ 32 := by
      let k := (s.wanted (s.filter e).satisfied).length + (s.groupRanked e).length
      obtain ⟨hits, hok, hfirst⟩ := s.exists_pruned (byPosition φ) v k e
      have hexact := (h ℕ (byPosition φ) k).2
      rw [hok] at hexact
      exact hexact.perm hfirst le_rfl
    obtain ⟨hflat, hflat_live⟩ := (s.flatRanked_perm_iff allowed).1 hflat
    obtain ⟨hpruned, hpruned_live⟩ := (s.groupRanked_perm_iff e).1 hgroups
    exact ⟨⟨v, rfl⟩, hflat, hflat_live, hpruned, hpruned_live⟩
  · rintro ⟨⟨v, rfl⟩, hplace⟩ δ _ D k
    obtain ⟨hflat, hfits⟩ := (s.flatRanked_perm_iff allowed).2 ⟨hplace.flat, hplace.flat_live⟩
    obtain ⟨hgroups, hfits'⟩ := (s.groupRanked_perm_iff e).2 ⟨hplace.pruned, hplace.pruned_live⟩
    constructor
    · obtain ⟨hits, hok, hfirst⟩ := s.exists_flat D v k allowed
      rw [hok]
      exact Exact.of_perm (fun f hf => nomatch hf) hfirst hflat hfits
    · obtain ⟨hits, hok, hfirst⟩ := s.exists_pruned D v k e
      rw [hok]
      refine Exact.of_perm (fun f hf p hp => ?_) hfirst hgroups hfits'
      obtain rfl := Option.some.inj hf
      exact hp

/-! ### Segments in which nothing was removed -/

lemma mem_zipIdx_range' {first n : ℕ} {r : ℕ × ℕ} :
    r ∈ (List.range' first n).zipIdx first ↔ r.1 = r.2 ∧ r.1 ∈ List.range' first n := by
  obtain ⟨p, j⟩ := r
  rw [List.mk_mem_zipIdx_iff_le_and_getElem?_sub, List.mem_range'_1]
  constructor
  · rintro ⟨hle, hget⟩
    obtain ⟨hlt, hp⟩ := List.getElem?_eq_some_iff.1 hget
    rw [List.getElem_range'] at hp
    rw [List.length_range'] at hlt
    simp only
    omega
  · rintro ⟨heq, hle, hlt⟩
    simp only at heq hle hlt
    subst heq
    refine ⟨hle, ?_⟩
    rw [List.getElem?_range' (by omega)]
    congr 1
    omega

/-- The rows of a segment without deletes are in place if the filter can be evaluated and the
pruning keeps the row groups with rows that satisfy it. -/
theorem inPlace_of_keeps {e : Expr} (allowed : Option (List ℕ)) (hdeleted : s.deleted = [])
    (hkeeps : ∀ p < s.sizes.sum, s.keeps (s.row p) = true) (hfits : s.sizes.sum ≤ 2 ^ 32)
    (hfails : ∀ batch, s.fails batch e = false) (hnull : ∀ row, s.nullBit row e = false)
    (hpruned : ∀ i < s.sizes.length,
      ∀ p ∈ List.range' (groupOffset s.sizes i) (s.sizes.getD i 0),
        (s.filter e).satisfied p = true → i ∈ s.surviving e) :
    s.InPlace e allowed := by
  have hall : s.scan none = List.range' 0 s.sizes.sum := by
    simp only [scan, streamRowGroups, s.rowGroups_flatten, hdeleted, List.isEmpty_nil, if_true,
      List.range_eq_range']
    exact List.filter_eq_self.2 fun p hp => hkeeps p (by simpa using hp)
  have hgroup : ∀ i < s.sizes.length,
      s.scan (some [i]) = List.range' (groupOffset s.sizes i) (s.sizes.getD i 0) := by
    intro i hi
    simp only [scan, streamRowGroups, s.rowGroup_file, hdeleted, List.isEmpty_nil, if_true]
    exact List.filter_eq_self.2 fun p hp => hkeeps p (lt_sum_iff.2 ⟨i, hi, hp⟩)
  have hlt : ∀ i ∈ s.surviving e, i < s.sizes.length := by
    intro i hi
    have := List.mem_range.1 (List.mem_of_mem_filter hi)
    rwa [sizes, List.length_map]
  have hsatisfied : ∀ p, (s.filter e).bit p = true → (s.filter e).satisfied p = true := by
    intro p hp
    rw [RowFilter.bit, show (s.filter e).nullBit p = false from hnull _] at hp
    cases hvalue : (s.filter e).value p with
    | none => simp [hvalue] at hp
    | some b => simpa [RowFilter.satisfied, hvalue] using hp
  constructor
  · intro r hr hbit
    rw [hall] at hr
    obtain ⟨heq, hr⟩ := mem_zipIdx_range'.1 hr
    have hr : r.1 < s.sizes.sum := by simpa using hr
    rw [← heq, Nat.mod_eq_of_lt (hr.trans_le hfits)] at hbit
    exact ⟨heq, hbit⟩
  · intro p hp
    have hp := (s.mem_wanted.1 hp).1.1
    refine ⟨hp.trans_le hfits, ?_⟩
    rw [hall]
    exact mem_zipIdx_range'.2 ⟨rfl, by simpa using hp⟩
  · intro i hi r hr hbit
    have hscan := List.mem_map_of_mem (f := Prod.snd) hr
    rw [s.map_snd_scanned, hgroup i (hlt i hi)] at hscan
    obtain ⟨heq, hmem⟩ := mem_zipIdx_range'.1 hscan
    have hp : r.2.1 < s.sizes.sum := lt_sum_iff.2 ⟨i, hlt i hi, hmem⟩
    rw [show (s.filter e).fails r.1 = false from hfails _, Bool.false_or] at hbit
    refine ⟨heq, s.mem_wanted.2 ⟨⟨hp, ?_, hkeeps _ hp⟩, hsatisfied _ hbit⟩⟩
    rw [hdeleted]
    exact List.not_mem_nil
  · intro p hp
    obtain ⟨⟨hp, -⟩, hok⟩ := s.mem_wanted.1 hp
    obtain ⟨i, hi, hmem⟩ := lt_sum_iff.1 hp
    refine ⟨hp.trans_le hfits, i, hpruned i hi p hmem hok, ?_⟩
    rw [hgroup i hi]
    exact mem_zipIdx_range'.2 ⟨rfl, hmem⟩

end SearchedSegment

/-! ### A deleted row before the nearest one -/

/-- A reader that returns all rows in one batch. -/
def oneBatch (rows : List ℕ) : List (List ℕ) := if rows = [] then [] else [rows]

lemma flatten_oneBatch (rows : List ℕ) : (oneBatch rows).flatten = rows := by
  rw [oneBatch]
  split_ifs with h
  · exact h.symm
  · simp

lemma ne_nil_of_mem_oneBatch (rows : List ℕ) : ∀ batch ∈ oneBatch rows, batch ≠ [] := by
  rw [oneBatch]
  split_ifs with h
  · simp
  · simpa using h

/-- A file of one row group with three rows. -/
def threeRowFile : StoredFile ℕ where
  rowGroups := [[0, 1, 2]]
  size := 100
  batches := oneBatch
  flatten_batches := flatten_oneBatch
  ne_nil_of_mem_batches := ne_nil_of_mem_oneBatch
  outOfBounds := ""

/-- The first of three rows is deleted. -/
def firstDeleted : SearchedSegment where
  columns := []
  groups := [⟨3, fun _ => none⟩]
  file := threeRowFile
  rowGroups_file := rfl
  row _ := fun _ => none
  deleted := [0]
  keeps _ := true
  scanBatches := oneBatch
  flatten_scanBatches := flatten_oneBatch
  parse _ := none
  semantics := ⟨fun _ c => some c, fun _ _ => none, fun _ _ => none, fun _ _ => none⟩
  fails _ _ := false
  nullBit _ _ := false

/-- The nearest live row, at position 1, is found under the number 0, and the fetch takes it for the
deleted row. -/
theorem not_searchesExact_firstDeleted :
    firstDeleted.flat (SearchedSegment.byPosition ℕ) (.float32 [0]) 1 none = .ok [(0, 1)] ∧
    firstDeleted.fetch (SearchedSegment.byPosition ℕ) none false [(0, 1)] = .ok [] ∧
    ¬ firstDeleted.SearchesExact (.float32 [0] : VectorValue ℕ) (.literal (some true)) none := by
  have hflat : firstDeleted.flat (SearchedSegment.byPosition ℕ) (.float32 [0]) 1 none =
      .ok [(0, 1)] := by rfl
  refine ⟨hflat, rfl, fun h => ?_⟩
  obtain ⟨⟨hits, hok, ⟨rest, hperm, -⟩, -⟩, -⟩ := h ℕ (SearchedSegment.byPosition ℕ) 1
  rw [hflat] at hok
  obtain rfl := Except.ok.inj hok
  have hmem := hperm.mem_iff.2 (List.mem_append_left rest List.mem_cons_self)
  revert hmem
  decide

end BenoStreamDB

import BenoStreamDB.Foundations.Failing
import BenoStreamDB.Foundations.TopK
import BenoStreamDB.Query.Values
import BenoStreamDB.Reader.RowGroups

/-!
# Exact vector search

`vector_search_flat`, `vector_search_flat_with_row_group_pruning` and `fetch_rows_with_distances` of
`reader/scan.rs`. Both searches number the rows that a scan hands to them, batch after batch, and
keep the nearest: `isFirst_vectorSearchFlat`, `isFirst_vectorSearchFlatWithRowGroupPruning`. The
fetch takes the numbers for positions in the file: `fetchRowsWithDistances_of_live`.

The distance is a linear order on the rows that a query vector gives. A column that the file does
not have, or that holds no lists, gives no rows in a search; this case is left out, and so are the
schema mapping and the projection of the fetched rows, which act on one row at a time.
-/

namespace BenoStreamDB

section Search

variable {ρ δ φ : Type} [LinearOrder δ]

structure DistanceFn (φ ρ δ : Type) [LinearOrder δ] where
  dist : VectorValue φ → ρ → δ
  /-- `l2_distance_squared_early_exit` stops at a partial sum above the threshold. -/
  givesUp : VectorValue φ → ρ → δ → Bool
  lt_of_givesUp : ∀ v row threshold, givesUp v row threshold = true → threshold < dist v row
  /-- `f32::MAX` -/
  max : δ

/-- A filter, as `evaluate_expr` evaluates it on batches. -/
structure RowFilter (ρ : Type) where
  value : ρ → Option Bool
  /-- The bit that a mask holds in a slot that is NULL. -/
  nullBit : ρ → Bool
  fails : List ρ → Bool

namespace RowFilter

/-- `BooleanArray::value`, which does not look at the validity of the slot. -/
def bit (f : RowFilter ρ) (row : ρ) : Bool := (f.value row).getD (f.nullBit row)

def satisfied (f : RowFilter ρ) (row : ρ) : Bool := f.value row == some true

lemma bit_of_satisfied {f : RowFilter ρ} {row : ρ} (h : f.satisfied row = true) :
    f.bit row = true := by
  have hvalue : f.value row = some true := by simpa [satisfied] using h
  simp [bit, hvalue]

end RowFilter

/-! ### The searches -/

/-- The rows of batches, each with its batch and its number; the numbers start at `offset`. -/
def batchRows (offset : ℕ) : List (List ρ) → List (List ρ × ρ × ℕ)
  | [] => []
  | batch :: batches =>
    ((batch.zipIdx offset).map fun r => (batch, r)) ++ batchRows (offset + batch.length) batches

def inBitmap (allowed : Option (List ℕ)) (id : ℕ) : Bool := allowed.all fun bm => bm.contains id

/-- One row of `vector_search_flat`. -/
def visitRow (D : DistanceFn φ ρ δ) (query : VectorValue φ) (k : ℕ) (allowed : Option (List ℕ))
    (topk : List (ℕ × δ)) (r : ρ × ℕ) : List (ℕ × δ) :=
  if inBitmap allowed (r.2 % 2 ^ 32) then
    let threshold := if k ≤ topk.length then topk.getLast?.map Prod.snd else none
    if threshold.any (D.givesUp query r.1) then topk
    else TopK.insertBounded Prod.snd k (r.2, D.dist query r.1) topk
  else topk

/-- `vector_search_flat` over the batches of `stream_all`. -/
def vectorSearchFlat (D : DistanceFn φ ρ δ) (batches : List (List ρ)) (query : VectorValue φ)
    (k : ℕ) (allowed : Option (List ℕ)) : Except String (List (ℕ × δ)) :=
  if k = 0 then .ok []
  else
    match query with
    | .float32 v =>
      .ok (((batchRows 0 batches).map Prod.snd).foldl (visitRow D (.float32 v) k allowed) [])
    | _ => .error "Flat search only supports Float32 vectors currently"

/-- `vector_search_flat_with_row_group_pruning`, with the row groups that survive the pruning and
the batches of the scan of a row group. A batch on which the filter fails is searched whole. -/
def vectorSearchFlatWithRowGroupPruning (D : DistanceFn φ ρ δ) (filter : RowFilter ρ)
    (sizes surviving : List ℕ) (batches : ℕ → List (List ρ)) (query : VectorValue φ) (k : ℕ) :
    Except String (List (ℕ × δ)) :=
  if surviving.isEmpty then .ok []
  else
    match query with
    | .float32 v =>
      let rgMatches := surviving.flatMap fun i =>
        ((batchRows (groupOffset sizes i) (batches i)).filter fun r =>
          filter.fails r.1 || filter.bit r.2.1).map fun r => (r.2.2, D.dist (.float32 v) r.2.1)
      .ok ((rgMatches.insertionSort fun a b => a.2 ≤ b.2).take k)
    | _ => .error "Flat search with row-group pruning only supports Float32 vectors"

lemma map_snd_batchRows (offset : ℕ) (batches : List (List ρ)) :
    (batchRows offset batches).map Prod.snd = batches.flatten.zipIdx offset := by
  induction batches generalizing offset with
  | nil => rfl
  | cons batch batches ih =>
    rw [batchRows, List.map_append, ih, List.map_map, List.flatten_cons, List.zipIdx_append]
    congr 1
    exact List.map_id _

/-- A row that the distance function gives up would not have entered the list. -/
lemma visitRow_eq (D : DistanceFn φ ρ δ) (query : VectorValue φ) (k : ℕ)
    (allowed : Option (List ℕ)) (topk : List (ℕ × δ)) (r : ρ × ℕ) :
    visitRow D query k allowed topk r =
      if inBitmap allowed (r.2 % 2 ^ 32) then
        TopK.insertBounded Prod.snd k (r.2, D.dist query r.1) topk
      else topk := by
  rw [visitRow]
  refine if_congr Iff.rfl ?_ rfl
  by_cases hlen : k ≤ topk.length
  · cases hlast : topk.getLast? with
    | none => simp
    | some last =>
      by_cases hup : D.givesUp query r.1 last.2 = true
      · have hlt := D.lt_of_givesUp query r.1 last.2 hup
        simp [TopK.insertBounded, hlen, hlast, hup, not_lt.2 hlt.le, not_lt.2 hlen]
      · simp [hlen, hup]
  · simp [hlen]

/-- The flat search finds the first of the rows that the bitmap lets through, by the numbers that
they have in the scan. -/
lemma isFirst_vectorSearchFlat (D : DistanceFn φ ρ δ) (batches : List (List ρ)) (v : List φ)
    (k : ℕ) (allowed : Option (List ℕ)) :
    ∃ hits, vectorSearchFlat D batches (.float32 v) k allowed = .ok hits ∧
      TopK.IsFirst Prod.snd k
        ((batches.flatten.zipIdx.filter fun r => inBitmap allowed (r.2 % 2 ^ 32)).map
          fun r => (r.2, D.dist (.float32 v) r.1)) hits := by
  by_cases hk : k = 0
  · subst hk
    obtain ⟨s, hperm, hordered⟩ := TopK.exists_ordered (Prod.snd : ℕ × δ → δ)
      ((batches.flatten.zipIdx.filter fun r => inBitmap allowed (r.2 % 2 ^ 32)).map
        fun r => (r.2, D.dist (.float32 v) r.1))
    exact ⟨[], rfl, s, hperm, hordered, by simp⟩
  · refine ⟨_, by rw [vectorSearchFlat, if_neg hk], ?_⟩
    have hvisit : visitRow D (.float32 v) k allowed = fun topk r =>
        if inBitmap allowed (r.2 % 2 ^ 32) then
          TopK.insertBounded Prod.snd k (r.2, D.dist (.float32 v) r.1) topk
        else topk := by
      funext topk r
      exact visitRow_eq D _ k allowed topk r
    have hfirst := TopK.isFirst_foldl_insertBounded Prod.snd k
      ((batches.flatten.zipIdx.filter fun r => inBitmap allowed (r.2 % 2 ^ 32)).map
        fun r => (r.2, D.dist (.float32 v) r.1))
    rw [List.foldl_map] at hfirst
    rw [map_snd_batchRows, hvisit, ← List.foldl_filter]
    exact hfirst

/-- The rows that the search of the row groups ranks, with their numbers. -/
def groupCandidates (filter : RowFilter ρ) (sizes surviving : List ℕ)
    (batches : ℕ → List (List ρ)) : List (ρ × ℕ) :=
  surviving.flatMap fun i =>
    ((batchRows (groupOffset sizes i) (batches i)).filter fun r =>
      filter.fails r.1 || filter.bit r.2.1).map Prod.snd

lemma isFirst_vectorSearchFlatWithRowGroupPruning (D : DistanceFn φ ρ δ) (filter : RowFilter ρ)
    (sizes surviving : List ℕ) (batches : ℕ → List (List ρ)) (v : List φ) (k : ℕ) :
    ∃ hits, vectorSearchFlatWithRowGroupPruning D filter sizes surviving batches (.float32 v) k =
        .ok hits ∧
      TopK.IsFirst Prod.snd k
        ((groupCandidates filter sizes surviving batches).map
          fun r => (r.2, D.dist (.float32 v) r.1)) hits := by
  by_cases hempty : surviving = []
  · subst hempty
    exact ⟨[], rfl, [], .nil, .nil, by simp⟩
  · refine ⟨_, by rw [vectorSearchFlatWithRowGroupPruning, if_neg (by simpa using hempty)], ?_⟩
    refine ⟨_, ?_, ?_, rfl⟩
    · refine (List.perm_insertionSort _ _).trans (.of_eq ?_)
      simp only [groupCandidates, List.map_flatMap, List.map_map]
      rfl
    · have : IsTrans (ℕ × δ) fun a b => a.2 ≤ b.2 := ⟨fun _ _ _ => le_trans⟩
      have : Std.Total fun a b : ℕ × δ => a.2 ≤ b.2 := ⟨fun _ _ => le_total _ _⟩
      exact List.pairwise_insertionSort _ _

end Search

/-! ### The fetch -/

section Fetch

variable {ρ δ : Type}

structure FetchedBatch (ρ δ : Type) where
  /-- No rows are read if only the distances are asked for. -/
  rows : Option (List ρ)
  distances : List δ

/-- The rows with the distances in the last column. -/
def FetchedBatch.pairs (b : FetchedBatch ρ δ) : List (Option ρ × δ) :=
  match b.rows with
  | some rows => (rows.map some).zip b.distances
  | none => b.distances.map fun d => (none, d)

/-- The bitmap of the matches without the deleted rows, in ascending order. -/
def rowIds (hits : List (ℕ × δ)) (deleted : List ℕ) : List ℕ :=
  ((hits.map fun h => h.1 % 2 ^ 32).dedup.insertionSort (· ≤ ·)).filter
    fun id => !deleted.contains id

/-- A lookup in `row_distances`, in which the last match with a number stays. -/
def rowDistance (max : δ) (hits : List (ℕ × δ)) (id : ℕ) : δ :=
  ((hits.reverse.find? fun h => h.1 % 2 ^ 32 == id).map Prod.snd).getD max

/-- The filter on fetched rows. The distances are filtered by the bits of the mask, the rows by its
valid bits; a filter that fails is left out. -/
def postFilter (filter : Option (RowFilter ρ)) (rows : List ρ) (distances : List δ) :
    List ρ × List δ :=
  match filter with
  | some f =>
    if f.fails rows then (rows, distances)
    else (rows.filter f.satisfied,
      ((rows.zip distances).filter fun (r : ρ × δ) => f.bit r.1).map Prod.snd)
  | none => (rows, distances)

/-- The filtered rows with the distance column. -/
def fetchBatch (filter : Option (RowFilter ρ)) (rows : List ρ) (distances : List δ) :
    Except String (List (FetchedBatch ρ δ)) :=
  let kept := postFilter filter rows distances
  if kept.1.isEmpty then .ok []
  else if kept.1.length = kept.2.length then .ok [⟨some kept.1, kept.2⟩]
  else .error "Invalid argument error: all columns in a record batch must have the same length"

/-- The loop over the batches of a row selection, with the numbers of the rows to come. -/
def fetchSelected (filter : Option (RowFilter ρ)) (distanceOf : ℕ → δ) :
    List (List ρ) → List ℕ → Except String (List (FetchedBatch ρ δ))
  | [], _ => .ok []
  | batch :: batches, ids =>
    let rowsToProcess := min batch.length ids.length
    if rowsToProcess = 0 then .ok []
    else do
      let fetched ← fetchBatch filter (batch.take rowsToProcess)
        ((ids.take rowsToProcess).map distanceOf)
      let rest ← fetchSelected filter distanceOf batches (ids.drop rowsToProcess)
      return fetched ++ rest

/-- A data file with the reader of it. -/
structure StoredFile (ρ : Type) where
  rowGroups : List (List ρ)
  /-- The size in bytes. -/
  size : ℕ
  /-- The batches in which the Parquet reader returns rows. -/
  batches : List ρ → List (List ρ)
  flatten_batches : ∀ rows, (batches rows).flatten = rows
  ne_nil_of_mem_batches : ∀ rows, ∀ batch ∈ batches rows, batch ≠ []
  /-- The error of `take_record_batch` for an index beyond the rows. -/
  outOfBounds : String

def StoredFile.rows (file : StoredFile ρ) : List ρ := file.rowGroups.flatten

/-- The file is small, or many of its rows are asked for: all rows are read through the cache. -/
def StoredFile.cached (file : StoredFile ρ) (ids : List ℕ) : Bool :=
  let totalRows := file.rows.length
  let sparseSelection := decide (0 < totalRows) && decide (ids.length * 8 < totalRows)
  decide (file.size < 64 * 1024 * 1024) ||
    (decide (file.size < 500 * 1024 * 1024) && !sparseSelection)

/-- `fetch_rows_with_distances`; `scoreOnly` stands for an empty target schema. -/
def fetchRowsWithDistances (file : StoredFile ρ) (deleted : List ℕ) (max : δ)
    (filter : Option (RowFilter ρ)) (scoreOnly : Bool) (hits : List (ℕ × δ)) :
    Except String (List (FetchedBatch ρ δ)) :=
  let ids := rowIds hits deleted
  let distanceOf := rowDistance max hits
  if ids.isEmpty then .ok []
  else if scoreOnly then .ok [⟨none, ids.map distanceOf⟩]
  else if file.cached ids && !file.rows.isEmpty then
    if ids.all fun id => decide (id < file.rows.length) then
      fetchBatch filter (Selection.rowsIn file.rows ids) (ids.map distanceOf)
    else .error file.outOfBounds
  else
    let selection := bitmapToRowSelection ids file.rows.length
    fetchSelected filter distanceOf (file.batches (Selection.apply selection file.rows)) ids

lemma mem_rowIds {hits : List (ℕ × δ)} {deleted : List ℕ} {id : ℕ} :
    id ∈ rowIds hits deleted ↔ (∃ h ∈ hits, h.1 % 2 ^ 32 = id) ∧ id ∉ deleted := by
  simp only [rowIds, List.mem_filter, List.mem_insertionSort, List.mem_dedup, List.mem_map]
  simp

lemma pairwise_rowIds (hits : List (ℕ × δ)) (deleted : List ℕ) :
    (rowIds hits deleted).Pairwise (· < ·) := by
  refine List.Pairwise.filter _ ?_
  have hsorted := List.pairwise_insertionSort (· ≤ ·) (hits.map fun h => h.1 % 2 ^ 32).dedup
  have hnodup : ((hits.map fun h => h.1 % 2 ^ 32).dedup.insertionSort (· ≤ ·)).Nodup :=
    (List.perm_insertionSort _ _).nodup_iff.2 (List.nodup_dedup _)
  exact (hsorted.and hnodup).imp fun h => lt_of_le_of_ne h.1 h.2

lemma postFilter_of_satisfied {filter : Option (RowFilter ρ)} {rows : List ρ} {distances : List δ}
    (hfilter : ∀ f ∈ filter, ∀ row ∈ rows, f.satisfied row = true)
    (hlen : rows.length = distances.length) :
    postFilter filter rows distances = (rows, distances) := by
  cases filter with
  | none => rfl
  | some f =>
    have hrows : rows.filter f.satisfied = rows := List.filter_eq_self.2 (hfilter f rfl)
    have hbits : (rows.zip distances).filter (fun r => f.bit r.1) = rows.zip distances := by
      refine List.filter_eq_self.2 fun r hr => ?_
      exact RowFilter.bit_of_satisfied (hfilter f rfl r.1 (List.of_mem_zip hr).1)
    rw [postFilter, hrows, hbits, List.map_snd_zip hlen.ge, ite_self]

/-- Rows that satisfy the filter are fetched as they are. -/
lemma exists_fetchBatch (filter : Option (RowFilter ρ)) (rows : List ρ) (distances : List δ)
    (hfilter : ∀ f ∈ filter, ∀ row ∈ rows, f.satisfied row = true)
    (hlen : rows.length = distances.length) :
    ∃ out, fetchBatch filter rows distances = .ok out ∧
      out.flatMap FetchedBatch.pairs = (rows.map some).zip distances := by
  rw [fetchBatch, postFilter_of_satisfied hfilter hlen]
  cases rows with
  | nil => exact ⟨[], rfl, rfl⟩
  | cons row rows => exact ⟨_, if_pos hlen, by simp [FetchedBatch.pairs]⟩

lemma exists_fetchSelected (filter : Option (RowFilter ρ)) (distanceOf : ℕ → δ)
    {batches : List (List ρ)} {ids : List ℕ}
    (hfilter : ∀ f ∈ filter, ∀ row ∈ batches.flatten, f.satisfied row = true)
    (hbatches : ∀ batch ∈ batches, batch ≠ []) (hlen : batches.flatten.length = ids.length) :
    ∃ out, fetchSelected filter distanceOf batches ids = .ok out ∧
      out.flatMap FetchedBatch.pairs = (batches.flatten.map some).zip (ids.map distanceOf) := by
  induction batches generalizing ids with
  | nil => exact ⟨[], rfl, rfl⟩
  | cons batch batches ih =>
    rw [List.flatten_cons, List.length_append] at hlen
    have hmin : min batch.length ids.length = batch.length := by omega
    have hpos : batch.length ≠ 0 := by simpa using hbatches batch List.mem_cons_self
    have hids : batches.flatten.length = (ids.drop batch.length).length := by
      rw [List.length_drop]
      omega
    obtain ⟨fetched, hfetched, hpairs⟩ := exists_fetchBatch filter batch
      ((ids.take batch.length).map distanceOf)
      (fun f hf row hrow => hfilter f hf row (List.mem_append_left _ hrow)) (by simp; omega)
    obtain ⟨rest, hrest, hpairs'⟩ := ih
      (fun f hf row hrow => hfilter f hf row (List.mem_append_right _ hrow))
      (fun b hb => hbatches b (List.mem_cons_of_mem batch hb)) hids
    refine ⟨fetched ++ rest, ?_, ?_⟩
    · rw [fetchSelected]
      simp only [hmin, hpos, if_false, List.take_length, hfetched, hrest]
      rfl
    · rw [List.flatMap_append, hpairs, hpairs', List.flatten_cons, List.map_append,
        ← List.zip_append (by simp; omega), ← List.map_append (f := distanceOf),
        List.take_append_drop]

/-- For numbers within the file, whatever the way to read them, the rows at these positions come in
ascending order. -/
lemma exists_fetchRowsWithDistances (file : StoredFile ρ) (deleted : List ℕ) (max : δ)
    (filter : Option (RowFilter ρ)) (scoreOnly : Bool) (hits : List (ℕ × δ))
    (hbound : ∀ id ∈ rowIds hits deleted, id < file.rows.length)
    (hfilter : ∀ f ∈ filter, ∀ row ∈ Selection.rowsIn file.rows (rowIds hits deleted),
      f.satisfied row = true) :
    ∃ out, fetchRowsWithDistances file deleted max filter scoreOnly hits = .ok out ∧
      out.flatMap FetchedBatch.pairs = (rowIds hits deleted).map fun id =>
        (if scoreOnly then none else file.rows[id]?, rowDistance max hits id) := by
  have hrows := Selection.map_some_rowsIn hbound
  have hlen := congrArg List.length hrows
  rw [List.length_map, List.length_map] at hlen
  rw [fetchRowsWithDistances]
  by_cases hempty : rowIds hits deleted = []
  · exact ⟨[], by simp [hempty], by simp [hempty]⟩
  · rw [if_neg (by simpa using hempty)]
    cases scoreOnly with
    | true => exact ⟨_, rfl, by simp [FetchedBatch.pairs]⟩
    | false =>
      simp only [Bool.false_eq_true, if_false]
      rw [← List.zip_map', ← hrows]
      split_ifs with hcached hall
      · exact exists_fetchBatch filter _ _ hfilter (by rw [hlen, List.length_map])
      · exact absurd (List.all_eq_true.2 fun id hid => decide_eq_true (hbound id hid)) hall
      · rw [apply_bitmapToRowSelection (pairwise_rowIds hits deleted)]
        have hflatten := file.flatten_batches (Selection.rowsIn file.rows (rowIds hits deleted))
        have hout := exists_fetchSelected filter (rowDistance max hits)
          (by rw [hflatten]; exact hfilter) (file.ne_nil_of_mem_batches _)
          (by rw [hflatten, hlen])
        rwa [hflatten] at hout

section Distinct

variable {hits : List (ℕ × δ)} (hnodup : (hits.map Prod.fst).Nodup)
  (hfits : ∀ h ∈ hits, h.1 < 2 ^ 32)

include hnodup hfits

lemma perm_rowIds {deleted : List ℕ} (hlive : ∀ h ∈ hits, h.1 ∉ deleted) :
    (rowIds hits deleted).Perm (hits.map Prod.fst) := by
  refine (List.perm_ext_iff_of_nodup (pairwise_rowIds hits deleted).nodup hnodup).2 fun id => ?_
  rw [mem_rowIds, List.mem_map]
  constructor
  · rintro ⟨⟨h, hh, rfl⟩, -⟩
    exact ⟨h, hh, (Nat.mod_eq_of_lt (hfits h hh)).symm⟩
  · rintro ⟨h, hh, rfl⟩
    exact ⟨⟨h, hh, Nat.mod_eq_of_lt (hfits h hh)⟩, hlive h hh⟩

lemma rowDistance_of_mem (max : δ) {h : ℕ × δ} (hh : h ∈ hits) :
    rowDistance max hits h.1 = h.2 := by
  rw [rowDistance]
  cases hfind : hits.reverse.find? fun h' => h'.1 % 2 ^ 32 == h.1 with
  | none =>
    have hne := List.find?_eq_none.1 hfind h (List.mem_reverse.2 hh)
    rw [Nat.mod_eq_of_lt (hfits h hh)] at hne
    exact absurd (beq_self_eq_true h.1) hne
  | some h' =>
    have hh' : h' ∈ hits := List.mem_reverse.1 (List.mem_of_find?_eq_some hfind)
    have heq := List.find?_some hfind
    rw [Nat.mod_eq_of_lt (hfits h' hh'), beq_iff_eq] at heq
    rw [List.inj_on_of_nodup_map hnodup hh' hh heq]
    rfl

/-- Matches with the positions of live rows that satisfy the filter are fetched with the rows at
these positions. -/
theorem fetchRowsWithDistances_of_live (file : StoredFile ρ) (deleted : List ℕ) (max : δ)
    (filter : Option (RowFilter ρ)) (scoreOnly : Bool)
    (hlive : ∀ h ∈ hits, h.1 < file.rows.length ∧ h.1 ∉ deleted)
    (hfilter : ∀ f ∈ filter, ∀ h ∈ hits, ∀ row, file.rows[h.1]? = some row →
      f.satisfied row = true) :
    ∃ out, fetchRowsWithDistances file deleted max filter scoreOnly hits = .ok out ∧
      (out.flatMap FetchedBatch.pairs).Perm
        (hits.map fun h => (if scoreOnly then none else file.rows[h.1]?, h.2)) := by
  have hids := perm_rowIds hnodup hfits fun h hh => (hlive h hh).2
  have hmem : ∀ id ∈ rowIds hits deleted, ∃ h ∈ hits, h.1 = id := fun id hid =>
    List.mem_map.1 (hids.mem_iff.1 hid)
  obtain ⟨out, hok, hpairs⟩ := exists_fetchRowsWithDistances file deleted max filter scoreOnly hits
    (by
      intro id hid
      obtain ⟨h, hh, rfl⟩ := hmem id hid
      exact (hlive h hh).1)
    (by
      intro f hf row hrow
      obtain ⟨id, hid, hrow⟩ := List.mem_filterMap.1 hrow
      obtain ⟨h, hh, rfl⟩ := hmem id hid
      exact hfilter f hf h hh row hrow)
  refine ⟨out, hok, ?_⟩
  rw [hpairs]
  refine (hids.map _).trans (.of_eq ?_)
  rw [List.map_map]
  refine List.map_congr_left fun h hh => ?_
  rw [Function.comp_apply, rowDistance_of_mem hnodup hfits max hh]

end Distinct

/-! ### What is fetched at all -/

lemma mem_of_mem_postFilter {filter : Option (RowFilter ρ)} {rows : List ρ} {distances : List δ}
    {row : ρ} (h : row ∈ (postFilter filter rows distances).1) : row ∈ rows := by
  cases filter with
  | none => exact h
  | some f =>
    rw [postFilter] at h
    split_ifs at h
    · exact h
    · exact List.mem_of_mem_filter h

lemma mem_of_fetchBatch {filter : Option (RowFilter ρ)} {rows : List ρ} {distances : List δ}
    {out : List (FetchedBatch ρ δ)} (hok : fetchBatch filter rows distances = .ok out)
    {row : ρ} {d : δ} (h : (some row, d) ∈ out.flatMap FetchedBatch.pairs) : row ∈ rows := by
  simp only [fetchBatch] at hok
  split_ifs at hok
  · obtain rfl := Except.ok.inj hok
    simp at h
  · obtain rfl := Except.ok.inj hok
    rw [List.flatMap_singleton] at h
    obtain ⟨row', hrow', heq⟩ := List.mem_map.1 (List.of_mem_zip h).1
    obtain rfl := Option.some.inj heq
    exact mem_of_mem_postFilter hrow'

lemma mem_of_fetchSelected {filter : Option (RowFilter ρ)} {distanceOf : ℕ → δ}
    {batches : List (List ρ)} {ids : List ℕ} {out : List (FetchedBatch ρ δ)}
    (hok : fetchSelected filter distanceOf batches ids = .ok out) {row : ρ} {d : δ}
    (h : (some row, d) ∈ out.flatMap FetchedBatch.pairs) : row ∈ batches.flatten := by
  induction batches generalizing ids out with
  | nil =>
    obtain rfl := Except.ok.inj hok
    simp at h
  | cons batch batches ih =>
    rw [fetchSelected] at hok
    split_ifs at hok
    · obtain rfl := Except.ok.inj hok
      simp at h
    · obtain ⟨fetched, hfetched, hok⟩ := Failing.exists_of_bind_eq_ok hok
      obtain ⟨rest, hrest, hok⟩ := Failing.exists_of_bind_eq_ok hok
      obtain rfl := Except.ok.inj hok
      rw [List.flatMap_append] at h
      rcases List.mem_append.1 h with h | h
      · exact List.mem_append_left _ (List.mem_of_mem_take (mem_of_fetchBatch hfetched h))
      · exact List.mem_append_right _ (ih hrest h)

/-- Only rows at numbers of 32 bits are fetched. -/
lemma mem_of_fetchRowsWithDistances {file : StoredFile ρ} {deleted : List ℕ} {max : δ}
    {filter : Option (RowFilter ρ)} {hits : List (ℕ × δ)} {out : List (FetchedBatch ρ δ)}
    (hok : fetchRowsWithDistances file deleted max filter false hits = .ok out) {row : ρ} {d : δ}
    (h : (some row, d) ∈ out.flatMap FetchedBatch.pairs) :
    ∃ id < 2 ^ 32, file.rows[id]? = some row := by
  suffices hmem : row ∈ Selection.rowsIn file.rows (rowIds hits deleted) by
    obtain ⟨id, hid, hrow⟩ := List.mem_filterMap.1 hmem
    obtain ⟨⟨h, -, rfl⟩, -⟩ := mem_rowIds.1 hid
    exact ⟨_, Nat.mod_lt _ (by decide), hrow⟩
  simp only [fetchRowsWithDistances, Bool.false_eq_true, if_false] at hok
  split_ifs at hok
  · obtain rfl := Except.ok.inj hok
    simp at h
  · exact mem_of_fetchBatch hok h
  · have hmem := mem_of_fetchSelected hok h
    rwa [file.flatten_batches, apply_bitmapToRowSelection (pairwise_rowIds hits deleted)] at hmem

end Fetch

end BenoStreamDB

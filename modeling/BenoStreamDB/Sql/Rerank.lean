import BenoStreamDB.Foundations.TopK
import BenoStreamDB.Sql.Scans
import Mathlib.Data.Prod.Lex

/-!
# The merge of vector search results

What `merge_and_rerank_vector_results` returns if distances can be compared: the rows at the places
from `offset` to `offset + k` by distance, batch and row, each with its distance. A batch that has a
column `distance` keeps that column instead, and row numbers are cut to 32 bits, so the merge is
right exactly if neither shows in the rows that it returns: `globalTopK_iff`.
-/

namespace BenoStreamDB

variable {τ κ δ ν : Type}

/-! ### The order of the rows -/

section Order

variable [LinearOrder δ]

lemma rankCmp_ne_gt_iff {a b : RankedRow δ} :
    (rankCmp (fun x y => some (compare x y)) a b != .gt) = true ↔
      toLex (a.2.2, toLex (a.1, a.2.1)) ≤ toLex (b.2.2, toLex (b.1, b.2.1)) := by
  rw [bne_iff_ne, rankCmp, Option.getD_some, Prod.Lex.toLex_le_toLex, Prod.Lex.toLex_le_toLex]
  rcases lt_trichotomy a.2.2 b.2.2 with hd | hd | hd
  · simp [compare_lt_iff_lt.2 hd, hd]
  · rcases lt_trichotomy a.1 b.1 with hi | hi | hi
    · simp [hd, compare_lt_iff_lt.2 hi, hi]
    · simp [hd, hi, Nat.compare_ne_gt]
    · simp [hd, compare_gt_iff_gt.2 hi, hi.not_gt, hi.ne']
  · simp [compare_gt_iff_gt.2 hd, hd.not_gt, hd.ne']

/-- The rows of the results in the order of the merge. -/
lemma pairwise_rank_mergeSort (rows : List (RankedRow δ)) :
    (rows.mergeSort fun a b => rankCmp (fun x y => some (compare x y)) a b != .gt).Pairwise
      fun a b => rankCmp (fun x y => some (compare x y)) a b != .gt := by
  refine List.pairwise_mergeSort ?_ ?_ rows
  · intro a b c hab hbc
    rw [rankCmp_ne_gt_iff] at hab hbc ⊢
    exact hab.trans hbc
  · intro a b
    rw [Bool.or_eq_true, rankCmp_ne_gt_iff, rankCmp_ne_gt_iff]
    exact le_total _ _

lemma pairwise_mergeSort_rankCmp (rows : List (RankedRow δ)) :
    (rows.mergeSort fun a b => rankCmp (fun x y => some (compare x y)) a b != .gt).Pairwise
      fun a b => a.2.2 ≤ b.2.2 := by
  refine (pairwise_rank_mergeSort rows).imp fun {a b} h => ?_
  rw [rankCmp_ne_gt_iff] at h
  exact Prod.Lex.monotone_fst _ _ h

/-- No two rows have the same place, so there is one way to sort them. -/
lemma mergeSort_rankCmp_eq (rows sorted : List (RankedRow δ)) (hperm : rows.Perm sorted)
    (hsorted : sorted.Pairwise fun a b => rankCmp (fun x y => some (compare x y)) a b != .gt) :
    (rows.mergeSort fun a b => rankCmp (fun x y => some (compare x y)) a b != .gt) = sorted := by
  refine List.Perm.eq_of_pairwise ?_ (pairwise_rank_mergeSort rows) hsorted
    ((List.mergeSort_perm _ _).trans hperm)
  rintro ⟨i, j, d⟩ ⟨i', j', d'⟩ - - hab hba
  rw [rankCmp_ne_gt_iff] at hab hba
  simpa [and_comm, and_left_comm, and_assoc] using le_antisymm hab hba

end Order

/-! ### Arrow -/

/-- What is documented of arrow: columns have cells of type `ν`. -/
structure LawfulArrow (A : Arrow τ κ δ) (ν : Type) where
  cells : κ → List ν
  ofDistance : δ → ν
  /-- The column has the type of the field, and NULLs only if the field allows them. -/
  Fits : PlanField τ → κ → Prop
  take_spec : ∀ col indices, (∀ i ∈ indices, i < (cells col).length) →
    ∃ col', A.take col indices = .ok col' ∧ (cells col').length = indices.length ∧
      (∀ j i : ℕ, indices[j]? = some i → (cells col')[j]? = (cells col)[i]?) ∧
      ∀ field, Fits field col → Fits field col'
  cells_float32Array : ∀ ds, cells (A.float32Array ds) = ds.map ofDistance
  fits_float32Array : ∀ ds, Fits ⟨"distance", A.float32, false⟩ (A.float32Array ds)
  tryNew_spec : ∀ fields columns n, columns ≠ [] → List.Forall₂ Fits fields columns →
    (∀ col ∈ columns, (cells col).length = n) → A.tryNew fields columns = .ok ⟨fields, columns, n⟩

namespace LawfulArrow

variable {A : Arrow τ κ δ} (L : LawfulArrow A ν)

/-- The names and values of a row. -/
def rowAt (b : PlanBatch τ κ) (i : ℕ) : List (String × ν) :=
  (b.fields.map PlanField.name).zip (b.columns.filterMap fun col => (L.cells col)[i]?)

def rows (b : PlanBatch τ κ) : List (List (String × ν)) := (List.range b.numRows).map (L.rowAt b)

structure Valid (b : PlanBatch τ κ) : Prop where
  fits : List.Forall₂ L.Fits b.fields b.columns
  length : ∀ col ∈ b.columns, (L.cells col).length = b.numRows

/-- The row of a result, found by its batch and a row number. -/
def resultRow (results : List (String × PlanBatch τ κ × List δ)) (batch row : ℕ) :
    List (String × ν) :=
  match results[batch]? with
  | some x => L.rowAt x.2.1 row
  | none => []

/-- The places from `offset` to `offset + k` of all rows by distance, batch and row. -/
def slice [LinearOrder δ] (results : List (String × PlanBatch τ κ × List δ)) (k offset : ℕ) :
    List (RankedRow δ) :=
  rankedRows (fun x y => some (compare x y)) (results.map fun x => x.2.2) k offset

variable [LinearOrder δ] (results : List (String × PlanBatch τ κ × List δ)) (k offset : ℕ)

/-- `cut` has the `n` smallest distances of each batch. -/
def CutsDown (n : ℕ) (distances cut : List (List δ)) : Prop :=
  List.Forall₂ (fun ds ds' => ∃ first, TopK.IsFirst id n ds first ∧ ds'.Perm first) distances cut

/-- The merge returns the rows of the slice, each with its distance, and would return the same
distances if it got only the smallest ones of each batch. -/
def GlobalTopK : Prop :=
  (∃ out, mergeAndRerankVectorResults A results k offset = .ok out ∧
    List.Forall₂ (fun row r => L.resultRow results r.1 r.2.1 <+: row ∧
        row.lookup "distance" = some (L.ofDistance r.2.2))
      (out.flatMap fun x => L.rows x.2) (slice results k offset)) ∧
  ∀ cut, CutsDown (k + offset) (results.map fun x => x.2.2) cut →
    (rankedRows (fun x y => some (compare x y)) cut k offset).map (fun r => r.2.2) =
      (slice results k offset).map fun r => r.2.2

/-- A row of the slice is the one with its number cut to 32 bits, and has no other distance. -/
def Plain : Prop :=
  ∀ r ∈ slice results k offset,
    L.resultRow results r.1 (r.2.1 % 2 ^ 32) = L.resultRow results r.1 r.2.1 ∧
    ∀ v, (L.resultRow results r.1 r.2.1).lookup "distance" = some v → v = L.ofDistance r.2.2

/-! ### One batch -/

variable {L results k offset}

/-- The batch has a distance for each row. -/
def Paired (L : LawfulArrow A ν) (x : String × PlanBatch τ κ × List δ) : Prop :=
  L.Valid x.2.1 ∧ x.2.2.length = x.2.1.numRows

omit [LinearOrder δ] in
lemma lookup_rowAt_eq_none {b : PlanBatch τ κ} (hvalid : L.Valid b) {i : ℕ} (hi : i < b.numRows) :
    (L.rowAt b i).lookup "distance" = none ↔ ¬ b.fields.any fun f => f.name = "distance" := by
  have hall : ∀ col ∈ b.columns, ∃ v, (L.cells col)[i]? = some v := by
    intro col hcol
    exact ⟨_, List.getElem?_eq_getElem (by rw [hvalid.length col hcol]; exact hi)⟩
  obtain ⟨fields, columns, n⟩ := b
  have hfits := hvalid.fits
  simp only [rowAt] at hfits hall ⊢
  clear hvalid hi
  induction hfits with
  | nil => simp
  | @cons f col fields columns _ _ ih =>
    obtain ⟨v, hv⟩ := hall col List.mem_cons_self
    have hrest := ih fun c hc => hall c (List.mem_cons_of_mem _ hc)
    rw [List.filterMap_cons_some (f := fun col => (L.cells col)[i]?) hv, List.map_cons,
      List.zip_cons_cons, List.lookup_cons]
    by_cases hname : f.name = "distance"
    · simp [hname]
    · have hne : ("distance" == f.name) = false := by
        rw [beq_eq_false_iff_ne]
        exact Ne.symm hname
      rw [hne, List.any_cons, decide_eq_false hname, Bool.false_or]
      exact hrest

omit [LinearOrder δ] in
lemma length_cells {b : PlanBatch τ κ} (hvalid : L.Valid b) {i : ℕ} (hi : i < b.numRows) :
    b.fields.length = (b.columns.filterMap fun col => (L.cells col)[i]?).length := by
  rw [List.Forall₂.length_eq hvalid.fits]
  have hall : ∀ col ∈ b.columns, ((L.cells col)[i]?).isSome = true := by
    intro col hcol
    rw [List.getElem?_eq_getElem (by rw [hvalid.length col hcol]; exact hi)]
    rfl
  exact (List.filterMap_length_eq_length.2 hall).symm

omit [LinearOrder δ] in
lemma map_range_length {α β : Type} {l : List α} {f : ℕ → β} {g : α → β}
    (h : ∀ (j : ℕ) (a : α), l[j]? = some a → f j = g a) :
    (List.range l.length).map f = l.map g := by
  refine List.ext_getElem (by simp) fun j h₁ h₂ => ?_
  rw [List.length_map] at h₂
  rw [List.getElem_map, List.getElem_range, List.getElem_map]
  exact h j _ (List.getElem?_eq_getElem h₂)

/-- The row that a chunk gets for a ranked row. -/
def mergedRow (L : LawfulArrow A ν) (b : PlanBatch τ κ) (r : RankedRow δ) : List (String × ν) :=
  L.rowAt b (r.2.1 % 2 ^ 32) ++
    if b.fields.any fun f => f.name = "distance" then []
    else [("distance", L.ofDistance r.2.2)]

variable (L) in
/-- `taken` are the rows of a chunk, out of the columns of their batch. -/
structure Taken (columns : List κ) (chunk : List (RankedRow δ)) (taken : List κ) : Prop where
  fits : ∀ fields, List.Forall₂ L.Fits fields columns → List.Forall₂ L.Fits fields taken
  length : ∀ col ∈ taken, (L.cells col).length = chunk.length
  cells : ∀ (j : ℕ) (r : RankedRow δ), chunk[j]? = some r →
    taken.filterMap (fun col => (L.cells col)[j]?) =
      columns.filterMap fun col => (L.cells col)[r.2.1 % 2 ^ 32]?

omit [LinearOrder δ] in
lemma exists_take {columns : List κ} {n : ℕ} (hlen : ∀ col ∈ columns, (L.cells col).length = n)
    {chunk : List (RankedRow δ)} (hrows : ∀ r ∈ chunk, r.2.1 < n) :
    ∃ taken, (columns.mapM fun col =>
        (A.take col (chunk.map fun r => r.2.1 % 2 ^ 32)).mapError fun e => "Take error: " ++ e) =
          .ok taken ∧ L.Taken columns chunk taken := by
  induction columns with
  | nil => exact ⟨[], rfl, fun _ h => h, fun _ hcol => absurd hcol List.not_mem_nil,
      fun _ _ _ => rfl⟩
  | cons col columns ih =>
    obtain ⟨col', htake, hcol', hcell, hkeep⟩ :=
      L.take_spec col (chunk.map fun r => r.2.1 % 2 ^ 32) fun i hi => by
        obtain ⟨r, hr, rfl⟩ := List.mem_map.1 hi
        rw [hlen col List.mem_cons_self]
        exact (Nat.mod_le _ _).trans_lt (hrows r hr)
    obtain ⟨taken, htaken, hfits, hlength, hcells⟩ :=
      ih fun c hc => hlen c (List.mem_cons_of_mem _ hc)
    refine ⟨col' :: taken, ?_, fun fields hfields => ?_, fun c hc => ?_, fun j r hj => ?_⟩
    · rw [List.mapM_cons, htaken, htake]
      rfl
    · obtain ⟨field, rest, hfield, hrest, rfl⟩ := List.forall₂_cons_right_iff.1 hfields
      exact .cons (hkeep field hfield) (hfits rest hrest)
    · rcases List.mem_cons.1 hc with rfl | hc
      · rw [hcol', List.length_map]
      · exact hlength c hc
    · have hindex : (chunk.map fun r => r.2.1 % 2 ^ 32)[j]? = some (r.2.1 % 2 ^ 32) := by
        rw [List.getElem?_map, hj]
        rfl
      rw [List.filterMap_cons, List.filterMap_cons, hcell j _ hindex, hcells j r hj]

variable (A) in
/-- The batch that a chunk of rows of a batch becomes. -/
def chunkBatch (b : PlanBatch τ κ) (chunk : List (RankedRow δ)) (taken : List κ) :
    PlanBatch τ κ :=
  if b.fields.any fun f => f.name = "distance" then ⟨b.fields, taken, chunk.length⟩
  else ⟨b.fields ++ [⟨"distance", A.float32, false⟩],
    taken ++ [A.float32Array (chunk.map fun r => r.2.2)], chunk.length⟩

omit [LinearOrder δ] in
/-- A chunk of rows of one batch becomes a batch with these rows. -/
lemma exists_takeChunk {x : String × PlanBatch τ κ × List δ} (hx : L.Paired x)
    {chunk : List (RankedRow δ)} {i : ℕ} (hne : chunk ≠ []) (hbatch : ∀ r ∈ chunk, r.1 = i)
    (hi : results[i]? = some x) (hrows : ∀ r ∈ chunk, r.2.1 < x.2.1.numRows) :
    ∃ taken, L.Taken x.2.1.columns chunk taken ∧
      takeChunk A results chunk = .ok (x.1, chunkBatch A x.2.1 chunk taken) := by
  obtain ⟨segId, b, ds⟩ := x
  have hhead : (chunk.head?.bind fun r => results[r.1]?) = some (segId, b, ds) := by
    cases chunk with
    | nil => exact absurd rfl hne
    | cons r chunk => rw [List.head?_cons, Option.bind_some, hbatch r List.mem_cons_self, hi]
  obtain ⟨taken, htaken, hcut⟩ := L.exists_take hx.1.length hrows
  have hfits : List.Forall₂ L.Fits b.fields taken := hcut.fits _ hx.1.fits
  refine ⟨taken, hcut, ?_⟩
  by_cases hdistance : b.fields.any (fun f => f.name = "distance") = true
  · have hcolumns : taken ≠ [] := by
      rintro rfl
      rw [List.forall₂_nil_right_iff.1 hfits] at hdistance
      cases hdistance
    simp only [takeChunk, hhead, htaken, hdistance, if_true, bind, Except.bind, chunkBatch,
      L.tryNew_spec _ _ _ hcolumns hfits hcut.length]
    rfl
  · have hdistances : ∀ col ∈ taken ++ [A.float32Array (chunk.map fun r => r.2.2)],
        (L.cells col).length = chunk.length := by
      intro col hcol
      rcases List.mem_append.1 hcol with hcol | hcol
      · exact hcut.length col hcol
      · rw [List.mem_singleton.1 hcol, L.cells_float32Array, List.length_map, List.length_map]
    have hfits' := List.rel_append hfits
      (.cons (L.fits_float32Array (chunk.map fun r => r.2.2)) .nil)
    simp only [takeChunk, hhead, htaken, hdistance, bind, Except.bind, chunkBatch,
      L.tryNew_spec _ _ _ (by simp) hfits' hdistances]
    rfl

omit [LinearOrder δ] in
lemma rows_chunkBatch {b : PlanBatch τ κ} (hvalid : L.Valid b) {chunk : List (RankedRow δ)}
    (hrows : ∀ r ∈ chunk, r.2.1 < b.numRows) {taken : List κ}
    (hcut : L.Taken b.columns chunk taken) :
    L.rows (chunkBatch A b chunk taken) = chunk.map (L.mergedRow b) := by
  by_cases hdistance : b.fields.any (fun f => f.name = "distance") = true
  · rw [chunkBatch, if_pos hdistance]
    refine map_range_length fun j r hj => ?_
    rw [mergedRow, if_pos hdistance, List.append_nil, rowAt, hcut.cells j r hj]
    rfl
  · rw [chunkBatch, if_neg hdistance]
    refine map_range_length fun j r hj => ?_
    have hlt : r.2.1 % 2 ^ 32 < b.numRows :=
      (Nat.mod_le _ _).trans_lt (hrows r (List.mem_of_getElem? hj))
    have hdist : (L.cells (A.float32Array (chunk.map fun r => r.2.2)))[j]? =
        some (L.ofDistance r.2.2) := by
      rw [L.cells_float32Array, List.map_map, List.getElem?_map, hj]
      rfl
    rw [mergedRow, if_neg hdistance, rowAt, rowAt, List.filterMap_append, hcut.cells j r hj,
      List.filterMap_cons_some (f := fun col => (L.cells col)[j]?) hdist, List.map_append,
      List.zip_append (by rw [List.length_map, length_cells hvalid hlt])]
    rfl

/-! ### All batches -/

/-- The row that the merge returns for a ranked row. -/
def outRow (L : LawfulArrow A ν) (results : List (String × PlanBatch τ κ × List δ))
    (r : RankedRow δ) : List (String × ν) :=
  match results[r.1]? with
  | some x => L.mergedRow x.2.1 r
  | none => []

lemma exists_of_mem_slice {r : RankedRow δ} (hr : r ∈ slice results k offset) :
    ∃ x ∈ results, results[r.1]? = some x ∧ x.2.2[r.2.1]? = some r.2.2 := by
  have hmem : r ∈ flattenRows (results.map fun x => x.2.2) :=
    (List.mergeSort_perm _ _).mem_iff.1 (List.mem_of_mem_drop (List.mem_of_mem_take hr))
  obtain ⟨ds, hds, hr⟩ := List.mem_flatMap.1 hmem
  obtain ⟨d, hd, rfl⟩ := List.mem_map.1 hr
  have hget := List.mem_zipIdx_iff_getElem?.1 hds
  rw [List.getElem?_map] at hget
  obtain ⟨x, hx, hxd⟩ := Option.map_eq_some_iff.1 hget
  refine ⟨x, List.mem_of_getElem? hx, hx, ?_⟩
  rw [hxd]
  exact List.mem_zipIdx_iff_getElem?.1 hd

variable (L results) in
/-- A chunk of rows of one batch, and what the merge makes of it. -/
def MergedChunk (chunk : List (RankedRow δ)) (out : String × PlanBatch τ κ) : Prop :=
  ∃ x ∈ results, (∀ r ∈ chunk, results[r.1]? = some x ∧ r.2.1 < x.2.1.numRows) ∧
    ∃ taken, L.Taken x.2.1.columns chunk taken ∧ out = (x.1, chunkBatch A x.2.1 chunk taken)

omit [LinearOrder δ] in
lemma exists_mapM_takeChunk {chunks : List (List (RankedRow δ))}
    (h : ∀ chunk ∈ chunks, ∃ out, takeChunk A results chunk = .ok out ∧
      L.MergedChunk results chunk out) :
    ∃ outs, chunks.mapM (takeChunk A results) = .ok outs ∧
      List.Forall₂ (L.MergedChunk results) chunks outs := by
  induction chunks with
  | nil => exact ⟨[], rfl, .nil⟩
  | cons chunk chunks ih =>
    obtain ⟨out, hout, hchunk⟩ := h chunk List.mem_cons_self
    obtain ⟨outs, houts, hchunks⟩ := ih fun c hc => h c (List.mem_cons_of_mem _ hc)
    refine ⟨out :: outs, ?_, .cons hchunk hchunks⟩
    rw [List.mapM_cons, hout, houts]
    rfl

variable (L results k offset) in
/-- The merge returns the runs of the slice in its order. -/
lemma exists_mergedChunks (hcmp : A.partialCmp = fun x y => some (compare x y))
    (hresults : ∀ x ∈ results, L.Paired x) :
    ∃ out, mergeAndRerankVectorResults A results k offset = .ok out ∧
      List.Forall₂ (L.MergedChunk results)
        ((slice results k offset).splitBy fun a b => a.1 == b.1) out := by
  rw [mergeAndRerankVectorResults, hcmp]
  refine exists_mapM_takeChunk fun chunk hchunk => ?_
  replace hchunk : chunk ∈ (slice results k offset).splitBy (fun a b => a.1 == b.1) := hchunk
  have hmem : ∀ r ∈ chunk, r ∈ slice results k offset := fun r hr => by
    rw [← List.flatten_splitBy (fun a b : RankedRow δ => a.1 == b.1) (slice results k offset)]
    exact List.mem_flatten.2 ⟨chunk, hchunk, hr⟩
  have hne := List.ne_nil_of_mem_splitBy hchunk
  obtain ⟨first, rest, rfl⟩ := List.exists_cons_of_ne_nil hne
  -- all rows of a run are of the batch of its first row
  have hbatch : ∀ r ∈ first :: rest, r.1 = first.1 := by
    have hchain := List.isChain_of_mem_splitBy hchunk
    have hpairs : (first :: rest).Pairwise fun a b : RankedRow δ => a.1 = b.1 := by
      refine List.IsChain.pairwise ?_
      exact hchain.imp fun _ _ h => by simpa using h
    intro r hr
    rcases List.mem_cons.1 hr with rfl | hr
    · rfl
    · exact ((List.pairwise_cons.1 hpairs).1 r hr).symm
  obtain ⟨x, hx, hi, -⟩ := exists_of_mem_slice (hmem first List.mem_cons_self)
  have hrows : ∀ r ∈ first :: rest, r.2.1 < x.2.1.numRows := by
    intro r hr
    obtain ⟨y, -, hy, hd⟩ := exists_of_mem_slice (hmem r hr)
    rw [hbatch r hr, hi] at hy
    obtain rfl := Option.some.inj hy
    rw [← (hresults x hx).2]
    exact (List.getElem?_eq_some_iff.1 hd).1
  obtain ⟨taken, hcut, hout⟩ := exists_takeChunk (hresults x hx) hne hbatch hi hrows
  refine ⟨_, hout, x, hx, fun r hr => ⟨?_, hrows r hr⟩, taken, hcut, rfl⟩
  rw [hbatch r hr, hi]

omit [LinearOrder δ] in
/-- What the runs become, one after the other. -/
lemma flatMap_eq_of_chunks {α β γ : Type} {f : β → List γ} {g : α → γ} {chunks : List (List α)}
    {outs : List β} (h : List.Forall₂ (fun chunk out => f out = chunk.map g) chunks outs) :
    outs.flatMap f = chunks.flatten.map g := by
  induction h with
  | nil => rfl
  | cons hout _ ih => rw [List.flatMap_cons, hout, ih, List.flatten_cons, List.map_append]

variable (L results k offset) in
/-- The merge returns the rows of the slice in its order. -/
lemma exists_merge (hcmp : A.partialCmp = fun x y => some (compare x y))
    (hresults : ∀ x ∈ results, L.Paired x) :
    ∃ out, mergeAndRerankVectorResults A results k offset = .ok out ∧
      (out.flatMap fun x => L.rows x.2) = (slice results k offset).map (L.outRow results) := by
  obtain ⟨out, hout, hchunks⟩ := L.exists_mergedChunks results k offset hcmp hresults
  refine ⟨out, hout, ?_⟩
  conv_rhs => rw [← List.flatten_splitBy (fun a b : RankedRow δ => a.1 == b.1)
    (slice results k offset)]
  refine flatMap_eq_of_chunks (hchunks.imp fun {chunk out} hchunk => ?_)
  obtain ⟨x, hx, hrows, taken, hcut, rfl⟩ := hchunk
  rw [rows_chunkBatch (hresults x hx).1 (fun r hr => (hrows r hr).2) hcut]
  refine List.map_congr_left fun r hr => ?_
  rw [outRow, (hrows r hr).1]

/-- A row of the merge is right if its place and its distance are. -/
lemma outRow_spec (hresults : ∀ x ∈ results, L.Paired x) {r : RankedRow δ}
    (hr : r ∈ slice results k offset) :
    (L.resultRow results r.1 r.2.1 <+: L.outRow results r ∧
        (L.outRow results r).lookup "distance" = some (L.ofDistance r.2.2)) ↔
      L.resultRow results r.1 (r.2.1 % 2 ^ 32) = L.resultRow results r.1 r.2.1 ∧
        ∀ v, (L.resultRow results r.1 r.2.1).lookup "distance" = some v →
          v = L.ofDistance r.2.2 := by
  obtain ⟨x, hx, hi, hd⟩ := exists_of_mem_slice hr
  obtain ⟨hvalid, hlen⟩ := hresults x hx
  have hlt : r.2.1 < x.2.1.numRows := hlen ▸ (List.getElem?_eq_some_iff.1 hd).1
  have hmod : r.2.1 % 2 ^ 32 < x.2.1.numRows := (Nat.mod_le _ _).trans_lt hlt
  have hlength : (L.rowAt x.2.1 r.2.1).length = (L.rowAt x.2.1 (r.2.1 % 2 ^ 32)).length := by
    rw [rowAt, rowAt, List.length_zip, List.length_zip, ← length_cells hvalid hlt,
      ← length_cells hvalid hmod]
  have hplace : L.rowAt x.2.1 r.2.1 <+: L.mergedRow x.2.1 r ↔
      L.rowAt x.2.1 (r.2.1 % 2 ^ 32) = L.rowAt x.2.1 r.2.1 := by
    constructor
    · intro h
      exact ((List.prefix_of_prefix_length_le h (List.prefix_append _ _)
        hlength.le).eq_of_length hlength).symm
    · intro h
      rw [mergedRow, h]
      exact List.prefix_append _ _
  simp only [resultRow, outRow, hi]
  rw [hplace]
  refine and_congr_right fun hsame => ?_
  rw [mergedRow, hsame, List.lookup_append]
  by_cases hdistance : x.2.1.fields.any (fun f => f.name = "distance") = true
  · rw [if_pos hdistance, List.lookup_nil, Option.or_none]
    cases hlookup : (L.rowAt x.2.1 r.2.1).lookup "distance" with
    | none => exact absurd hdistance ((lookup_rowAt_eq_none hvalid hlt).1 hlookup)
    | some w => simp
  · rw [if_neg hdistance, (lookup_rowAt_eq_none hvalid hlt).2 hdistance]
    simp

/-! ### Truncated batches -/

omit [LinearOrder δ] in
lemma map_flattenRows (distances : List (List δ)) :
    (flattenRows distances).map (fun r => r.2.2) = distances.flatten := by
  simp only [flattenRows, List.map_flatMap, List.map_map, Function.comp_def]
  conv_rhs => rw [← List.zipIdx_map_fst 0 distances, ← List.flatMap_def]
  exact List.flatMap_congr fun ds _ => List.zipIdx_map_fst 0 ds.1

/-- The distances that the merge returns are cut out of all distances in order. -/
lemma exists_ordered_distances (distances : List (List δ)) :
    ∃ s : List δ, s.Perm distances.flatten ∧ TopK.Ordered id s ∧ ∀ k offset,
      (rankedRows (fun x y => some (compare x y)) distances k offset).map (fun r => r.2.2) =
        (s.drop offset).take k := by
  refine ⟨((flattenRows distances).mergeSort fun a b =>
    rankCmp (fun x y => some (compare x y)) a b != .gt).map fun r => r.2.2, ?_, ?_, ?_⟩
  · rw [← map_flattenRows]
    exact (List.mergeSort_perm _ _).map _
  · exact List.pairwise_map.2 (pairwise_mergeSort_rankCmp _)
  · intro k offset
    rw [rankedRows, List.map_take, List.map_drop]

lemma map_rankedRows_of_cutsDown {distances cut : List (List δ)}
    (h : CutsDown (k + offset) distances cut) :
    (rankedRows (fun x y => some (compare x y)) cut k offset).map (fun r => r.2.2) =
      (rankedRows (fun x y => some (compare x y)) distances k offset).map fun r => r.2.2 := by
  obtain ⟨s, hperm, hordered, hs⟩ := exists_ordered_distances distances
  obtain ⟨s', hperm', hordered', hs'⟩ := exists_ordered_distances cut
  obtain ⟨firsts, hfirsts, hcut⟩ : ∃ firsts,
      List.Forall₂ (TopK.IsFirst id (k + offset)) distances firsts ∧
        cut.flatten.Perm firsts.flatten := by
    clear hperm hs hperm' hs'
    induction h with
    | nil => exact ⟨[], .nil, .nil⟩
    | cons hfirst _ ih =>
      obtain ⟨first, hfirst, hsame⟩ := hfirst
      obtain ⟨firsts, hfirsts, hcut⟩ := ih
      exact ⟨first :: firsts, .cons hfirst hfirsts, hsame.append hcut⟩
  obtain ⟨t, ht, htordered, htake⟩ := TopK.isFirst_flatten hfirsts (hperm'.trans hcut) hordered'
  have hst : t = s := (ht.trans hperm.symm).eq_of_pairwise (fun _ _ _ _ => le_antisymm)
    htordered hordered
  have hslice : ∀ l : List δ, (l.drop offset).take k = (l.take (k + offset)).drop offset := by
    intro l
    rw [List.drop_take, Nat.add_sub_cancel]
  rw [hs, hs', hslice, hslice, htake, hst]

/-- The merge gives the global top `k` exactly if neither a column `distance` nor the width of row
numbers shows in it. -/
theorem globalTopK_iff (L : LawfulArrow A ν) (hcmp : A.partialCmp = fun x y => some (compare x y))
    (results : List (String × PlanBatch τ κ × List δ)) (hresults : ∀ x ∈ results, L.Paired x)
    (k offset : ℕ) : L.GlobalTopK results k offset ↔ L.Plain results k offset := by
  obtain ⟨out, hout, hrows⟩ := L.exists_merge results k offset hcmp hresults
  have hspec : List.Forall₂ (fun row r => L.resultRow results r.1 r.2.1 <+: row ∧
      row.lookup "distance" = some (L.ofDistance r.2.2))
        (out.flatMap fun x => L.rows x.2) (slice results k offset) ↔ L.Plain results k offset := by
    rw [hrows, List.forall₂_map_left_iff, List.forall₂_same]
    exact forall₂_congr fun r hr => outRow_spec hresults hr
  constructor
  · rintro ⟨⟨out', hout', hall⟩, -⟩
    obtain rfl := Except.ok.inj (hout'.symm.trans hout)
    exact hspec.1 hall
  · intro hplain
    exact ⟨⟨out, hout, hspec.2 hplain⟩, fun cut hcut => map_rankedRows_of_cutsDown hcut⟩

end LawfulArrow

/-! ### A column with the name of the distance -/

lemma tryNew_sampleArrow (fields : List (PlanField Unit)) (columns : List (List ℕ)) (n : ℕ)
    (hne : columns ≠ []) (hlen : ∀ col ∈ columns, col.length = n) :
    sampleArrow.tryNew fields columns = .ok ⟨fields, columns, n⟩ := by
  obtain ⟨col, rest, rfl⟩ := List.exists_cons_of_ne_nil hne
  rw [← hlen col List.mem_cons_self]
  rfl

lemma take_sampleArrow (col indices : List ℕ) (h : ∀ i ∈ indices, i < col.length) {j i : ℕ}
    (hj : indices[j]? = some i) : (indices.map fun i => col.getD i 0)[j]? = col[i]? := by
  have hi := h i (List.mem_of_getElem? hj)
  rw [List.getElem?_map, hj, Option.map_some, List.getD_eq_getElem _ _ hi,
    List.getElem?_eq_getElem hi]

def sampleLawful : LawfulArrow sampleArrow ℕ where
  cells := id
  ofDistance := id
  Fits _ _ := True
  take_spec col indices h := ⟨_, rfl, by simp, fun _ _ => take_sampleArrow col indices h,
    fun _ _ => trivial⟩
  cells_float32Array ds := (List.map_id ds).symm
  fits_float32Array _ := trivial
  tryNew_spec fields columns n hne _ hlen := tryNew_sampleArrow fields columns n hne hlen

lemma paired_sampleLawful {x : String × PlanBatch Unit (List ℕ) × List ℕ}
    (hfields : x.2.1.fields.length = x.2.1.columns.length)
    (hcolumns : ∀ col ∈ x.2.1.columns, col.length = x.2.1.numRows)
    (hdistances : x.2.2.length = x.2.1.numRows) : sampleLawful.Paired x :=
  ⟨⟨List.forall₂_iff_get.2 ⟨hfields, fun _ _ _ => trivial⟩, hcolumns⟩, hdistances⟩

/-- Five rows in two batches, three of them at distance 1. -/
def twoBatches : List (String × PlanBatch Unit (List ℕ) × List ℕ) :=
  [("a", ⟨[idField], [[7, 8, 9]], 3⟩, [3, 1, 1]), ("b", ⟨[idField], [[4, 5]], 2⟩, [1, 2])]

/-- The first place is skipped, and the last two rows are a run of the second batch. -/
lemma slice_twoBatches :
    LawfulArrow.slice twoBatches 3 1 = [(0, 2, 1), (1, 0, 1), (1, 1, 2)] := by
  have hsorted := mergeSort_rankCmp_eq (flattenRows (twoBatches.map fun x => x.2.2))
    [(0, 1, 1), (0, 2, 1), (1, 0, 1), (1, 1, 2), (0, 0, 3)] (by decide) (by decide)
  rw [LawfulArrow.slice, rankedRows, hsorted]
  rfl

theorem globalTopK_twoBatches : sampleLawful.GlobalTopK twoBatches 3 1 := by
  refine (LawfulArrow.globalTopK_iff sampleLawful rfl _ ?_ 3 1).2 ?_
  · intro x hx
    simp only [twoBatches, List.mem_cons, List.not_mem_nil, or_false] at hx
    rcases hx with rfl | rfl
    · exact paired_sampleLawful rfl (by decide) rfl
    · exact paired_sampleLawful rfl (by decide) rfl
  · intro r hr
    rw [slice_twoBatches] at hr
    simp only [List.mem_cons, List.not_mem_nil, or_false] at hr
    rcases hr with rfl | rfl | rfl <;> exact ⟨rfl, fun v hv => by cases hv⟩

/-- One row at distance 0 with a column `distance`, where it has 5. -/
def oneHit : List (String × PlanBatch Unit (List ℕ) × List ℕ) :=
  [("a", ⟨[idField, distanceField], [[7], [5]], 1⟩, [0])]

/-- The row is returned with its column `distance`. -/
theorem not_globalTopK_oneHit : ¬ sampleLawful.GlobalTopK oneHit 1 0 := by
  have hpaired : ∀ x ∈ oneHit, sampleLawful.Paired x := by
    intro x hx
    obtain rfl := List.mem_singleton.1 hx
    exact paired_sampleLawful rfl (by decide) rfl
  obtain ⟨out, hout, hrows⟩ := sampleLawful.exists_merge oneHit 1 0 rfl hpaired
  rintro ⟨⟨out', hout', hall⟩, -⟩
  obtain rfl := Except.ok.inj (hout'.symm.trans hout)
  rw [hrows, List.forall₂_map_left_iff, List.forall₂_same] at hall
  have hmem : ((0, 0, 0) : RankedRow ℕ) ∈ LawfulArrow.slice oneHit 1 0 := by
    simp [LawfulArrow.slice, oneHit, rankedRows, flattenRows]
  have hfive := ((LawfulArrow.outRow_spec hpaired hmem).1 (hall _ hmem)).2 5 rfl
  cases hfive

end BenoStreamDB

import BenoStreamDB.Foundations.Selection
import Mathlib.Algebra.Order.BigOperators.Group.List

/-!
# Scans of row groups

`bitmap_to_row_selection` of `reader/filter.rs` and `stream_row_groups` of `reader/scan.rs`. A data
file is the list of its row groups. The deleted positions count the rows of the whole file, while
the Parquet reader takes a row selection relative to the row groups it was restricted to, so a
restricted scan is exact only for a set of deleted positions that the two ways of counting do not
tell apart: `exactScan_iff_aligned`.

The mapping of the rows to a target schema acts on one row at a time and is left out.
-/

namespace BenoStreamDB

open Selection (Selector rowsIn)

/-! ### From a bitmap to a row selection -/

/-- The loop variables of `bitmap_to_row_selection`. -/
structure SelectionState where
  selectors : List Selector := []
  lastIdx : ℕ := 0
  /-- `current_start` and `current_end`, which are set together. -/
  current : Option (ℕ × ℕ) := none

namespace SelectionState

/-- The gap up to which ranges are merged: adjacent rows only. -/
def gapThreshold : ℕ := 1

/-- Flush the range of the rows from `first` to `last`. -/
def flush (st : SelectionState) (first last : ℕ) : SelectionState where
  selectors := st.selectors ++
    (if st.lastIdx < first then [.skip (first - st.lastIdx)] else []) ++
      [.select (last - first + 1)]
  lastIdx := last + 1

def visit (st : SelectionState) (idx : ℕ) : SelectionState :=
  match st.current with
  | none => { st with current := some (idx, idx) }
  | some (first, last) =>
    if idx ≤ last + gapThreshold then { st with current := some (first, idx) }
    else { st.flush first last with current := some (idx, idx) }

def flushLast (st : SelectionState) : SelectionState :=
  match st.current with
  | none => st
  | some (first, last) => st.flush first last

end SelectionState

/-- `bitmap_to_row_selection`; the bitmap is given by its elements in ascending order. -/
def bitmapToRowSelection (bitmap : List ℕ) (totalRows : ℕ) : List Selector :=
  if bitmap.isEmpty then [.skip totalRows]
  else
    let st := (bitmap.foldl SelectionState.visit {}).flushLast
    st.selectors ++ if st.lastIdx < totalRows then [.skip (totalRows - st.lastIdx)] else []

namespace SelectionState

variable {st : SelectionState} {done : List ℕ} {first last : ℕ}

/-- The flushed ranges are the positions `done`. -/
structure Selects (st : SelectionState) (done : List ℕ) : Prop where
  span : Selection.span st.selectors = st.lastIdx
  apply : ∀ {ρ : Type} (xs : List ρ), Selection.apply st.selectors xs = rowsIn xs done

lemma Selects.flush (h : st.Selects done) (hfirst : st.lastIdx ≤ first) (hlast : first ≤ last) :
    (st.flush first last).Selects (done ++ List.range' first (last - first + 1)) := by
  by_cases hgap : st.lastIdx < first
  · constructor
    · simp [SelectionState.flush, hgap, Selection.span_append, Selection.span, h.span]
      omega
    · intro ρ xs
      have hskip : st.lastIdx + (first - st.lastIdx) = first := by omega
      simp [SelectionState.flush, hgap, Selection.apply_append, h.span, h.apply,
        Selection.rowsIn_append, Selection.rowsIn_range', hskip]
  · have heq : st.lastIdx = first := by omega
    constructor
    · simp [SelectionState.flush, hgap, Selection.span_append, Selection.span, h.span]
      omega
    · intro ρ xs
      simp [SelectionState.flush, Selection.apply_append, h.span, h.apply,
        Selection.rowsIn_append, Selection.rowsIn_range', heq]

/-- The rest of the loop, from a state with a current range. -/
lemma Selects.foldl_visit {rest : List ℕ} (h : st.Selects done)
    (hcurrent : st.current = some (first, last)) (hfirst : st.lastIdx ≤ first)
    (hlast : first ≤ last) (hsorted : (last :: rest).Pairwise (· < ·)) :
    ((rest.foldl visit st).flushLast).Selects
      (done ++ List.range' first (last - first + 1) ++ rest) := by
  induction rest generalizing st done first last with
  | nil =>
    simpa [flushLast, hcurrent] using h.flush hfirst hlast
  | cons idx rest ih =>
    have hidx : last < idx := List.rel_of_pairwise_cons hsorted (by simp)
    have hrest : (idx :: rest).Pairwise (· < ·) := hsorted.of_cons
    rw [List.foldl_cons]
    by_cases hgap : idx ≤ last + gapThreshold
    · -- the row is adjacent and extends the current range
      have hnext : idx = last + 1 := by
        have : gapThreshold = 1 := rfl
        omega
      have hvisit : st.visit idx = { st with current := some (first, idx) } := by
        simp [visit, hcurrent, hgap]
      have hrun : List.range' first (idx - first + 1) =
          List.range' first (last - first + 1) ++ [idx] := by
        have hlen : idx - first + 1 = last - first + 1 + 1 := by omega
        rw [hlen, List.range'_concat]
        congr 2
        omega
      rw [hvisit]
      have hst : ({ st with current := some (first, idx) } : SelectionState).Selects done :=
        ⟨h.span, h.apply⟩
      have hstep := ih hst rfl hfirst (by omega) hrest
      rwa [hrun, ← List.append_assoc, List.append_assoc _ [idx] rest] at hstep
    · -- the row starts a new range
      have hvisit : st.visit idx = { st.flush first last with current := some (idx, idx) } := by
        simp [visit, hcurrent, hgap]
      have hflush := h.flush hfirst hlast
      rw [hvisit]
      have hst : ({ st.flush first last with current := some (idx, idx) } :
          SelectionState).Selects (done ++ List.range' first (last - first + 1)) :=
        ⟨hflush.span, hflush.apply⟩
      have hstep := ih hst rfl (Nat.succ_le_of_lt hidx) le_rfl hrest
      simpa [List.range'_succ] using hstep

end SelectionState

/-- The selection of a bitmap selects the rows of the bitmap. -/
theorem apply_bitmapToRowSelection {ρ : Type} {bitmap : List ℕ}
    (hsorted : bitmap.Pairwise (· < ·)) (totalRows : ℕ) (xs : List ρ) :
    Selection.apply (bitmapToRowSelection bitmap totalRows) xs = rowsIn xs bitmap := by
  cases bitmap with
  | nil => simp [bitmapToRowSelection]
  | cons idx rest =>
    have hst : SelectionState.Selects { current := some (idx, idx) } [] :=
      ⟨rfl, fun _ => rfl⟩
    have hrun := hst.foldl_visit rfl (Nat.zero_le _) le_rfl hsorted
    have hvisit : SelectionState.visit {} idx = { current := some (idx, idx) } := rfl
    simp only [bitmapToRowSelection, List.isEmpty_cons, Bool.false_eq_true, if_false,
      List.foldl_cons, hvisit]
    -- a skip at the end selects nothing
    have htail (n m : ℕ) (ys : List ρ) :
        Selection.apply (if n < m then [.skip (m - n)] else []) ys = [] := by
      by_cases hnm : n < m <;> simp [hnm]
    rw [Selection.apply_append, htail, List.append_nil, hrun.apply]
    simp

/-! ### The form of the selection -/

namespace SelectionState

variable {st : SelectionState} {first last n : ℕ}

/-- The flushed ranges alternate with gaps, the last of them is selected, and none of them goes
beyond the first `n` rows. -/
structure Tidy (st : SelectionState) (n : ℕ) : Prop where
  alternating : Selection.Alternating st.selectors
  ends : ∀ a ∈ st.selectors.getLast?, a.skips = false
  lastIdx_le : st.lastIdx ≤ n

lemma Tidy.flush (h : st.Tidy n) (hgap : st.selectors ≠ [] → st.lastIdx < first)
    (hlast : last < n) : (st.flush first last).Tidy n := by
  have hselect : Selection.Alternating [.select (last - first + 1)] := .singleton (Nat.succ_pos _)
  refine ⟨?_, by simp [SelectionState.flush, Selector.skips], hlast⟩
  by_cases hskip : st.lastIdx < first
  · -- the gap is skipped, between two selected ranges
    have hpos : Selection.Alternating [.skip (first - st.lastIdx)] :=
      .singleton (Nat.sub_pos_of_lt hskip)
    have hskipped := h.alternating.append hpos (by simpa [Selector.skips] using h.ends)
    simpa [SelectionState.flush, hskip] using
      hskipped.append hselect (by simp [Selector.skips])
  · -- only the first range can start where the previous one ended
    have hnil : st.selectors = [] := by
      by_contra hne
      exact hskip (hgap hne)
    simpa [SelectionState.flush, hskip, hnil] using hselect

/-- The rest of the loop, from a state with a current range. -/
lemma Tidy.foldl_visit {rest : List ℕ} (h : st.Tidy n) (hcurrent : st.current = some (first, last))
    (hgap : st.selectors ≠ [] → st.lastIdx < first)
    (hsorted : (last :: rest).Pairwise (· < ·)) (hbound : ∀ i ∈ last :: rest, i < n) :
    (rest.foldl visit st).flushLast.Tidy n := by
  have hlast : last < n := hbound last List.mem_cons_self
  induction rest generalizing st first last with
  | nil => simpa [flushLast, hcurrent] using h.flush hgap hlast
  | cons idx rest ih =>
    have hrest : (idx :: rest).Pairwise (· < ·) := hsorted.of_cons
    have hbounds : ∀ i ∈ idx :: rest, i < n := fun i hi => hbound i (List.mem_cons_of_mem last hi)
    rw [List.foldl_cons]
    by_cases hadjacent : idx ≤ last + gapThreshold
    · have hvisit : st.visit idx = { st with current := some (first, idx) } := by
        simp [visit, hcurrent, hadjacent]
      rw [hvisit]
      exact ih ⟨h.alternating, h.ends, h.lastIdx_le⟩ rfl hgap hrest hbounds
        (hbounds idx List.mem_cons_self)
    · have hvisit : st.visit idx = { st.flush first last with current := some (idx, idx) } := by
        simp [visit, hcurrent, hadjacent]
      have hflush := h.flush hgap hlast
      rw [hvisit]
      exact ih ⟨hflush.alternating, hflush.ends, hflush.lastIdx_le⟩ rfl
        (fun _ => not_le.1 hadjacent) hrest hbounds (hbounds idx List.mem_cons_self)

end SelectionState

/-- The selection of a bitmap selects exactly the rows of the bitmap, speaks about every row, and
alternates between runs of rows that are skipped and runs that are selected. -/
theorem bitmapToRowSelection_spec {bitmap : List ℕ} {totalRows : ℕ} (htotal : 1 ≤ totalRows)
    (hsorted : bitmap.Pairwise (· < ·)) (hbound : ∀ i ∈ bitmap, i < totalRows) :
    Selection.apply (bitmapToRowSelection bitmap totalRows) (List.range totalRows) = bitmap ∧
      ((bitmapToRowSelection bitmap totalRows).map Selector.rowCount).sum = totalRows ∧
      (∀ s ∈ bitmapToRowSelection bitmap totalRows, 0 < s.rowCount) ∧
      (bitmapToRowSelection bitmap totalRows).IsChain fun s t => s.skips ≠ t.skips := by
  refine ⟨?_, ?_⟩
  · rw [apply_bitmapToRowSelection hsorted, Selection.rowsIn_range hbound]
  rw [← Selection.span_eq_sum]
  cases bitmap with
  | nil =>
    have hskip : Selection.Alternating [.skip totalRows] := .singleton htotal
    exact ⟨rfl, hskip.pos, hskip.chain⟩
  | cons idx rest =>
    have hselects : SelectionState.Selects { current := some (idx, idx) } [] :=
      ⟨rfl, fun _ => rfl⟩
    have htidy : SelectionState.Tidy { current := some (idx, idx) } totalRows :=
      ⟨.nil, by simp, Nat.zero_le _⟩
    have hspan := (hselects.foldl_visit rfl (Nat.zero_le _) le_rfl hsorted).span
    have hrun := htidy.foldl_visit rfl (by simp) hsorted hbound
    have hvisit : SelectionState.visit {} idx = { current := some (idx, idx) } := rfl
    simp only [bitmapToRowSelection, List.isEmpty_cons, Bool.false_eq_true, if_false,
      List.foldl_cons, hvisit]
    generalize (rest.foldl SelectionState.visit { current := some (idx, idx) }).flushLast = st
      at hspan hrun ⊢
    by_cases htail : st.lastIdx < totalRows
    · have hskip : Selection.Alternating [.skip (totalRows - st.lastIdx)] :=
        .singleton (Nat.sub_pos_of_lt htail)
      have hall := hrun.alternating.append hskip (by simpa [Selector.skips] using hrun.ends)
      rw [if_pos htail]
      refine ⟨?_, hall.pos, hall.chain⟩
      rw [Selection.span_append, hspan]
      exact Nat.add_sub_cancel' hrun.lastIdx_le
    · rw [if_neg htail, List.append_nil, hspan]
      exact ⟨le_antisymm hrun.lastIdx_le (not_lt.1 htail), hrun.alternating.pos,
        hrun.alternating.chain⟩

theorem bitmapToRowSelection_spec_gaps :
    Selection.apply (bitmapToRowSelection [1, 2, 4] 6) (List.range 6) = [1, 2, 4] ∧
      ((bitmapToRowSelection [1, 2, 4] 6).map Selector.rowCount).sum = 6 ∧
      (∀ s ∈ bitmapToRowSelection [1, 2, 4] 6, 0 < s.rowCount) ∧
      (bitmapToRowSelection [1, 2, 4] 6).IsChain fun s t => s.skips ≠ t.skips :=
  bitmapToRowSelection_spec (by decide) (by decide) (by decide)

/-! ### The scan -/

section Scan

variable {ρ : Type}

/-- The position in the file of the first row of a row group. -/
def groupOffset (sizes : List ℕ) (i : ℕ) : ℕ := (sizes.take i).sum

/-- The rows of the given row groups with their positions in the file. -/
def groupRows (file : List (List ρ)) (rowGroups : List ℕ) : List (ρ × ℕ) :=
  rowGroups.flatMap fun i =>
    (file.getD i []).zipIdx (groupOffset (file.map List.length) i)

/-- `stream_row_groups`: `deleted` are the positions of `load_merged_deletes`, `keeps` tells the
rows that pass the equality deletes. -/
def streamRowGroups (file : List (List ρ)) (deleted : List ℕ) (keeps : ρ → Bool)
    (rowGroups : Option (List ℕ)) : List ρ :=
  let scanned := match rowGroups with
    | some rgs => rgs.flatMap fun i => file.getD i []
    | none => file.flatten
  let selected :=
    if deleted.isEmpty then scanned
    else
      let numRows := (file.map List.length).sum
      -- `0..num_rows as u32`
      let valid := (List.range (numRows % 2 ^ 32)).filter fun n => !deleted.contains n
      Selection.apply (bitmapToRowSelection valid numRows) scanned
  selected.filter keeps

/-- The live rows of the given row groups, in the order of the groups. -/
def liveRows (file : List (List ρ)) (deleted : List ℕ) (keeps : ρ → Bool) (rowGroups : List ℕ) :
    List ρ :=
  (((groupRows file rowGroups).filter fun r => !deleted.contains r.2).map Prod.fst).filter keeps

/-- The positions in the file of the rows of the given row groups. -/
def scannedPositions (sizes rowGroups : List ℕ) : List ℕ :=
  rowGroups.flatMap fun i => List.range' (groupOffset sizes i) (sizes.getD i 0)

/-- Counted within the scanned row groups, the deleted positions hit the same rows as counted
within the file (of which the code sees `num_rows as u32` rows). -/
def Aligned (sizes deleted rowGroups : List ℕ) : Prop :=
  deleted = [] ∨ ∀ r ∈ (scannedPositions sizes rowGroups).zipIdx,
    (r.1 ∈ deleted ↔ r.2 ∈ deleted ∨ sizes.sum % 2 ^ 32 ≤ r.2)

instance (sizes deleted rowGroups : List ℕ) : Decidable (Aligned sizes deleted rowGroups) :=
  inferInstanceAs (Decidable (_ ∨ _))

/-- For every file with row groups of these sizes, the scan of the given row groups returns their
live rows. -/
def ExactScan (sizes deleted rowGroups : List ℕ) : Prop :=
  ∀ (ρ : Type) (file : List (List ρ)) (keeps : ρ → Bool), file.map List.length = sizes →
    streamRowGroups file deleted keeps (some rowGroups) = liveRows file deleted keeps rowGroups

variable {file : List (List ρ)} {sizes deleted rowGroups : List ℕ} {keeps : ρ → Bool}

lemma map_fst_groupRows :
    (groupRows file rowGroups).map Prod.fst = rowGroups.flatMap fun i => file.getD i [] := by
  simp [groupRows, List.map_flatMap]

lemma map_snd_groupRows (hfile : file.map List.length = sizes) :
    (groupRows file rowGroups).map Prod.snd = scannedPositions sizes rowGroups := by
  subst hfile
  simp only [groupRows, scannedPositions, List.map_flatMap]
  congr 1
  funext i
  have hlen : (file.map List.length).getD i 0 = (file.getD i []).length := by
    simp [List.getD_eq_getElem?_getD]
    cases file[i]? <;> rfl
  rw [hlen, List.zipIdx_map_snd]

/-- The live rows, with the rows also counted within the scanned row groups. -/
lemma liveRows_eq : liveRows file deleted keeps rowGroups =
    (((groupRows file rowGroups).zipIdx.filter fun r => !deleted.contains r.1.2).map
      fun r => r.1.1).filter keeps := by
  have hfilter : (groupRows file rowGroups).filter (fun r => !deleted.contains r.2) =
      ((groupRows file rowGroups).zipIdx.filter fun r => !deleted.contains r.1.2).map Prod.fst := by
    conv_lhs => rw [← List.zipIdx_map_fst 0 (groupRows file rowGroups), List.filter_map]
    rfl
  rw [liveRows, hfilter, List.map_map]
  rfl

/-- The rows that a restricted scan returns: the deleted positions are those counted within the
scanned row groups. -/
lemma streamRowGroups_eq (hdeleted : deleted ≠ []) :
    streamRowGroups file deleted keeps (some rowGroups) =
      (((groupRows file rowGroups).zipIdx.filter fun r =>
        decide (r.2 < (file.map List.length).sum % 2 ^ 32) && !deleted.contains r.2).map
          fun r => r.1.1).filter keeps := by
  have hsorted : ((List.range ((file.map List.length).sum % 2 ^ 32)).filter
      fun n => !deleted.contains n).Pairwise (· < ·) := List.pairwise_lt_range.filter _
  have hempty : deleted.isEmpty = false := by simpa using hdeleted
  simp only [streamRowGroups, hempty, Bool.false_eq_true, if_false]
  rw [apply_bitmapToRowSelection hsorted, Selection.rowsIn_filter_range, ← map_fst_groupRows,
    List.zipIdx_map]
  simp [List.filter_map, Function.comp_def]

lemma keepsAlike_iff {m p k : ℕ} :
    (decide (k < m) && !deleted.contains k) = (!deleted.contains p) ↔
      (p ∈ deleted ↔ k ∈ deleted ∨ m ≤ k) := by
  by_cases hk : k < m
  · have hm : ¬ m ≤ k := by omega
    by_cases hd : k ∈ deleted <;> by_cases hp : p ∈ deleted <;> simp [hk, hm, hd, hp]
  · have hm : m ≤ k := by omega
    by_cases hp : p ∈ deleted <;> simp [hk, hm, hp]

lemma Aligned.exactScan (h : Aligned sizes deleted rowGroups) :
    ExactScan sizes deleted rowGroups := by
  intro ρ file keeps hfile
  obtain rfl | h := h
  · simp [streamRowGroups, liveRows, map_fst_groupRows]
  · by_cases hdeleted : deleted = []
    · subst hdeleted
      simp [streamRowGroups, liveRows, map_fst_groupRows]
    · rw [streamRowGroups_eq hdeleted, liveRows_eq, hfile]
      congr 2
      apply List.filter_congr
      rintro ⟨⟨x, p⟩, k⟩ hr
      have hpos : (p, k) ∈ (scannedPositions sizes rowGroups).zipIdx := by
        rw [← map_snd_groupRows hfile, List.zipIdx_map]
        exact List.mem_map_of_mem (f := Prod.map Prod.snd id) hr
      exact keepsAlike_iff.2 (h _ hpos)

/-- The row groups of a file in which every row is its own position. -/
def positionFile (sizes : List ℕ) : List (List ℕ) :=
  (List.range sizes.length).map fun i => List.range' (groupOffset sizes i) (sizes.getD i 0)

lemma length_positionFile : (positionFile sizes).map List.length = sizes := by
  apply List.ext_getElem
  · simp [positionFile]
  · intro i h₁ h₂
    simp [positionFile, h₂]

lemma flatMap_positionFile :
    (rowGroups.flatMap fun i => (positionFile sizes).getD i []) =
      scannedPositions sizes rowGroups := by
  rw [scannedPositions]
  congr 1
  funext i
  by_cases hi : i < sizes.length
  · simp [positionFile, hi]
  · simp [positionFile, hi]

lemma groupOffset_succ (sizes : List ℕ) (i : ℕ) :
    groupOffset sizes (i + 1) = groupOffset sizes i + sizes.getD i 0 := by
  rw [groupOffset, groupOffset, List.take_add_one, List.sum_append, List.getD_eq_getElem?_getD]
  cases sizes[i]? <;> simp

lemma flatten_positionFile (sizes : List ℕ) :
    (positionFile sizes).flatten = List.range sizes.sum := by
  suffices h : ∀ n, ((List.range n).map fun i =>
      List.range' (groupOffset sizes i) (sizes.getD i 0)).flatten =
        List.range (groupOffset sizes n) by
    rw [positionFile, h, groupOffset, List.take_length]
  intro n
  induction n with
  | zero => rfl
  | succ n ih =>
    rw [List.range_succ, List.map_append, List.flatten_append, ih, groupOffset_succ,
      List.range_eq_range', List.range_eq_range', ← List.range'_append_1]
    simp

/-- Every position is in a row group. -/
lemma lt_sum_iff {sizes : List ℕ} {p : ℕ} : p < sizes.sum ↔ ∃ i < sizes.length,
    p ∈ List.range' (groupOffset sizes i) (sizes.getD i 0) := by
  rw [← List.mem_range, ← flatten_positionFile, List.mem_flatten]
  simp only [positionFile, List.mem_map, List.mem_range]
  constructor
  · rintro ⟨_, ⟨i, hi, rfl⟩, hp⟩
    exact ⟨i, hi, hp⟩
  · rintro ⟨i, hi, hp⟩
    exact ⟨_, ⟨i, hi, rfl⟩, hp⟩

lemma groupOffset_add_le (sizes : List ℕ) {i j : ℕ} (hij : i < j) :
    groupOffset sizes i + sizes.getD i 0 ≤ groupOffset sizes j := by
  have hskipped : (sizes.take (i + 1)).Sublist (sizes.take j) :=
    (List.take_prefix_take_left hij).sublist
  rw [← groupOffset_succ]
  exact hskipped.sum_le_sum fun _ _ => Nat.zero_le _

lemma nodup_scannedPositions (hnodup : rowGroups.Nodup) :
    (scannedPositions sizes rowGroups).Nodup := by
  rw [scannedPositions, List.nodup_flatMap]
  refine ⟨fun i _ => List.nodup_range', hnodup.imp ?_⟩
  intro i j hij n hi hj
  obtain ⟨hi₁, hi₂⟩ := List.mem_range'_1.1 hi
  obtain ⟨hj₁, hj₂⟩ := List.mem_range'_1.1 hj
  rcases Nat.lt_or_gt_of_ne hij with h | h
  all_goals
    have := groupOffset_add_le sizes h
    omega

/-- Row groups that are listed in ascending order have their rows in file order. -/
theorem pairwise_groupRows (hsorted : rowGroups.Pairwise (· < ·)) :
    ((groupRows file rowGroups).map Prod.snd).Pairwise (· < ·) := by
  rw [map_snd_groupRows rfl, scannedPositions, List.pairwise_flatMap]
  refine ⟨fun i _ => List.pairwise_lt_range', hsorted.imp ?_⟩
  intro i j hij n hn m hm
  have hn := (List.mem_range'_1.1 hn).2
  have hm := (List.mem_range'_1.1 hm).1
  exact hn.trans_le ((groupOffset_add_le _ hij).trans hm)

lemma ExactScan.aligned (hnodup : rowGroups.Nodup) (h : ExactScan sizes deleted rowGroups) :
    Aligned sizes deleted rowGroups := by
  by_cases hdeleted : deleted = []
  · exact Or.inl hdeleted
  · right
    -- In a file whose rows are their own positions, no two rows are equal.
    have hscan := h ℕ (positionFile sizes) (fun _ => true) length_positionFile
    rw [streamRowGroups_eq hdeleted, liveRows_eq, List.filter_true, List.filter_true,
      length_positionFile] at hscan
    have hrows : (groupRows (positionFile sizes) rowGroups).zipIdx.map (fun r => r.1.1) =
        scannedPositions sizes rowGroups := by
      have hfst := List.zipIdx_map_fst 0 (groupRows (positionFile sizes) rowGroups)
      have hmap := congrArg (List.map Prod.fst) hfst
      rw [List.map_map, map_fst_groupRows, flatMap_positionFile] at hmap
      exact hmap
    have hsame := Selection.forall_eq_of_map_filter_eq
      (by rw [hrows]; exact nodup_scannedPositions hnodup) hscan
    rintro ⟨p, k⟩ hpos
    rw [← map_snd_groupRows length_positionFile, List.zipIdx_map] at hpos
    obtain ⟨⟨⟨x, p⟩, k⟩, hr, heq⟩ := List.mem_map.1 hpos
    obtain ⟨rfl, rfl⟩ := Prod.mk.inj heq
    exact keepsAlike_iff.1 (hsame _ hr)

lemma liveRows_flatMap : liveRows file deleted keeps rowGroups =
    rowGroups.flatMap fun i => liveRows file deleted keeps [i] := by
  induction rowGroups with
  | nil => rfl
  | cons i rowGroups ih =>
    rw [List.flatMap_cons, ← ih]
    simp [liveRows, groupRows]

lemma streamRowGroups_none : streamRowGroups file deleted keeps none =
    streamRowGroups file deleted keeps (some (List.range file.length)) := by
  have hall : ((List.range file.length).flatMap fun i => file.getD i []) = file.flatten := by
    rw [List.flatMap_def]
    congr 1
    apply List.ext_getElem
    · simp
    · intro i h₁ h₂
      simp [h₂]
  simp only [streamRowGroups, hall]

/-- A scan of row groups returns their live rows exactly if the deleted positions are aligned with
them; where this holds of each single row group and of all together, the scans of the single row
groups give the scan of the file. -/
theorem exactScan_iff_aligned (sizes deleted : List ℕ) :
    (∀ rowGroups : List ℕ, rowGroups.Nodup →
      (ExactScan sizes deleted rowGroups ↔ Aligned sizes deleted rowGroups)) ∧
    (Aligned sizes deleted (List.range sizes.length) →
      (∀ i < sizes.length, Aligned sizes deleted [i]) →
        ∀ (ρ : Type) (file : List (List ρ)) (keeps : ρ → Bool), file.map List.length = sizes →
          ((List.range sizes.length).flatMap fun i =>
            streamRowGroups file deleted keeps (some [i])) =
              streamRowGroups file deleted keeps none) := by
  refine ⟨fun rowGroups hnodup => ⟨ExactScan.aligned hnodup, Aligned.exactScan⟩, ?_⟩
  intro hall hsingle ρ file keeps hfile
  have hlen : file.length = sizes.length := by simp [← hfile]
  rw [streamRowGroups_none, hlen, hall.exactScan ρ file keeps hfile, liveRows_flatMap]
  apply List.flatMap_congr
  intro i hi
  exact (hsingle i (List.mem_range.1 hi)).exactScan ρ file keeps hfile

theorem exactScan_firstGroups :
    ExactScan [2, 1, 2] [1, 4] [0, 1] ∧
      ([0, 1].flatMap fun i =>
        streamRowGroups [[10, 20], [30, 40]] [1, 3] (fun _ => true) (some [i])) =
          streamRowGroups [[10, 20], [30, 40]] [1, 3] (fun _ => true) none :=
  ⟨((exactScan_iff_aligned [2, 1, 2] [1, 4]).1 [0, 1] (by decide)).2 (by decide),
    (exactScan_iff_aligned [2, 2] [1, 3]).2 (by decide) (by decide) ℕ [[10, 20], [30, 40]] _ rfl⟩

/-- With the first of two rows deleted, the scan of the second row group is empty. -/
theorem not_exactScan_secondGroup : ¬ ExactScan [1, 1] [0] [1] := by
  intro h
  have hscan := h ℕ [[10], [20]] (fun _ => true) rfl
  revert hscan
  decide

end Scan

end BenoStreamDB

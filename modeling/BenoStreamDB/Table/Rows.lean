import BenoStreamDB.Manifest.Refinement
import BenoStreamDB.Table.Lake

/-!
# The rows of a table

The live rows of a table as a multiset, computed from its set of files and its list of delete
files, and the list of delete files after some are added.
-/

namespace BenoStreamDB

variable {ρ : Type}

/-! ### Rows of a table -/

namespace Lake

variable (L : Lake ρ)

/-- The rows that a reader of all entries returns. -/
def rowsOf (m : EntryMap) : Multiset ρ := (m.values.map fun e => (L.live e : Multiset ρ)).sum

end Lake

lemma TableModel.get?_view {t : TableModel} {p : Path} :
    t.view.get? p = (t.entries.get? p).map fun e =>
      { e with deleteFiles := deletesOf t.deletes e.partitionValues } :=
  KeyedMap.get?_mapValues _ _ _ _

/-! ### Adding delete files -/

section Deletes

variable {ds xs : List DeleteFile}

lemma mem_pushNewDelete {d x : DeleteFile} (h : d ∈ pushNewDelete ds x) : d ∈ ds ∨ d = x := by
  unfold pushNewDelete at h
  split_ifs at h
  · exact .inl h
  · simpa using h

lemma mem_pushNewDelete_of_mem {d x : DeleteFile} (h : d ∈ ds) : d ∈ pushNewDelete ds x := by
  unfold pushNewDelete
  split_ifs
  · exact h
  · exact List.mem_append_left _ h

lemma mem_or_mem_of_mem_pushed {d : DeleteFile} (h : d ∈ xs.foldl pushNewDelete ds) :
    d ∈ ds ∨ d ∈ xs := by
  induction xs generalizing ds with
  | nil => exact .inl h
  | cons x xs ih =>
    rcases ih h with h | h
    · rcases mem_pushNewDelete h with h | rfl
      · exact .inl h
      · exact .inr List.mem_cons_self
    · exact .inr (List.mem_cons_of_mem x h)

lemma mem_pushed_of_mem {d : DeleteFile} (h : d ∈ ds) : d ∈ xs.foldl pushNewDelete ds := by
  induction xs generalizing ds with
  | nil => exact h
  | cons x xs ih => exact ih (mem_pushNewDelete_of_mem h)

/-- A delete file whose path no other one has is pushed. -/
lemma mem_pushed {d : DeleteFile} (h : d ∈ xs)
    (hnew : ∀ d' ∈ ds, d'.filePath = d.filePath → d' = d)
    (honce : ∀ d' ∈ xs, d'.filePath = d.filePath → d' = d) : d ∈ xs.foldl pushNewDelete ds := by
  induction xs generalizing ds with
  | nil => cases h
  | cons x xs ih =>
    rcases List.mem_cons.1 h with rfl | hmem
    · have hpush : d ∈ pushNewDelete ds d := by
        unfold pushNewDelete
        split_ifs with hd
        · obtain ⟨d', hd', hpath⟩ := List.mem_map.1 hd
          exact hnew d' hd' hpath ▸ hd'
        · simp
      rw [List.foldl_cons]
      exact mem_pushed_of_mem hpush
    · refine ih hmem (fun d' hd' hpath => ?_) fun d' hd' => honce d' (List.mem_cons_of_mem x hd')
      rcases mem_pushNewDelete hd' with hd' | rfl
      · exact hnew d' hd' hpath
      · exact honce d' List.mem_cons_self hpath

end Deletes

end BenoStreamDB

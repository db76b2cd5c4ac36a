import Mathlib.Data.List.Sort

/-!
# Association lists

Looking up a key in an association list. Where the keys are distinct, the order of the entries does
not matter (`lookup_perm`).
-/

namespace KeyedMerge

variable {κ α : Type*}

def keys (l : List (κ × α)) : List κ := l.map Prod.fst

@[simp] lemma keys_nil : keys ([] : List (κ × α)) = [] := rfl

@[simp] lemma keys_cons (e : κ × α) (l : List (κ × α)) : keys (e :: l) = e.1 :: keys l := rfl

@[simp] lemma keys_append (l l' : List (κ × α)) : keys (l ++ l') = keys l ++ keys l' :=
  List.map_append

variable [DecidableEq κ]

lemma lookup_cons_eq (e : κ × α) (l : List (κ × α)) (k : κ) :
    (e :: l).lookup k = if e.1 = k then some e.2 else l.lookup k := by
  rw [List.lookup_cons]
  by_cases h : k = e.1
  · simp [h]
  · rw [beq_false_of_ne h, if_neg (Ne.symm h)]

lemma lookup_eq_none {l : List (κ × α)} {k : κ} : l.lookup k = none ↔ k ∉ keys l := by
  induction l with
  | nil => simp
  | cons e l ih =>
    rw [lookup_cons_eq]
    split_ifs with h
    · simp [h]
    · simp [ih, Ne.symm h]

lemma mem_keys_of_lookup {l : List (κ × α)} {k : κ} {a : α} (h : l.lookup k = some a) :
    k ∈ keys l := by
  by_contra hk
  rw [lookup_eq_none.2 hk] at h
  cases h

lemma lookup_of_mem {l : List (κ × α)} (hnodup : (keys l).Nodup) {e : κ × α} (he : e ∈ l) :
    l.lookup e.1 = some e.2 := by
  induction l with
  | nil => simp at he
  | cons e' l ih =>
    rw [keys_cons, List.nodup_cons] at hnodup
    rw [lookup_cons_eq]
    rcases List.mem_cons.1 he with rfl | he
    · rw [if_pos rfl]
    · have hne : e'.1 ≠ e.1 := fun heq => hnodup.1 (heq ▸ List.mem_map_of_mem he)
      rw [if_neg hne, ih hnodup.2 he]

lemma mem_of_lookup {l : List (κ × α)} {k : κ} {a : α} (h : l.lookup k = some a) : (k, a) ∈ l := by
  obtain ⟨l₁, l₂, rfl, -⟩ := List.lookup_eq_some_iff.1 h
  simp

/-- The order of entries with distinct keys does not matter. -/
lemma lookup_perm {l l' : List (κ × α)} (h : l.Perm l') (hnodup : (keys l).Nodup) (k : κ) :
    l.lookup k = l'.lookup k := by
  have hkeys : (keys l).Perm (keys l') := h.map Prod.fst
  cases hlookup : l.lookup k with
  | none => exact (lookup_eq_none.2 fun hk => lookup_eq_none.1 hlookup (hkeys.mem_iff.2 hk)).symm
  | some a =>
    have hmem : (k, a) ∈ l' := h.mem_iff.1 (mem_of_lookup hlookup)
    exact (lookup_of_mem (hkeys.nodup_iff.1 hnodup) hmem).symm

end KeyedMerge

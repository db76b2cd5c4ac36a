import BenoStreamDB.Foundations.KeyedMerge
import Mathlib.Algebra.BigOperators.Group.List.Basic
import Mathlib.Algebra.Order.Ring.Nat

/-!
# Caches that evict the least recently used entry

A cache is the list of its entries from the least to the most recently used one. An access puts its
entry at the end, an insertion does so too and then drops entries from the front while the cache is
over its capacity.

The second half is about a vector that loses elements by moving its last element into the gap
(`swapRemove`). A cache that keeps its order in such a vector holds the same entries as long as it
evicts none (`SwapStep.perm`), and it also keeps the order if no removed entry has more than one
entry after it (`SwapStep.eq_step`); `SwapRun.perm` is what follows for runs.
-/

namespace LruCache

open KeyedMerge

variable {κ α : Type*}

/-! ### The cache -/

inductive Request (κ α : Type*) where
  | access (k : κ)
  | insert (k : κ) (a : α)
  | discard (p : κ → Bool)

def total (size : α → ℕ) (c : List (κ × α)) : ℕ := (c.map fun e => size e.2).sum

/-- Entries are dropped from the front while the cache is over its capacity; one always stays. -/
def evict (size : α → ℕ) (capacity : ℕ) : List (κ × α) → List (κ × α)
  | [] => []
  | [e] => [e]
  | e :: f :: c =>
    if capacity < total size (e :: f :: c) then evict size capacity (f :: c) else e :: f :: c

lemma total_perm {size : α → ℕ} {c c' : List (κ × α)} (h : c.Perm c') :
    total size c = total size c' :=
  (h.map _).sum_eq

@[simp] lemma total_cons (size : α → ℕ) (e : κ × α) (c : List (κ × α)) :
    total size (e :: c) = size e.2 + total size c :=
  List.sum_cons

lemma total_append (size : α → ℕ) (c c' : List (κ × α)) :
    total size (c ++ c') = total size c + total size c' := by
  simp [total]

lemma keys_filter_sublist (p : κ × α → Bool) (c : List (κ × α)) :
    (keys (c.filter p)).Sublist (keys c) :=
  List.filter_sublist.map _

lemma exists_append_cons {k : κ} {c : List (κ × α)} (h : k ∈ keys c) :
    ∃ p a q, c = p ++ (k, a) :: q := by
  obtain ⟨e, he, rfl⟩ := List.mem_map.1 h
  obtain ⟨p, q, rfl⟩ := List.append_of_mem he
  exact ⟨p, e.2, q, rfl⟩

lemma notMem_keys_of_nodup {k : κ} {a : α} {p q : List (κ × α)}
    (h : (keys (p ++ (k, a) :: q)).Nodup) : k ∉ keys p := by
  rw [keys_append, keys_cons, List.nodup_append] at h
  exact fun hk => h.2.2 k hk k List.mem_cons_self rfl

lemma evict_of_fits {size : α → ℕ} {capacity : ℕ} {c : List (κ × α)}
    (h : total size c ≤ capacity) : evict size capacity c = c := by
  cases c with
  | nil => rfl
  | cons e c =>
    cases c with
    | nil => rfl
    | cons f c => rw [evict, if_neg (Nat.not_lt.2 h)]

/-! ### Vectors that lose elements by a swap -/

section Swap

variable {β γ : Type*}

/-- The vector without the element at an index: the last element takes its place. -/
def swapRemove (l : List β) (i : ℕ) : List β :=
  match l.getLast? with
  | some x => (l.set i x).dropLast
  | none => []

/-- The first element with the property is removed. -/
def swapEraseP (p : β → Bool) (l : List β) : List β :=
  match l.findIdx? p with
  | some i => swapRemove l i
  | none => l

lemma swapRemove_append_singleton (l : List β) (x : β) : swapRemove (l ++ [x]) l.length = l := by
  simp [swapRemove]

lemma swapRemove_append_cons (l m : List β) (y x : β) :
    swapRemove (l ++ y :: (m ++ [x])) l.length = l ++ x :: m := by
  have hlast : (l ++ y :: (m ++ [x])).getLast? = some x := by
    rw [← List.cons_append, ← List.append_assoc, List.getLast?_concat]
  have hset : (l ++ y :: (m ++ [x])).set l.length x = (l ++ x :: m) ++ [x] := by simp
  rw [swapRemove, hlast]
  simp only [hset, List.dropLast_concat]

lemma swapRemove_perm (l m : List β) (y : β) :
    (swapRemove (l ++ y :: m) l.length).Perm (l ++ m) := by
  rcases List.eq_nil_or_concat m with rfl | ⟨m, x, rfl⟩
  · rw [swapRemove_append_singleton, List.append_nil]
  · rw [List.concat_eq_append, swapRemove_append_cons]
    exact (List.perm_append_singleton x m).symm.append_left l

/-- With at most one element after the gap the order is kept. -/
lemma swapRemove_eq (l : List β) {m : List β} (y : β) (h : m.length ≤ 1) :
    swapRemove (l ++ y :: m) l.length = l ++ m := by
  rcases List.eq_nil_or_concat m with rfl | ⟨m, x, rfl⟩
  · rw [swapRemove_append_singleton, List.append_nil]
  · have hm : m = [] := by simpa using h
    subst hm
    rw [List.concat_eq_append, swapRemove_append_cons, List.nil_append]

lemma swapRemove_map (f : β → γ) (l : List β) (i : ℕ) :
    swapRemove (l.map f) i = (swapRemove l i).map f := by
  rw [swapRemove, swapRemove, List.getLast?_map]
  cases l.getLast? with
  | none => rfl
  | some x => simp [List.map_dropLast]

lemma swapEraseP_map (f : β → γ) (p : γ → Bool) (l : List β) :
    swapEraseP p (l.map f) = (swapEraseP (p ∘ f) l).map f := by
  rw [swapEraseP, swapEraseP, List.findIdx?_map]
  cases l.findIdx? (p ∘ f) with
  | none => rfl
  | some i => exact swapRemove_map f l i

lemma findIdx?_append_cons {p : β → Bool} {l : List β} (hl : ∀ x ∈ l, p x = false) {y : β}
    (hy : p y = true) (m : List β) : (l ++ y :: m).findIdx? p = some l.length := by
  have hnone : l.findIdx? p = none := List.findIdx?_eq_none_iff.2 hl
  rw [List.findIdx?_append, hnone]
  simp [List.findIdx?_cons, hy]

def swapEvict (size : α → ℕ) (capacity : ℕ) : ℕ → List (κ × α) → List (κ × α)
  | 0, l => l
  | n + 1, l =>
    if capacity < total size l ∧ 1 < l.length then swapEvict size capacity n (swapRemove l 0) else l

lemma swapRemove_zero_perm (e : κ × α) (l : List (κ × α)) : (swapRemove (e :: l) 0).Perm l :=
  swapRemove_perm [] l e

lemma swapEvict_of_fits {size : α → ℕ} {capacity : ℕ} {l : List (κ × α)}
    (h : total size l ≤ capacity) (n : ℕ) : swapEvict size capacity n l = l := by
  cases n with
  | zero => rfl
  | succ n => rw [swapEvict, if_neg fun hover => Nat.not_lt.2 h hover.1]

/-- Of two entries the one to evict has only one after it. -/
lemma swapEvict_eq {size : α → ℕ} {capacity : ℕ} {l : List (κ × α)} (h : l.length ≤ 2) :
    swapEvict size capacity l.length l = evict size capacity l := by
  cases l with
  | nil => rfl
  | cons e l =>
    cases l with
    | nil => simp [swapEvict, evict]
    | cons f l =>
      have hl : l = [] := by simpa using h
      subst hl
      have hrest : swapRemove [e, f] 0 = [f] := rfl
      simp [swapEvict, evict, hrest]

lemma nodup_keys_swapEvict {size : α → ℕ} {capacity : ℕ} {l : List (κ × α)} (h : (keys l).Nodup)
    (n : ℕ) : (keys (swapEvict size capacity n l)).Nodup := by
  induction n generalizing l with
  | zero => exact h
  | succ n ih =>
    rw [swapEvict]
    split_ifs with hover
    · refine ih ?_
      cases l with
      | nil => exact absurd hover.2 (by simp)
      | cons e l => exact ((swapRemove_zero_perm e l).map _).nodup_iff.2 (List.nodup_cons.1 h).2
    · exact h

end Swap

/-! ### Requests -/

variable [DecidableEq κ]

def erase (k : κ) (c : List (κ × α)) : List (κ × α) := c.filter fun e => e.1 ≠ k

/-- The entry of the key, if there is one, becomes the most recently used one. -/
def access (k : κ) (c : List (κ × α)) : List (κ × α) :=
  match c.lookup k with
  | some a => erase k c ++ [(k, a)]
  | none => c

def step (size : α → ℕ) (capacity : ℕ) (c : List (κ × α)) : Request κ α → List (κ × α)
  | .access k => access k c
  | .insert k a => evict size capacity (erase k c ++ [(k, a)])
  | .discard p => c.filter fun e => !p e.1

def run (size : α → ℕ) (capacity : ℕ) (c : List (κ × α)) (requests : List (Request κ α)) :
    List (κ × α) :=
  requests.foldl (step size capacity) c

lemma notMem_keys_erase (k : κ) (c : List (κ × α)) : k ∉ keys (erase k c) := by
  simp [keys, erase]

lemma nodup_keys_erase_append {k : κ} {a : α} {c : List (κ × α)} (h : (keys c).Nodup) :
    (keys (erase k c ++ [(k, a)])).Nodup := by
  rw [keys_append, List.nodup_append]
  refine ⟨h.sublist (keys_filter_sublist _ c), List.nodup_singleton k, ?_⟩
  intro k' hk' k'' hk''
  obtain rfl := List.mem_singleton.1 hk''
  rintro rfl
  exact notMem_keys_erase _ c hk'

lemma erase_of_notMem {k : κ} {c : List (κ × α)} (h : k ∉ keys c) : erase k c = c := by
  refine List.filter_eq_self.2 fun e he => ?_
  refine decide_eq_true ?_
  rintro rfl
  exact h (List.mem_map_of_mem he)

/-- In a list without the key elsewhere, erasing it leaves what is around its entry. -/
lemma erase_append_cons {k : κ} {a : α} {p q : List (κ × α)}
    (h : (keys (p ++ (k, a) :: q)).Nodup) : erase k (p ++ (k, a) :: q) = p ++ q := by
  have hp : k ∉ keys p := notMem_keys_of_nodup h
  have hq : k ∉ keys q := by
    rw [keys_append, keys_cons] at h
    exact (List.nodup_cons.1 h.of_append_right).1
  have happend : erase k (p ++ (k, a) :: q) = erase k p ++ erase k q := by simp [erase]
  rw [happend, erase_of_notMem hp, erase_of_notMem hq]

lemma nodup_keys_erase {k : κ} {l : List (κ × α)} (h : (keys l).Nodup) :
    (keys (erase k l)).Nodup :=
  h.sublist (keys_filter_sublist _ l)

lemma erase_perm {k : κ} {l l' : List (κ × α)} (h : l.Perm l') : (erase k l).Perm (erase k l') :=
  h.filter _

lemma perm_cons_erase {k : κ} {a : α} {l : List (κ × α)} (h : (keys l).Nodup)
    (ha : l.lookup k = some a) : l.Perm ((k, a) :: erase k l) := by
  obtain ⟨p, q, rfl⟩ := List.append_of_mem (mem_of_lookup ha)
  rw [erase_append_cons h]
  exact List.perm_middle

/-! ### A cache whose order is such a vector -/

def swapErase (k : κ) (l : List (κ × α)) : List (κ × α) := swapEraseP (fun e => e.1 = k) l

/-- What a request does to such a cache; the discarded keys are removed in any order. -/
inductive SwapStep (size : α → ℕ) (capacity : ℕ) (l : List (κ × α)) :
    Request κ α → List (κ × α) → Prop
  | hit {k : κ} {a : α} (h : l.lookup k = some a) :
      SwapStep size capacity l (.access k) (swapErase k l ++ [(k, a)])
  | miss {k : κ} (h : k ∉ keys l) : SwapStep size capacity l (.access k) l
  | insert (k : κ) (a : α) :
      SwapStep size capacity l (.insert k a)
        (swapEvict size capacity (swapErase k l ++ [(k, a)]).length (swapErase k l ++ [(k, a)]))
  | discard {p : κ → Bool} {ks : List κ} (h : ks.Perm ((keys l).filter p)) :
      SwapStep size capacity l (.discard p) (ks.foldl (fun l k => swapErase k l) l)

inductive SwapRun (size : α → ℕ) (capacity : ℕ) :
    List (κ × α) → List (Request κ α) → List (κ × α) → Prop
  | nil (l : List (κ × α)) : SwapRun size capacity l [] l
  | cons {l l' l'' : List (κ × α)} {r : Request κ α} {rs : List (Request κ α)}
      (h : SwapStep size capacity l r l') (hs : SwapRun size capacity l' rs l'') :
      SwapRun size capacity l (r :: rs) l''

/-- The number of entries that were used after that of the key. -/
def later (k : κ) : List (κ × α) → ℕ
  | [] => 0
  | e :: c => if e.1 = k then c.length else later k c

lemma later_append_cons {k : κ} {a : α} {p q : List (κ × α)} (h : k ∉ keys p) :
    later k (p ++ (k, a) :: q) = q.length := by
  induction p with
  | nil => simp [later]
  | cons e p ih =>
    rw [keys_cons, List.mem_cons, not_or] at h
    rw [List.cons_append, later, if_neg (Ne.symm h.1), ih h.2]

lemma later_le_length (k : κ) (c : List (κ × α)) : later k c ≤ c.length := by
  induction c with
  | nil => exact le_refl 0
  | cons e c ih =>
    rw [later, List.length_cons]
    split_ifs <;> omega

lemma later_erase_le (k k' : κ) (c : List (κ × α)) : later k (erase k' c) ≤ later k c := by
  induction c with
  | nil => exact le_refl 0
  | cons e c ih =>
    have hlength : (erase k' c).length ≤ c.length := List.length_filter_le _ c
    have hcons : erase k' (e :: c) = if e.1 ≠ k' then e :: erase k' c else erase k' c := by
      simp [erase, List.filter_cons]
    rw [hcons]
    by_cases hk : e.1 = k
    · by_cases hk' : e.1 = k'
      · rw [if_neg (not_not.2 hk'), later, if_pos hk]
        exact (later_le_length k _).trans hlength
      · rw [if_pos hk', later, later, if_pos hk, if_pos hk]
        exact hlength
    · by_cases hk' : e.1 = k'
      · rw [if_neg (not_not.2 hk'), later, if_neg hk]
        exact ih
      · rw [if_pos hk', later, later, if_neg hk, if_neg hk]
        exact ih

lemma swapErase_of_notMem {k : κ} {l : List (κ × α)} (h : k ∉ keys l) : swapErase k l = l := by
  have hnone : l.findIdx? (fun e => decide (e.1 = k)) = none := by
    refine List.findIdx?_eq_none_iff.2 fun e he => decide_eq_false ?_
    rintro rfl
    exact h (List.mem_map_of_mem he)
  rw [swapErase, swapEraseP, hnone]

lemma swapErase_append_cons {k : κ} {a : α} {p : List (κ × α)} (h : k ∉ keys p)
    (q : List (κ × α)) :
    swapErase k (p ++ (k, a) :: q) = swapRemove (p ++ (k, a) :: q) p.length := by
  have hp : ∀ e ∈ p, decide (e.1 = k) = false := by
    intro e he
    refine decide_eq_false ?_
    rintro rfl
    exact h (List.mem_map_of_mem he)
  rw [swapErase, swapEraseP, findIdx?_append_cons hp (decide_eq_true rfl)]

lemma keys_swapErase (k : κ) (l : List (κ × α)) :
    keys (swapErase k l) = swapEraseP (fun k' => k' = k) (keys l) :=
  (swapEraseP_map Prod.fst (fun k' => decide (k' = k)) l).symm

lemma swapErase_perm {k : κ} {l : List (κ × α)} (h : (keys l).Nodup) :
    (swapErase k l).Perm (erase k l) := by
  by_cases hk : k ∈ keys l
  · obtain ⟨p, a, q, rfl⟩ := exists_append_cons hk
    rw [swapErase_append_cons (notMem_keys_of_nodup h), erase_append_cons h]
    exact swapRemove_perm p q (k, a)
  · rw [swapErase_of_notMem hk, erase_of_notMem hk]

lemma swapErase_eq {k : κ} {l : List (κ × α)} (h : (keys l).Nodup) (hlater : later k l ≤ 1) :
    swapErase k l = erase k l := by
  by_cases hk : k ∈ keys l
  · obtain ⟨p, a, q, rfl⟩ := exists_append_cons hk
    have hp := notMem_keys_of_nodup h
    rw [later_append_cons hp] at hlater
    rw [swapErase_append_cons hp, erase_append_cons h]
    exact swapRemove_eq p (k, a) hlater
  · rw [swapErase_of_notMem hk, erase_of_notMem hk]

lemma nodup_keys_swapErase {k : κ} {l : List (κ × α)} (h : (keys l).Nodup) :
    (keys (swapErase k l)).Nodup :=
  ((swapErase_perm h).map _).nodup_iff.2 (nodup_keys_erase h)

lemma filter_erase (k : κ) (ks : List κ) (l : List (κ × α)) :
    ((erase k l).filter fun e => e.1 ∉ ks) = l.filter fun e => e.1 ∉ k :: ks := by
  rw [erase, List.filter_filter]
  refine List.filter_congr fun e _ => ?_
  by_cases hk : e.1 = k <;> simp [hk]

/-- Removing keys one by one leaves the entries of the other keys. -/
lemma foldl_swapErase_perm {ks : List κ} {l : List (κ × α)} (h : (keys l).Nodup) :
    (ks.foldl (fun l k => swapErase k l) l).Perm (l.filter fun e => e.1 ∉ ks) := by
  induction ks generalizing l with
  | nil => simp
  | cons k ks ih =>
    rw [List.foldl_cons, ← filter_erase]
    exact (ih (nodup_keys_swapErase h)).trans ((swapErase_perm h).filter _)

lemma foldl_swapErase_eq {ks : List κ} {l : List (κ × α)} (h : (keys l).Nodup)
    (hlater : ∀ k ∈ ks, later k l ≤ 1) :
    ks.foldl (fun l k => swapErase k l) l = l.filter fun e => e.1 ∉ ks := by
  induction ks generalizing l with
  | nil => simp
  | cons k ks ih =>
    rw [List.foldl_cons, swapErase_eq h (hlater k List.mem_cons_self), ← filter_erase]
    refine ih (nodup_keys_erase h) fun k' hk' => ?_
    exact (later_erase_le k' k l).trans (hlater k' (List.mem_cons_of_mem k hk'))

/-- The entries that stay when the listed keys are those of the list with the property. -/
lemma filter_notMem_eq {p : κ → Bool} {ks : List κ} {l : List (κ × α)}
    (h : ks.Perm ((keys l).filter p)) :
    (l.filter fun e => e.1 ∉ ks) = l.filter fun e => !p e.1 := by
  refine List.filter_congr fun e he => ?_
  have hmem : e.1 ∈ ks ↔ p e.1 = true := by
    rw [h.mem_iff, List.mem_filter]
    exact and_iff_right (List.mem_map_of_mem he)
  by_cases hp : p e.1 = true <;> simp [hmem, hp]

/-! ### What the order is good for -/

/-- The request fits into the capacity without an eviction. -/
def Fits (size : α → ℕ) (capacity : ℕ) (c : List (κ × α)) : Request κ α → Prop
  | .insert k a => total size (erase k c ++ [(k, a)]) ≤ capacity
  | _ => True

/-- No entry that the request removes or moves has more than one entry after it. -/
def Orderly (size : α → ℕ) (capacity : ℕ) (c : List (κ × α)) : Request κ α → Prop
  | .access k => later k c ≤ 1
  | .insert k a =>
    later k c ≤ 1 ∧ (total size (erase k c ++ [(k, a)]) ≤ capacity ∨ (erase k c).length ≤ 1)
  | .discard p => ∀ k, p k → later k c ≤ 1

def FittingRun (size : α → ℕ) (capacity : ℕ) : List (κ × α) → List (Request κ α) → Prop
  | _, [] => True
  | c, r :: rs => Fits size capacity c r ∧ FittingRun size capacity (step size capacity c r) rs

/-- Orderly requests, and from some point on only requests that fit. -/
def OrderlyRun (size : α → ℕ) (capacity : ℕ) : List (κ × α) → List (Request κ α) → Prop
  | _, [] => True
  | c, r :: rs =>
    FittingRun size capacity c (r :: rs) ∨
      (Orderly size capacity c r ∧ OrderlyRun size capacity (step size capacity c r) rs)

section Steps

variable {size : α → ℕ} {capacity : ℕ} {l l' c : List (κ × α)} {r : Request κ α}

lemma SwapStep.nodup_keys (h : SwapStep size capacity l r l') (hnodup : (keys l).Nodup) :
    (keys l').Nodup := by
  have hinsert : ∀ k a, (keys (swapErase k l ++ [(k, a)])).Nodup := fun k a =>
    (((swapErase_perm hnodup).append_right [(k, a)]).map _).nodup_iff.2
      (nodup_keys_erase_append hnodup)
  cases h with
  | hit h => exact hinsert _ _
  | miss h => exact hnodup
  | insert k a => exact nodup_keys_swapEvict (hinsert k a) _
  | discard h =>
    exact ((foldl_swapErase_perm hnodup).map _).nodup_iff.2
      (hnodup.sublist (keys_filter_sublist _ l))

/-- Without evictions the order does not matter. -/
theorem SwapStep.perm (h : SwapStep size capacity l r l') (hnodup : (keys l).Nodup)
    (hl : l.Perm c) (hfits : Fits size capacity c r) : l'.Perm (step size capacity c r) := by
  have hmoved : ∀ k a, (swapErase k l ++ [(k, a)]).Perm (erase k c ++ [(k, a)]) := fun k a =>
    ((swapErase_perm hnodup).trans (erase_perm hl)).append_right [(k, a)]
  cases h with
  | hit h =>
    rw [lookup_perm hl hnodup] at h
    simp only [step, access, h]
    exact hmoved _ _
  | miss h =>
    rw [← lookup_eq_none, lookup_perm hl hnodup] at h
    simp only [step, access, h]
    exact hl
  | insert k a =>
    rw [step, evict_of_fits hfits, swapEvict_of_fits ((total_perm (hmoved k a)).trans_le hfits)]
    exact hmoved k a
  | discard h =>
    rw [step]
    exact ((foldl_swapErase_perm hnodup).trans (.of_eq (filter_notMem_eq h))).trans (hl.filter _)

/-- The order of an orderly request is that of the cache. -/
theorem SwapStep.eq_step (h : SwapStep size capacity l r l') (hnodup : (keys l).Nodup)
    (horderly : Orderly size capacity l r) : l' = step size capacity l r := by
  cases h with
  | hit h =>
    simp only [step, access, h, swapErase_eq hnodup horderly]
  | miss h =>
    simp only [step, access, lookup_eq_none.2 h]
  | insert k a =>
    obtain ⟨hlater, hroom⟩ := horderly
    rw [step, swapErase_eq hnodup hlater]
    rcases hroom with hfits | hshort
    · rw [evict_of_fits hfits, swapEvict_of_fits hfits]
    · exact swapEvict_eq (by simpa using hshort)
  | discard h =>
    rw [step, ← filter_notMem_eq h]
    refine foldl_swapErase_eq hnodup fun k hk => horderly k ?_
    exact (List.mem_filter.1 (h.mem_iff.1 hk)).2

end Steps

section Runs

variable {size : α → ℕ} {capacity : ℕ} {l l' c : List (κ × α)} {rs : List (Request κ α)}

lemma SwapRun.perm_of_fitting (h : SwapRun size capacity l rs l') (hnodup : (keys l).Nodup)
    (hl : l.Perm c) (hfits : FittingRun size capacity c rs) :
    l'.Perm (run size capacity c rs) := by
  induction h generalizing c with
  | nil l => exact hl
  | cons h hs ih => exact ih (h.nodup_keys hnodup) (h.perm hnodup hl hfits.1) hfits.2

/-- A run that is orderly until nothing is evicted any more holds the entries of the cache. -/
theorem SwapRun.perm (h : SwapRun size capacity l rs l') (hnodup : (keys l).Nodup)
    (horderly : OrderlyRun size capacity l rs) : l'.Perm (run size capacity l rs) := by
  induction h with
  | nil l => exact .refl l
  | cons h hs ih =>
    rcases horderly with hfits | ⟨hstep, hrest⟩
    · exact SwapRun.perm_of_fitting (.cons h hs) hnodup (.refl _) hfits
    · have heq := h.eq_step hnodup hstep
      subst heq
      exact ih (h.nodup_keys hnodup) hrest

end Runs

end LruCache

import BenoStreamDB.Foundations.KeyedMerge
import Mathlib.Algebra.BigOperators.Ring.Finset

/-!
# Sparse vectors

`qdrant_types.rs` and `handlers/qdrant.rs`: a sparse vector is a list of indices with a list of
values. The dot product sorts both vectors by index and runs over them with two cursors. Values are
exact here: elements of any commutative semiring.
-/

namespace BenoStreamDB

namespace Sparse

open KeyedMerge

section Model

variable {K : Type} [CommSemiring K]

/-- `SparseVector` -/
structure SparseVector (K : Type) where
  indices : List ℕ
  values : List K

/-- The entries of the vector. -/
def SparseVector.pairs (a : SparseVector K) : List (ℕ × K) := a.indices.zip a.values

/-- `SparseVector::sorted` with `sort_unstable_by_key`; a vector in order is returned as it is. -/
def SparseVector.sorted (sort : List (ℕ × K) → List (ℕ × K)) (a : SparseVector K) :
    SparseVector K :=
  if a.indices.IsChain (· < ·) then a
  else ⟨(sort a.pairs).map Prod.fst, (sort a.pairs).map Prod.snd⟩

/-- The loop of `sparse_dot_product` from the cursors on; without a result if a value is missing. -/
def dotLoop (a b : SparseVector K) : ℕ → ℕ → ℕ → K → Option K
  | 0, _, _, _ => none
  | n + 1, i, j, sum =>
    match a.indices[i]?, b.indices[j]? with
    | some x, some y =>
      if x = y then
        match a.values[i]?, b.values[j]? with
        | some u, some v => dotLoop a b n (i + 1) (j + 1) (sum + u * v)
        | _, _ => none
      else if x < y then dotLoop a b n (i + 1) j sum
      else dotLoop a b n i (j + 1) sum
    | _, _ => some sum

/-- `sparse_dot_product` -/
def sparseDotProduct (a b : SparseVector K) : Option K :=
  dotLoop a b (a.indices.length + b.indices.length + 1) 0 0 0

/-- `sparse_vec_dot` -/
def sparseVecDot (sort : List (ℕ × K) → List (ℕ × K)) (a b : SparseVector K) : Option K :=
  sparseDotProduct (a.sorted sort) (b.sorted sort)

/-- As many values as indices, and no index twice. -/
structure SparseVector.WellFormed (a : SparseVector K) : Prop where
  length : a.values.length = a.indices.length
  nodup : a.indices.Nodup

/-- The value at an index. -/
def SparseVector.at (a : SparseVector K) (i : ℕ) : K := (a.pairs.lookup i).getD 0

/-- The sum over the common indices. -/
def overlap (a b : SparseVector K) : K :=
  ∑ i ∈ a.indices.toFinset ∩ b.indices.toFinset, a.at i * b.at i

end Model

section Entries

variable {K : Type}

/-- The keys are strictly increasing. -/
def Increasing (l : List (ℕ × K)) : Prop := (keys l).Pairwise (· < ·)

lemma Increasing.lt_of_mem {p q : ℕ × K} {l : List (ℕ × K)} (h : Increasing (p :: l)) (hq : q ∈ l) :
    p.1 < q.1 :=
  (List.pairwise_cons.1 h).1 q.1 (List.mem_map_of_mem hq)

namespace SparseVector

variable {a : SparseVector K}

lemma keys_pairs (h : a.values.length = a.indices.length) : keys a.pairs = a.indices :=
  List.map_fst_zip h.ge

lemma length_pairs (h : a.values.length = a.indices.length) :
    a.pairs.length = a.indices.length := by
  simp [pairs, h]

/-- The entry at a cursor. -/
lemma drop_pairs (h : a.values.length = a.indices.length) {i : ℕ} (hi : i < a.indices.length) :
    ∃ x u, a.indices[i]? = some x ∧ a.values[i]? = some u ∧
      a.pairs.drop i = (x, u) :: a.pairs.drop (i + 1) := by
  refine ⟨a.indices[i], a.values[i], List.getElem?_eq_getElem hi, List.getElem?_eq_getElem _, ?_⟩
  rw [List.drop_eq_getElem_cons (by rwa [length_pairs h])]
  simp [pairs]

end SparseVector

/-- A key below all others is not there. -/
lemma lookup_eq_none_of_lt {p : ℕ × K} {l : List (ℕ × K)} (h : Increasing (p :: l)) {k : ℕ}
    (hk : k < p.1) : (p :: l).lookup k = none := by
  refine lookup_eq_none.2 fun hmem => ?_
  obtain ⟨q, hq, rfl⟩ := List.mem_map.1 hmem
  rcases List.mem_cons.1 hq with rfl | hq
  · exact absurd hk (lt_irrefl _)
  · exact absurd (hk.trans (h.lt_of_mem hq)) (lt_irrefl _)

/-- The sorted vector has the same entries, in the order of their indices. -/
lemma sorted_spec {sort : List (ℕ × K) → List (ℕ × K)}
    (hsort : ∀ l, (sort l).Perm l ∧ (sort l).Pairwise fun p q => p.1 ≤ q.1) {a : SparseVector K}
    (ha : a.WellFormed) :
    (a.sorted sort).values.length = (a.sorted sort).indices.length ∧
      Increasing (a.sorted sort).pairs ∧ (a.sorted sort).pairs.Perm a.pairs := by
  unfold SparseVector.sorted
  split_ifs with hchain
  · refine ⟨ha.length, ?_, .refl _⟩
    rw [Increasing, SparseVector.keys_pairs ha.length]
    exact List.isChain_iff_pairwise.1 hchain
  · obtain ⟨hperm, hle⟩ := hsort a.pairs
    have hpairs : (⟨(sort a.pairs).map Prod.fst, (sort a.pairs).map Prod.snd⟩ :
        SparseVector K).pairs = sort a.pairs := by
      simp [SparseVector.pairs, List.zip_map']
    refine ⟨by simp, ?_, by rwa [hpairs]⟩
    have hkeys : (keys (sort a.pairs)).Perm (keys a.pairs) := hperm.map Prod.fst
    have hnodup : (keys (sort a.pairs)).Nodup := by
      rw [hkeys.nodup_iff, SparseVector.keys_pairs ha.length]
      exact ha.nodup
    rw [hpairs]
    exact ((List.pairwise_map.2 hle).and hnodup).imp fun h => lt_of_le_of_ne h.1 h.2

end Entries

section Proofs

variable {K : Type} [CommSemiring K]

/-! ### Sums over entries -/

/-- The entries of the first list times the values of the second at their indices. -/
def pairSum (l m : List (ℕ × K)) : K := (l.map fun p => p.2 * (m.lookup p.1).getD 0).sum

@[simp] lemma pairSum_nil_left (m : List (ℕ × K)) : pairSum [] m = 0 := rfl

lemma pairSum_cons (p : ℕ × K) (l m : List (ℕ × K)) :
    pairSum (p :: l) m = p.2 * (m.lookup p.1).getD 0 + pairSum l m := by
  simp [pairSum]

@[simp] lemma pairSum_nil_right (l : List (ℕ × K)) : pairSum l [] = 0 := by
  induction l with
  | nil => rfl
  | cons p l ih => simp [pairSum_cons, ih]

lemma pairSum_congr {l m m' : List (ℕ × K)} (h : ∀ p ∈ l, m.lookup p.1 = m'.lookup p.1) :
    pairSum l m = pairSum l m' := by
  refine congrArg List.sum (List.map_congr_left fun p hp => ?_)
  rw [h p hp]

/-- One step of the cursors. -/
lemma pairSum_cons_cons {p q : ℕ × K} {l m : List (ℕ × K)} (hl : Increasing (p :: l))
    (hm : Increasing (q :: m)) : pairSum (p :: l) (q :: m) =
      if p.1 = q.1 then p.2 * q.2 + pairSum l m
      else if p.1 < q.1 then pairSum l (q :: m) else pairSum (p :: l) m := by
  split_ifs with heq hlt
  · -- no later entry has the index of the second list's first entry
    have hrest : pairSum l (q :: m) = pairSum l m := pairSum_congr fun r hr => by
      rw [lookup_cons_eq, if_neg (heq ▸ (hl.lt_of_mem hr).ne)]
    rw [pairSum_cons, lookup_cons_eq, if_pos heq.symm, hrest]
    rfl
  · rw [pairSum_cons, lookup_eq_none_of_lt hm hlt]
    simp
  · have hgt : q.1 < p.1 := lt_of_le_of_ne (not_lt.1 hlt) (Ne.symm heq)
    refine pairSum_congr fun r hr => ?_
    have hr : q.1 < r.1 := by
      rcases List.mem_cons.1 hr with rfl | hr
      · exact hgt
      · exact hgt.trans (hl.lt_of_mem hr)
    rw [lookup_cons_eq, if_neg hr.ne]

/-! ### The loop -/

/-- The loop adds what the entries from the cursors on have in common. -/
lemma dotLoop_eq {a b : SparseVector K} (hla : a.values.length = a.indices.length)
    (hlb : b.values.length = b.indices.length) (ha : Increasing a.pairs) (hb : Increasing b.pairs)
    (n i j : ℕ) (sum : K) (hn : a.indices.length - i + (b.indices.length - j) < n) :
    dotLoop a b n i j sum = some (sum + pairSum (a.pairs.drop i) (b.pairs.drop j)) := by
  induction n generalizing i j sum with
  | zero => omega
  | succ n ih =>
    by_cases hi : i < a.indices.length
    swap
    · have hnone : a.pairs.drop i = [] := List.drop_eq_nil_of_le (by
        rw [SparseVector.length_pairs hla]
        exact not_lt.1 hi)
      rw [dotLoop, List.getElem?_eq_none (not_lt.1 hi), hnone]
      simp
    by_cases hj : j < b.indices.length
    swap
    · have hnone : b.pairs.drop j = [] := List.drop_eq_nil_of_le (by
        rw [SparseVector.length_pairs hlb]
        exact not_lt.1 hj)
      rw [dotLoop, List.getElem?_eq_none (not_lt.1 hj), hnone]
      cases a.indices[i]? <;> simp
    obtain ⟨x, u, hx, hu, hdropa⟩ := SparseVector.drop_pairs hla hi
    obtain ⟨y, v, hy, hv, hdropb⟩ := SparseVector.drop_pairs hlb hj
    have hinca : Increasing (a.pairs.drop i) := by
      unfold Increasing keys
      rw [List.map_drop]
      exact ha.drop
    have hincb : Increasing (b.pairs.drop j) := by
      unfold Increasing keys
      rw [List.map_drop]
      exact hb.drop
    rw [hdropa] at hinca
    rw [hdropb] at hincb
    rw [dotLoop, hx, hy, hdropa, hdropb, pairSum_cons_cons hinca hincb]
    simp only
    split_ifs with heq hlt
    · rw [hu, hv]
      simp only
      rw [ih _ _ _ (by omega), add_assoc]
    · rw [ih _ _ _ (by omega), hdropb]
    · rw [ih _ _ _ (by omega), hdropa]

/-! ### The dot product -/

lemma sparseVecDot_eq_pairSum {sort : List (ℕ × K) → List (ℕ × K)}
    (hsort : ∀ l, (sort l).Perm l ∧ (sort l).Pairwise fun p q => p.1 ≤ q.1) {a b : SparseVector K}
    (ha : a.WellFormed) (hb : b.WellFormed) :
    sparseVecDot sort a b = some (pairSum a.pairs b.pairs) := by
  obtain ⟨hla, hinca, hperma⟩ := sorted_spec hsort ha
  obtain ⟨hlb, hincb, hpermb⟩ := sorted_spec hsort hb
  have hnodup : (keys (b.sorted sort).pairs).Nodup := hincb.imp fun h => h.ne
  rw [sparseVecDot, sparseDotProduct, dotLoop_eq hla hlb hinca hincb _ _ _ _ (by omega),
    List.drop_zero, List.drop_zero, zero_add,
    pairSum_congr fun p _ => lookup_perm hpermb hnodup p.1]
  exact congrArg some (hperma.map _).sum_eq

/-- The sum over entries is the sum over the common indices. -/
lemma pairSum_eq_overlap {a b : SparseVector K} (ha : a.WellFormed) (hb : b.WellFormed) :
    pairSum a.pairs b.pairs = overlap a b := by
  have hkeys := SparseVector.keys_pairs ha.length
  have hentry : ∀ p ∈ a.pairs, a.at p.1 = p.2 := fun p hp => by
    rw [SparseVector.at, lookup_of_mem (by rw [hkeys]; exact ha.nodup) hp]
    rfl
  have hlist : pairSum a.pairs b.pairs = (a.indices.map fun i => a.at i * b.at i).sum := by
    rw [← hkeys, keys, List.map_map]
    refine congrArg List.sum (List.map_congr_left fun p hp => ?_)
    rw [Function.comp_apply, hentry p hp]
    rfl
  rw [hlist, ← List.sum_toFinset _ ha.nodup, overlap]
  refine (Finset.sum_subset Finset.inter_subset_left fun i hi hnot => ?_).symm
  have hnone : b.pairs.lookup i = none := lookup_eq_none.2 fun hmem => by
    rw [SparseVector.keys_pairs hb.length] at hmem
    exact hnot (Finset.mem_inter.2 ⟨hi, List.mem_toFinset.2 hmem⟩)
  rw [SparseVector.at, SparseVector.at, hnone, Option.getD_none, mul_zero]

lemma overlap_comm (a b : SparseVector K) : overlap a b = overlap b a := by
  rw [overlap, overlap, Finset.inter_comm]
  exact Finset.sum_congr rfl fun i _ => mul_comm _ _

/-- The dot product is the sum over the common indices, so it is symmetric and does not depend on
the order of the entries. -/
theorem sparseVecDot_exact (sort : List (ℕ × K) → List (ℕ × K))
    (hsort : ∀ l, (sort l).Perm l ∧ (sort l).Pairwise fun p q => p.1 ≤ q.1) {a b : SparseVector K}
    (ha : a.WellFormed) (hb : b.WellFormed) :
    sparseVecDot sort a b = some (overlap a b) ∧ sparseVecDot sort a b = sparseVecDot sort b a ∧
      ∀ a' b' : SparseVector K, a'.WellFormed → b'.WellFormed → a'.pairs.Perm a.pairs →
        b'.pairs.Perm b.pairs → sparseVecDot sort a' b' = sparseVecDot sort a b := by
  have hdot : ∀ {c d : SparseVector K}, c.WellFormed → d.WellFormed →
      sparseVecDot sort c d = some (overlap c d) := fun hc hd => by
    rw [sparseVecDot_eq_pairSum hsort hc hd, pairSum_eq_overlap hc hd]
  refine ⟨hdot ha hb, by rw [hdot ha hb, hdot hb ha, overlap_comm], fun a' b' ha' hb' hpa hpb => ?_⟩
  have hnodup : (keys b'.pairs).Nodup := by
    rw [SparseVector.keys_pairs hb'.length]
    exact hb'.nodup
  rw [sparseVecDot_eq_pairSum hsort ha' hb', sparseVecDot_eq_pairSum hsort ha hb,
    pairSum_congr fun p _ => lookup_perm hpb hnodup p.1]
  exact congrArg some (hpa.map _).sum_eq

end Proofs

/-- A sort of entries by their indices. -/
def sortPairs (l : List (ℕ × ℤ)) : List (ℕ × ℤ) := l.mergeSort fun p q => p.1 ≤ q.1

lemma sortPairs_spec (l : List (ℕ × ℤ)) :
    (sortPairs l).Perm l ∧ (sortPairs l).Pairwise fun p q => p.1 ≤ q.1 := by
  refine ⟨List.mergeSort_perm l _, ?_⟩
  have hsorted : (sortPairs l).Pairwise fun p q => decide (p.1 ≤ q.1) = true :=
    List.pairwise_mergeSort
      (fun p q r hpq hqr => by simpa using (of_decide_eq_true hpq).trans (of_decide_eq_true hqr))
      (fun p q => by simpa using le_total p.1 q.1) l
  exact hsorted.imp fun h => of_decide_eq_true h

/-- A vector out of order with one that shares two of its indices. -/
theorem sparseVecDot_exact_unsorted :
    sparseVecDot sortPairs ⟨[7, 2, 5], [3, 4, 6]⟩ ⟨[2, 7, 9], [10, 1, 8]⟩ = some 43 := by
  have hdot := (sparseVecDot_exact sortPairs sortPairs_spec (a := ⟨[7, 2, 5], [3, 4, 6]⟩)
    (b := ⟨[2, 7, 9], [10, 1, 8]⟩) ⟨rfl, by decide⟩ ⟨rfl, by decide⟩).1
  rw [hdot]
  decide

end Sparse

end BenoStreamDB

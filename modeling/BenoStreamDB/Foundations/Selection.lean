import Mathlib.Algebra.Order.Ring.Nat
import Mathlib.Algebra.Order.Sub.Basic
import Mathlib.Data.List.Chain
import Mathlib.Data.List.Nodup

/-!
# Row selections

A row selection is a list of runs, each of which skips or selects the next rows of a list. This is
the form in which a Parquet reader takes the rows it is to return: relative to the rows it would
return without a selection. Rows beyond the last run are not returned.

The positions of a selection are compared with lists of positions: `rowsIn xs ns` are the rows of
`xs` at the positions `ns`, in the order of `ns`, where positions outside of `xs` count for nothing.
-/

namespace Selection

variable {α β : Type}

inductive Selector where
  | skip (rowCount : ℕ)
  | select (rowCount : ℕ)
  deriving DecidableEq, Repr

/-- The rows that a reader returns under a selection. -/
def apply : List Selector → List α → List α
  | [], _ => []
  | .skip n :: s, xs => apply s (xs.drop n)
  | .select n :: s, xs => xs.take n ++ apply s (xs.drop n)

/-- The number of rows that a selection speaks about. -/
def span : List Selector → ℕ
  | [] => 0
  | .skip n :: s => n + span s
  | .select n :: s => n + span s

@[simp]
lemma apply_nil (xs : List α) : apply [] xs = [] := rfl

@[simp]
lemma apply_skip (n : ℕ) (s : List Selector) (xs : List α) :
    apply (.skip n :: s) xs = apply s (xs.drop n) := rfl

@[simp]
lemma apply_select (n : ℕ) (s : List Selector) (xs : List α) :
    apply (.select n :: s) xs = xs.take n ++ apply s (xs.drop n) := rfl

lemma apply_append (s t : List Selector) (xs : List α) :
    apply (s ++ t) xs = apply s xs ++ apply t (xs.drop (span s)) := by
  induction s generalizing xs with
  | nil => simp [span]
  | cons a s ih => cases a <;> simp [span, ih, List.append_assoc]

lemma apply_sublist (s : List Selector) (xs : List α) : (apply s xs).Sublist xs := by
  induction s generalizing xs with
  | nil => exact List.nil_sublist xs
  | cons a s ih =>
    cases a with
    | skip n => exact (ih (xs.drop n)).trans (List.drop_sublist n xs)
    | select n =>
      rw [apply_select]
      conv_rhs => rw [← List.take_append_drop n xs]
      exact (ih (xs.drop n)).append_left (xs.take n)

lemma span_append (s t : List Selector) : span (s ++ t) = span s + span t := by
  induction s with
  | nil => simp [span]
  | cons a s ih => cases a <;> simp [span, ih, Nat.add_assoc]

/-! ### Selections in normal form -/

def Selector.rowCount : Selector → ℕ
  | .skip n => n
  | .select n => n

lemma span_eq_sum (s : List Selector) : span s = (s.map Selector.rowCount).sum := by
  induction s with
  | nil => rfl
  | cons a s ih => cases a <;> simp [span, Selector.rowCount, ih]

def Selector.skips : Selector → Bool
  | .skip _ => true
  | .select _ => false

/-- No run is empty, and runs that skip and runs that select take turns. -/
structure Alternating (s : List Selector) : Prop where
  pos : ∀ a ∈ s, 0 < a.rowCount
  chain : s.IsChain fun a b => a.skips ≠ b.skips

lemma Alternating.nil : Alternating [] := ⟨by simp, List.isChain_nil⟩

lemma Alternating.append {s t : List Selector} (hs : Alternating s) (ht : Alternating t)
    (h : ∀ a ∈ s.getLast?, ∀ b ∈ t.head?, a.skips ≠ b.skips) : Alternating (s ++ t) where
  pos a ha := (List.mem_append.1 ha).elim (hs.pos a) (ht.pos a)
  chain := hs.chain.append ht.chain h

lemma Alternating.singleton {a : Selector} (h : 0 < a.rowCount) : Alternating [a] where
  pos b hb := by rwa [List.mem_singleton.1 hb]
  chain := List.isChain_singleton a

/-! ### Rows at positions -/

/-- The rows at the given positions, in the order of the positions. -/
def rowsIn (xs : List α) (ns : List ℕ) : List α := ns.filterMap fun n => xs[n]?

@[simp]
lemma rowsIn_nil (xs : List α) : rowsIn xs [] = [] := rfl

lemma rowsIn_append (xs : List α) (ns ms : List ℕ) :
    rowsIn xs (ns ++ ms) = rowsIn xs ns ++ rowsIn xs ms := List.filterMap_append

lemma rowsIn_range {n : ℕ} {ns : List ℕ} (h : ∀ i ∈ ns, i < n) :
    rowsIn (List.range n) ns = ns := by
  induction ns with
  | nil => rfl
  | cons i ns ih =>
    have hi : (List.range n)[i]? = some i := List.getElem?_range (h i List.mem_cons_self)
    rw [rowsIn, List.filterMap_cons_some hi]
    exact congrArg (i :: ·) (ih fun j hj => h j (List.mem_cons_of_mem i hj))

lemma map_some_rowsIn {xs : List α} {ns : List ℕ} (h : ∀ n ∈ ns, n < xs.length) :
    (rowsIn xs ns).map some = ns.map fun n => xs[n]? := by
  induction ns with
  | nil => rfl
  | cons n ns ih =>
    have hn : xs[n]? = some (xs.get ⟨n, h n List.mem_cons_self⟩) := by simp
    rw [rowsIn, List.filterMap_cons_some hn, List.map_cons, List.map_cons, hn]
    congr 1
    exact ih fun m hm => h m (List.mem_cons_of_mem n hm)

/-- The rows at a run of positions. -/
lemma rowsIn_range' (xs : List α) (start n : ℕ) :
    rowsIn xs (List.range' start n) = (xs.drop start).take n := by
  induction n generalizing start with
  | zero => simp
  | succ n ih =>
    rw [List.range'_succ, ← List.singleton_append, rowsIn_append, ih]
    by_cases h : start < xs.length
    · rw [List.drop_eq_getElem_cons h, List.take_succ_cons]
      simp [rowsIn, h]
    · have hnone : xs[start]? = none := by simpa using h
      have hdrop : xs.drop start = [] := by simpa using h
      have hdrop' : xs.drop (start + 1) = [] := by simp; omega
      simp [rowsIn, hnone, hdrop, hdrop']

/-- Rows at the positions of a predicate are the rows with an index that satisfies it. -/
lemma rowsIn_filter_range (xs : List α) (p : ℕ → Bool) (m : ℕ) :
    rowsIn xs ((List.range m).filter p) =
      (xs.zipIdx.filter fun r => decide (r.2 < m) && p r.2).map Prod.fst := by
  -- With the positions counted from `k`, the induction is on the rows.
  suffices h : ∀ (k m : ℕ), ((List.range' k m).filter p).filterMap (fun n => xs[n - k]?) =
      ((xs.zipIdx k).filter fun r => decide (r.2 < k + m) && p r.2).map Prod.fst by
    simpa [rowsIn, List.range_eq_range'] using h 0 m
  intro k m
  induction xs generalizing k m with
  | nil => simp
  | cons x xs ih =>
    have htail : ((List.range' (k + 1) (m - 1)).filter p).filterMap (fun n => (x :: xs)[n - k]?) =
        ((List.range' (k + 1) (m - 1)).filter p).filterMap (fun n => xs[n - (k + 1)]?) := by
      apply List.filterMap_congr
      intro n hn
      have hk : k + 1 ≤ n := (List.mem_range'_1.1 (List.mem_of_mem_filter hn)).1
      obtain ⟨d, rfl⟩ := Nat.exists_eq_add_of_le hk
      have hsub : k + 1 + d - k = d + 1 := by omega
      simp [hsub]
    cases m with
    | zero =>
      rw [List.range'_zero, List.filter_nil, List.filterMap_nil, eq_comm, List.map_eq_nil_iff,
        List.filter_eq_nil_iff]
      intro r hr
      have := List.le_snd_of_mem_zipIdx hr
      simp
      omega
    | succ m =>
      have hlt : k + (m + 1) = k + 1 + m := by omega
      have hk : k < k + 1 + m := by omega
      rw [List.range'_succ, List.zipIdx_cons, hlt]
      rw [Nat.add_sub_cancel] at htail
      by_cases hp : p k
      · simp [hp, hk, htail, ih]
      · simp [hp, htail, ih]

/-- Rows that can be told apart are filtered alike only by predicates that agree on them. -/
lemma forall_eq_of_map_filter_eq {l : List α} {f : α → β} {p q : α → Bool}
    (hnodup : (l.map f).Nodup) (h : (l.filter p).map f = (l.filter q).map f) :
    ∀ x ∈ l, p x = q x := by
  have hmem (p : α → Bool) {x : α} (hx : x ∈ l) : f x ∈ (l.filter p).map f ↔ p x = true := by
    constructor
    · intro hfx
      obtain ⟨y, hy, hyx⟩ := List.mem_map.1 hfx
      obtain ⟨hyl, hpy⟩ := List.mem_filter.1 hy
      rwa [← List.inj_on_of_nodup_map hnodup hyl hx hyx]
    · intro hpx
      exact List.mem_map_of_mem (List.mem_filter.2 ⟨hx, hpx⟩)
  intro x hx
  rw [Bool.eq_iff_iff, ← hmem p hx, ← hmem q hx, h]

end Selection

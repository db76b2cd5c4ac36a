import Mathlib.Order.Lattice
import Mathlib.Tactic.Cases

/-!
# The first rows by a key

`IsFirst key n rows l` says that `l` are the first `n` rows in the order of a key. Rows with equal
keys may come in any order, so `l` is not unique. The first rows of a union are found among the
first rows of its parts: `isFirst_flatten`. A list of at most `n` rows that takes in one row after
the other holds the first rows of those that it has seen: `isFirst_foldl_insertBounded`.

`NoneCloser key n rows l` forgets the order within `l`.
-/

namespace TopK

variable {α δ : Type*} [LinearOrder δ] {key : α → δ}

/-- The list is in the order of the key. -/
def Ordered (key : α → δ) (l : List α) : Prop := l.Pairwise fun a b => key a ≤ key b

def IsFirst (key : α → δ) (n : ℕ) (rows l : List α) : Prop :=
  ∃ s : List α, s.Perm rows ∧ Ordered key s ∧ l = s.take n

/-- Every list can be ordered. -/
lemma exists_ordered (key : α → δ) (l : List α) : ∃ s : List α, s.Perm l ∧ Ordered key s := by
  have htrans : ∀ a b c : α, decide (key a ≤ key b) = true → decide (key b ≤ key c) = true →
      decide (key a ≤ key c) = true := by
    simp only [decide_eq_true_eq]
    exact fun a b c => le_trans
  have htotal : ∀ a b : α, (decide (key a ≤ key b) || decide (key b ≤ key a)) = true := by
    simp only [Bool.or_eq_true, decide_eq_true_eq]
    exact fun a b => le_total _ _
  refine ⟨l.mergeSort fun a b => decide (key a ≤ key b), List.mergeSort_perm l _, ?_⟩
  exact (List.pairwise_mergeSort htrans htotal l).imp fun h => of_decide_eq_true h

/-- What is left out of the first `n` rows has `n` rows before it. -/
lemma IsFirst.exists_rest {n : ℕ} {rows l : List α} (h : IsFirst key n rows l) :
    ∃ rest : List α, rows.Perm (l ++ rest) ∧
      ∀ x ∈ rest, n ≤ l.countP fun y => decide (key y ≤ key x) := by
  obtain ⟨s, hperm, hordered, rfl⟩ := h
  refine ⟨s.drop n, ?_, fun x hx => ?_⟩
  · rw [List.take_append_drop]
    exact hperm.symm
  · have hle : ∀ y ∈ s.take n, decide (key y ≤ key x) = true := by
      intro y hy
      rw [← List.take_append_drop n s] at hordered
      exact decide_eq_true ((List.pairwise_append.1 hordered).2.2 y hy x hx)
    have hlen : n < s.length := by
      by_contra hge
      rw [List.drop_of_length_le (Nat.le_of_not_lt hge)] at hx
      exact List.not_mem_nil hx
    rw [List.countP_eq_length.2 hle, List.length_take]
    omega

lemma exists_rest_flatten {n : ℕ} {rows hits : List (List α)}
    (h : List.Forall₂ (IsFirst key n) rows hits) :
    ∃ rest : List α, rows.flatten.Perm (hits.flatten ++ rest) ∧
      ∀ x ∈ rest, n ≤ hits.flatten.countP fun y => decide (key y ≤ key x) := by
  induction h with
  | nil => exact ⟨[], .nil, fun x hx => absurd hx List.not_mem_nil⟩
  | @cons r l rows hits hfirst _ ih =>
    obtain ⟨rest, hperm, hcount⟩ := hfirst.exists_rest
    obtain ⟨rests, hperms, hcounts⟩ := ih
    refine ⟨rest ++ rests, ?_, fun x hx => ?_⟩
    · rw [List.flatten_cons, List.flatten_cons]
      refine (hperm.append hperms).trans ?_
      rw [List.append_assoc, List.append_assoc]
      refine List.Perm.append_left l ?_
      rw [← List.append_assoc, ← List.append_assoc]
      exact List.perm_append_comm.append_right rests
    · rw [List.flatten_cons, List.countP_append]
      rcases List.mem_append.1 hx with hx | hx
      · exact (hcount x hx).trans (Nat.le_add_right _ _)
      · exact (hcounts x hx).trans (Nat.le_add_left _ _)

/-- A row that has `n` rows before it comes after the first `n` rows. -/
lemma le_of_le_countP {n : ℕ} {s : List α} {x y : α} (hordered : Ordered key s)
    (hcount : n ≤ s.countP fun y => decide (key y ≤ key x)) (hy : y ∈ s.take n) :
    key y ≤ key x := by
  by_contra hlt
  have hdrop : (s.drop n).countP (fun y => decide (key y ≤ key x)) = 0 := by
    rw [List.countP_eq_zero]
    intro z hz hle
    rw [← List.take_append_drop n s] at hordered
    have hyz := (List.pairwise_append.1 hordered).2.2 y hy z hz
    exact hlt (hyz.trans (of_decide_eq_true hle))
  have htake : (s.take n).countP (fun y => decide (key y ≤ key x)) < (s.take n).length := by
    refine lt_of_le_of_ne List.countP_le_length fun heq => hlt ?_
    exact of_decide_eq_true (List.countP_eq_length.1 heq y hy)
  have hsum : s.countP (fun y => decide (key y ≤ key x)) =
      (s.take n).countP (fun y => decide (key y ≤ key x)) +
        (s.drop n).countP (fun y => decide (key y ≤ key x)) := by
    rw [← List.countP_append, List.take_append_drop]
  have hlen := List.length_take_le n s
  omega

/-- The first rows of a union are the first ones among the first rows of its parts. -/
theorem isFirst_flatten {n : ℕ} {rows hits : List (List α)} {s : List α}
    (h : List.Forall₂ (IsFirst key n) rows hits) (hperm : s.Perm hits.flatten)
    (hordered : Ordered key s) : IsFirst key n rows.flatten (s.take n) := by
  obtain ⟨rest, hrows, hcount⟩ := exists_rest_flatten h
  obtain ⟨t, ht, htordered⟩ := exists_ordered key (s.drop n ++ rest)
  refine ⟨s.take n ++ t, ?_, ?_, ?_⟩
  · refine (ht.append_left (s.take n)).trans ?_
    rw [← List.append_assoc, List.take_append_drop]
    exact (hperm.append_right rest).trans hrows.symm
  · refine List.pairwise_append.2 ⟨hordered.sublist (List.take_sublist n s), htordered, ?_⟩
    intro y hy x hx
    rcases List.mem_append.1 (ht.mem_iff.1 hx) with hx | hx
    · rw [← List.take_append_drop n s] at hordered
      exact (List.pairwise_append.1 hordered).2.2 y hy x hx
    · refine le_of_le_countP hordered ?_ hy
      rw [hperm.countP_eq]
      exact hcount x hx
  · by_cases hlen : n ≤ s.length
    · rw [List.take_append_of_le_length (by rw [List.length_take]; omega), List.take_take, min_self]
    · -- fewer than `n` hits: every part is complete, and nothing is left over
      have hrest : rest = [] := by
        rw [List.eq_nil_iff_forall_not_mem]
        intro x hx
        have hle := (hcount x hx).trans List.countP_le_length
        rw [← hperm.length_eq] at hle
        exact hlen hle
      have hdrop : s.drop n = [] := List.drop_of_length_le (by omega)
      rw [hrest, hdrop] at ht
      rw [ht.eq_nil, List.append_nil, List.take_take, min_self]

/-! ### Insertion into a bounded list -/

/-- The rows with a key up to that of `x` come before `x`. -/
def insertAfter (key : α → δ) (x : α) (l : List α) : List α :=
  l.insertIdx (l.takeWhile fun y => decide (key y ≤ key x)).length x

/-- Insertion into a list of at most `n` rows: a full list takes `x` only if it comes before the
last row, which it loses. -/
def insertBounded (key : α → δ) (n : ℕ) (x : α) (l : List α) : List α :=
  if l.length < n then insertAfter key x l
  else if l.getLast?.all fun y => decide (key x < key y) then (insertAfter key x l).dropLast
  else l

@[simp]
lemma insertAfter_nil (x : α) : insertAfter key x [] = [x] := rfl

lemma insertAfter_cons_of_le {x y : α} (h : key y ≤ key x) (l : List α) :
    insertAfter key x (y :: l) = y :: insertAfter key x l := by
  simp [insertAfter, h]

lemma insertAfter_cons_of_lt {x y : α} (h : key x < key y) (l : List α) :
    insertAfter key x (y :: l) = x :: y :: l := by
  simp [insertAfter, not_le.2 h]

lemma perm_insertAfter (x : α) (l : List α) : (insertAfter key x l).Perm (x :: l) := by
  induction l with
  | nil => exact .refl _
  | cons y l ih =>
    rcases le_or_gt (key y) (key x) with h | h
    · rw [insertAfter_cons_of_le h]
      exact (ih.cons y).trans (.swap x y l)
    · rw [insertAfter_cons_of_lt h]

lemma Ordered.insertAfter {l : List α} (h : Ordered key l) (x : α) :
    Ordered key (insertAfter key x l) := by
  induction l with
  | nil => exact List.pairwise_singleton _ x
  | cons y l ih =>
    obtain ⟨hhead, htail⟩ := List.pairwise_cons.1 h
    rcases le_or_gt (key y) (key x) with hyx | hxy
    · rw [insertAfter_cons_of_le hyx]
      refine List.pairwise_cons.2 ⟨fun z hz => ?_, ih htail⟩
      rcases List.mem_cons.1 ((perm_insertAfter x l).mem_iff.1 hz) with rfl | hz
      · exact hyx
      · exact hhead z hz
    · rw [insertAfter_cons_of_lt hxy]
      refine List.pairwise_cons.2 ⟨fun z hz => ?_, h⟩
      rcases List.mem_cons.1 hz with rfl | hz
      · exact hxy.le
      · exact hxy.le.trans (hhead z hz)

/-- The first `n` rows after an insertion depend on the first `n` rows before it. -/
lemma take_insertAfter_take (n : ℕ) (x : α) (l : List α) :
    (insertAfter key x (l.take n)).take n = (insertAfter key x l).take n := by
  induction l generalizing n with
  | nil => simp
  | cons y l ih =>
    cases n with
    | zero => simp
    | succ n =>
      rw [List.take_succ_cons]
      rcases le_or_gt (key y) (key x) with h | h
      · rw [insertAfter_cons_of_le h, insertAfter_cons_of_le h, List.take_succ_cons,
          List.take_succ_cons, ih]
      · have hcut : (y :: l.take n).take n = (y :: l).take n := by
          rw [← List.take_succ_cons, List.take_take, min_eq_left n.le_succ]
        rw [insertAfter_cons_of_lt h, insertAfter_cons_of_lt h, List.take_succ_cons,
          List.take_succ_cons, hcut]

lemma insertAfter_eq_append {x : α} {l : List α} (h : ∀ y ∈ l, key y ≤ key x) :
    insertAfter key x l = l ++ [x] := by
  induction l with
  | nil => rfl
  | cons y l ih =>
    rw [insertAfter_cons_of_le (h y List.mem_cons_self), List.cons_append,
      ih fun z hz => h z (List.mem_cons_of_mem y hz)]

/-- The bounded insertion is the insertion cut to `n` rows. -/
lemma insertBounded_eq_take {n : ℕ} {x : α} {l : List α} (hordered : Ordered key l)
    (hlen : l.length ≤ n) : insertBounded key n x l = (insertAfter key x l).take n := by
  have hinsert : (TopK.insertAfter key x l).length = l.length + 1 :=
    (perm_insertAfter x l).length_eq
  by_cases hlt : l.length < n
  · rw [insertBounded, if_pos hlt, List.take_of_length_le (by omega)]
  · rw [insertBounded, if_neg hlt]
    have hn : l.length = n := by omega
    split_ifs with hlast
    · rw [List.dropLast_eq_take, hinsert, Nat.add_sub_cancel, hn]
    · -- the last row, and so every row, has a key up to that of `x`
      have hall : ∀ y ∈ l, key y ≤ key x := by
        intro y hy
        cases hl : l.getLast? with
        | none => exact absurd hl (by simpa using List.ne_nil_of_mem hy)
        | some z =>
          rw [hl, Option.all_some, decide_eq_true_eq, not_lt] at hlast
          refine le_trans ?_ hlast
          obtain ⟨init, rfl⟩ := List.getLast?_eq_some_iff.1 hl
          rcases List.mem_append.1 hy with hy | hy
          · exact (List.pairwise_append.1 hordered).2.2 y hy z List.mem_cons_self
          · rw [List.mem_singleton.1 hy]
      rw [insertAfter_eq_append hall, ← hn, List.take_left]

lemma IsFirst.insertBounded {n : ℕ} {x : α} {rows l : List α} (h : IsFirst key n rows l) :
    IsFirst key n (x :: rows) (insertBounded key n x l) := by
  obtain ⟨s, hperm, hordered, rfl⟩ := h
  refine ⟨TopK.insertAfter key x s, (perm_insertAfter x s).trans (hperm.cons x),
    hordered.insertAfter x, ?_⟩
  rw [insertBounded_eq_take (hordered.sublist (List.take_sublist n s)) (List.length_take_le n s),
    take_insertAfter_take]

lemma isFirst_foldl_insertBounded (key : α → δ) (n : ℕ) (rows : List α) :
    IsFirst key n rows (rows.foldl (fun l x => insertBounded key n x l) []) := by
  suffices h : ∀ seen l : List α, IsFirst key n seen l →
      IsFirst key n (rows.reverse ++ seen) (rows.foldl (fun l x => insertBounded key n x l) l) by
    obtain ⟨s, hperm, hordered, hl⟩ := h [] [] ⟨[], .nil, .nil, by simp⟩
    rw [List.append_nil] at hperm
    exact ⟨s, hperm.trans rows.reverse_perm, hordered, hl⟩
  induction rows with
  | nil => exact fun seen l h => h
  | cons x rows ih =>
    intro seen l h
    rw [List.foldl_cons, List.reverse_cons, List.append_assoc, List.singleton_append]
    exact ih _ _ h.insertBounded

/-! ### Without an order -/

/-- `l` are `n` of the rows, or all of them, and no row that is left out comes before one of
them. -/
def NoneCloser (key : α → δ) (n : ℕ) (rows l : List α) : Prop :=
  ∃ rest : List α, rows.Perm (l ++ rest) ∧ l.length = min n rows.length ∧
    ∀ x ∈ l, ∀ y ∈ rest, key x ≤ key y

lemma IsFirst.perm {n : ℕ} {rows rows' l : List α} (h : IsFirst key n rows l)
    (hperm : rows.Perm rows') : IsFirst key n rows' l := by
  obtain ⟨s, hs, hordered, hl⟩ := h
  exact ⟨s, hs.trans hperm, hordered, hl⟩

lemma IsFirst.noneCloser {n : ℕ} {rows l : List α} (h : IsFirst key n rows l) :
    NoneCloser key n rows l := by
  obtain ⟨s, hperm, hordered, rfl⟩ := h
  refine ⟨s.drop n, ?_, ?_, ?_⟩
  · rw [List.take_append_drop]
    exact hperm.symm
  · rw [List.length_take, hperm.length_eq]
  · rw [← List.take_append_drop n s] at hordered
    exact (List.pairwise_append.1 hordered).2.2

/-- All rows are found if there are at most `n`. -/
lemma NoneCloser.perm {n : ℕ} {rows l : List α} (h : NoneCloser key n rows l)
    (hlen : rows.length ≤ n) : rows.Perm l := by
  obtain ⟨rest, hperm, hlength, -⟩ := h
  have hrest : rest = [] := by
    have := hperm.length_eq
    rw [List.length_append] at this
    exact List.length_eq_zero_iff.1 (by omega)
  rwa [hrest, List.append_nil] at hperm

lemma NoneCloser.perm_right {n : ℕ} {rows l l' : List α} (h : NoneCloser key n rows l)
    (hl : l.Perm l') : NoneCloser key n rows l' := by
  obtain ⟨rest, hperm, hlength, hle⟩ := h
  refine ⟨rest, hperm.trans (hl.append_right rest), hl.length_eq ▸ hlength, fun x hx => ?_⟩
  exact hle x (hl.mem_iff.2 hx)

/-- One more row while there is room. -/
lemma NoneCloser.cons_of_lt {n : ℕ} {rows l : List α} (h : NoneCloser key n rows l) (x : α)
    (hlen : l.length < n) : NoneCloser key n (x :: rows) (x :: l) := by
  have hperm : rows.Perm l := h.perm (by obtain ⟨-, -, hlength, -⟩ := h; omega)
  refine ⟨[], by rw [List.append_nil]; exact hperm.cons x, ?_, fun _ _ y hy => ?_⟩
  · rw [List.length_cons, List.length_cons, hperm.length_eq]
    omega
  · cases hy

/-- One more row that is not closer than any of the first ones. -/
lemma NoneCloser.cons_of_le {n : ℕ} {rows l : List α} (h : NoneCloser key n rows l) {x : α}
    (hlen : n ≤ l.length) (hx : ∀ y ∈ l, key y ≤ key x) : NoneCloser key n (x :: rows) l := by
  obtain ⟨rest, hperm, hlength, hle⟩ := h
  refine ⟨x :: rest, (hperm.cons x).trans List.perm_middle.symm, ?_, fun y hy z hz => ?_⟩
  · rw [List.length_cons]
    omega
  · rcases List.mem_cons.1 hz with rfl | hz
    · exact hx y hy
    · exact hle y hy z hz

/-- One more row, and the farthest goes. -/
lemma NoneCloser.exchange {n : ℕ} {rows l l' : List α} (h : NoneCloser key n rows l) {x f : α}
    (hlen : n ≤ l.length) (hf : (x :: l).Perm (f :: l')) (hmax : ∀ y ∈ x :: l, key y ≤ key f) :
    NoneCloser key n (x :: rows) l' := by
  obtain ⟨rest, hperm, hlength, hle⟩ := h
  refine ⟨f :: rest, ?_, ?_, fun y hy z hz => ?_⟩
  · calc (x :: rows).Perm (x :: l ++ rest) := hperm.cons x
      _ |>.Perm (f :: l' ++ rest) := hf.append_right rest
      _ |>.Perm (l' ++ f :: rest) := List.perm_middle.symm
  · have hsame := hf.length_eq
    rw [List.length_cons, List.length_cons] at hsame
    rw [List.length_cons]
    omega
  · have hy' : y ∈ x :: l := hf.mem_iff.2 (List.mem_cons_of_mem f hy)
    rcases List.mem_cons.1 hz with rfl | hz
    · exact hmax y hy'
    · rcases List.mem_cons.1 (hf.mem_iff.2 List.mem_cons_self) with rfl | hfl
      · exact hle y ((List.perm_cons f).1 hf |>.mem_iff.2 hy) z hz
      · exact (hmax y hy').trans (hle f hfl z hz)

lemma NoneCloser.mem_or {n : ℕ} {rows l : List α} (h : NoneCloser key n rows l) {y : α}
    (hy : y ∈ rows) : y ∈ l ∨ l.length = n ∧ ∀ x ∈ l, key x ≤ key y := by
  obtain ⟨rest, hperm, hlength, hle⟩ := h
  rcases List.mem_append.1 (hperm.mem_iff.1 hy) with hl | hrest
  · exact .inl hl
  · refine .inr ⟨?_, fun x hx => hle x hx y hrest⟩
    have hlt := List.length_pos_of_mem hrest
    have hsame := hperm.length_eq
    rw [List.length_append] at hsame
    omega

/-- The first of the rows, once they are in order. -/
lemma NoneCloser.isFirst {n k : ℕ} {rows l s : List α} (h : NoneCloser key n rows l)
    (hs : s.Perm l) (hordered : Ordered key s) (hk : k ≤ n) : IsFirst key k rows (s.take k) := by
  obtain ⟨rest, hperm, hlength, hle⟩ := h
  obtain ⟨rest', hrest', hrestOrdered⟩ := exists_ordered key rest
  refine ⟨s ++ rest', (hs.append hrest').trans hperm.symm, ?_, ?_⟩
  · exact List.pairwise_append.2 ⟨hordered, hrestOrdered, fun x hx y hy =>
      hle x (hs.mem_iff.1 hx) y (hrest'.mem_iff.1 hy)⟩
  · by_cases hlen : k ≤ s.length
    · rw [List.take_append_of_le_length hlen]
    · have hsame := hperm.length_eq
      rw [List.length_append] at hsame
      have hslen := hs.length_eq
      have hempty : rest' = [] := List.length_eq_zero_iff.1 (by rw [hrest'.length_eq]; omega)
      rw [hempty, List.append_nil]

end TopK

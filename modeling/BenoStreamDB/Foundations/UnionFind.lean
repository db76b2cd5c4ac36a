import Mathlib.Algebra.Group.Nat.Defs
import Mathlib.Data.Fintype.Card

/-!
# Union-find

Disjoint sets with union by rank and path compression, in which `find` is two loops: one to the root
and one that points the nodes of the way at it. `Forest` gives each node the root of its tree. Both
operations end and do what they should: `Forest.exists_find` keeps all roots, `Inv.exists_union`
joins two sets. The sets are the classes of the pairs that were joined.

A rank is at most `maxRank`. As the set of a root of rank `k` has at least `2 ^ k` nodes, that bound
is not reached if there are fewer than `2 ^ (maxRank + 1)` nodes.
-/

namespace UnionFind

variable {α : Type} [DecidableEq α]

/-- The parents and ranks. -/
structure State (α : Type) where
  parent : α → α
  rank : α → ℕ

/-- Every node is a set of its own. -/
def State.init : State α := ⟨id, fun _ => 0⟩

/-- The first loop of `find`, or `none` without fuel. -/
def findRoot (parent : α → α) : ℕ → α → Option α
  | 0, _ => none
  | fuel + 1, i => if i = parent i then some i else findRoot parent fuel (parent i)

/-- The second loop of `find`. -/
def compress (root : α) : ℕ → (α → α) → α → Option (α → α)
  | 0, _, _ => none
  | fuel + 1, parent, i =>
    if i = root then some parent
    else compress root fuel (Function.update parent i root) (parent i)

def find (fuel : ℕ) (parent : α → α) (i : α) : Option (α × (α → α)) :=
  (findRoot parent fuel i).bind fun root =>
    (compress root fuel parent i).map fun parent => (root, parent)

/-- The roots of two sets are linked; `none` is a rank over the bound. -/
def link (maxRank : ℕ) (rootI rootJ : α) (st : State α) : Option (State α) :=
  if rootI = rootJ then some st
  else if st.rank rootI < st.rank rootJ then
    some { st with parent := Function.update st.parent rootI rootJ }
  else if st.rank rootJ < st.rank rootI then
    some { st with parent := Function.update st.parent rootJ rootI }
  else if st.rank rootI < maxRank then
    some ⟨Function.update st.parent rootJ rootI,
      Function.update st.rank rootI (st.rank rootI + 1)⟩
  else none

def union (maxRank fuel : ℕ) (i j : α) (st : State α) : Option (State α) :=
  (find fuel st.parent i).bind fun a =>
    (find fuel a.2 j).bind fun b => link maxRank a.1 b.1 ⟨b.2, st.rank⟩

/-! ### Forests -/

/-- The function `rep` gives the root of the tree of each node. -/
structure Forest (st : State α) (rep : α → α) : Prop where
  rep_parent : ∀ i, rep (st.parent i) = rep i
  parent_rep : ∀ i, st.parent (rep i) = rep i
  rep_of_root : ∀ i, st.parent i = i → rep i = i
  lt_parent : ∀ i, st.parent i ≠ i → st.rank i < st.rank (st.parent i)
  lt_rep : ∀ i, i ≠ rep i → st.rank i < st.rank (rep i)

variable {st : State α} {rep : α → α} {i j : α} {maxRank fuel : ℕ}

omit [DecidableEq α] in
lemma forest_init : Forest (State.init : State α) id where
  rep_parent _ := rfl
  parent_rep _ := rfl
  rep_of_root _ _ := rfl
  lt_parent _ h := absurd rfl h
  lt_rep _ h := absurd rfl h

namespace Forest

omit [DecidableEq α] in
lemma rep_rep (h : Forest st rep) (i : α) : rep (rep i) = rep i :=
  h.rep_of_root _ (h.parent_rep i)

omit [DecidableEq α] in
lemma le_rep (h : Forest st rep) (i : α) : st.rank i ≤ st.rank (rep i) := by
  by_cases hi : i = rep i
  · rw [← hi]
  · exact (h.lt_rep i hi).le

omit [DecidableEq α] in
lemma parent_ne (h : Forest st rep) (hi : i ≠ rep i) : st.parent i ≠ i := fun heq =>
  hi (h.rep_of_root i heq).symm

/-- Each step to the parent leaves fewer ranks to the root. -/
lemma findRoot_eq (h : Forest st rep) (hfuel : st.rank (rep i) - st.rank i < fuel) :
    findRoot st.parent fuel i = some (rep i) := by
  induction fuel generalizing i with
  | zero => omega
  | succ fuel ih =>
    rw [findRoot]
    split_ifs with hi
    · rw [h.rep_of_root i hi.symm]
    · have hlt := h.lt_parent i (Ne.symm hi)
      have hle := h.le_rep (st.parent i)
      rw [h.rep_parent] at hle
      rw [ih (by rw [h.rep_parent]; omega), h.rep_parent]

/-- A node may point at its root. -/
lemma update (h : Forest st rep) (hi : i ≠ rep i) :
    Forest ⟨Function.update st.parent i (rep i), st.rank⟩ rep := by
  refine ⟨fun k => ?_, fun k => ?_, fun k hk => ?_, fun k hk => ?_, h.lt_rep⟩
  · simp only [Function.update_apply]
    split_ifs with hki
    · rw [hki, h.rep_rep]
    · exact h.rep_parent k
  · simp only [Function.update_apply]
    split_ifs with hki
    · exact absurd (hki ▸ (h.rep_rep k).symm) hi
    · exact h.parent_rep k
  · simp only [Function.update_apply] at hk
    split_ifs at hk with hki
    · exact absurd (hki.symm.trans hk.symm) hi
    · exact h.rep_of_root k hk
  · simp only [Function.update_apply] at hk ⊢
    split_ifs at hk ⊢ with hki
    · rw [hki]
      exact h.lt_rep i hi
    · exact h.lt_parent k hk

lemma exists_compress (h : Forest st rep) (hfuel : st.rank (rep i) - st.rank i < fuel) :
    ∃ parent, compress (rep i) fuel st.parent i = some parent ∧ Forest ⟨parent, st.rank⟩ rep := by
  obtain ⟨parent, rank⟩ := st
  induction fuel generalizing parent i with
  | zero => omega
  | succ fuel ih =>
    rw [compress]
    split_ifs with hi
    · exact ⟨parent, rfl, h⟩
    · have hlt := h.lt_parent i (h.parent_ne hi)
      have hle := h.le_rep (parent i)
      have hsame : rep (parent i) = rep i := h.rep_parent i
      rw [hsame] at hle
      have hrest := ih (i := parent i) _ (h.update hi)
      rw [hsame] at hrest
      exact hrest (by simp only at hlt hle hfuel ⊢; omega)

/-- The root is found, and all roots are kept. -/
lemma exists_find (h : Forest st rep) (hfuel : st.rank (rep i) - st.rank i < fuel) :
    ∃ parent, find fuel st.parent i = some (rep i, parent) ∧ Forest ⟨parent, st.rank⟩ rep := by
  obtain ⟨parent, hcompress, hforest⟩ := h.exists_compress hfuel
  exact ⟨parent, by rw [find, h.findRoot_eq hfuel, Option.bind_some, hcompress, Option.map_some],
    hforest⟩

/-- The roots after the root `l` was attached to the root `w`. -/
def attachRep (l w : α) (rep : α → α) (k : α) : α := if rep k = l then w else rep k

lemma attach (h : Forest st rep) {l w : α} (hl : rep l = l) (hw : rep w = w) (hne : l ≠ w)
    {rank : α → ℕ} (hrank : ∀ k, k ≠ w → rank k = st.rank k) (hle : st.rank w ≤ rank w)
    (hlt : st.rank l < rank w) :
    Forest ⟨Function.update st.parent l w, rank⟩ (attachRep l w rep) := by
  have hgrow : ∀ k, st.rank k ≤ rank k := by
    intro k
    by_cases hk : k = w
    · rwa [hk]
    · rw [hrank k hk]
  refine ⟨fun k => ?_, fun k => ?_, fun k hk => ?_, fun k hk => ?_, fun k hk => ?_⟩
  · simp only [attachRep, Function.update_apply]
    by_cases hkl : k = l
    · subst hkl
      simp [hl, hw]
    · rw [if_neg hkl, h.rep_parent]
  · simp only [attachRep, Function.update_apply]
    split_ifs with hk hwl
    · exact absurd hwl.symm hne
    · rw [← hw, h.parent_rep]
    · exact h.parent_rep k
  · simp only [attachRep, Function.update_apply] at hk ⊢
    by_cases hkl : k = l
    · rw [if_pos hkl] at hk
      exact absurd (hkl.symm.trans hk.symm) hne
    · rw [if_neg hkl] at hk
      rw [h.rep_of_root k hk, if_neg hkl]
  · simp only [Function.update_apply] at hk ⊢
    by_cases hkl : k = l
    · rw [if_pos hkl, hkl, hrank l hne]
      exact hlt
    · rw [if_neg hkl] at hk ⊢
      have hkw : k ≠ w := fun hkw => hk (by rw [hkw, ← hw, h.parent_rep])
      rw [hrank k hkw]
      exact (h.lt_parent k hk).trans_le (hgrow _)
  · simp only [attachRep] at hk ⊢
    split_ifs at hk ⊢ with hrep
    · rw [hrank k hk]
      have hle' := h.le_rep k
      rw [hrep] at hle'
      omega
    · have hkw : k ≠ w := fun hkw => hk (by rw [hkw, hw])
      rw [hrank k hkw]
      exact (h.lt_rep k hk).trans_le (hgrow _)

end Forest

/-! ### Sets -/

section Sets

variable [Fintype α]

/-- The sets are the classes of `R`, and a root of rank `k` has at least `2 ^ k` nodes. -/
structure Inv (R : α → α → Prop) (st : State α) (rep : α → α) : Prop extends Forest st rep where
  rep_eq_iff : ∀ a b, rep a = rep b ↔ Relation.EqvGen R a b
  size : ∀ r, rep r = r → 2 ^ st.rank r ≤ (Finset.univ.filter fun k => rep k = r).card

variable {R : α → α → Prop}

lemma inv_init : Inv (fun _ _ => False) (State.init : State α) id where
  toForest := forest_init
  rep_eq_iff a b := by
    constructor
    · rintro rfl
      exact .refl _
    · intro hab
      induction hab with
      | rel _ _ hfalse => exact hfalse.elim
      | refl => rfl
      | symm _ _ _ ih => exact ih.symm
      | trans _ _ _ _ _ ih ih' => exact ih.trans ih'
  size r _ := by
    exact Finset.card_pos.2 ⟨r, by simp⟩

namespace Inv

lemma congr {R' : α → α → Prop} (h : Inv R st rep) (hR : ∀ a b, R a b ↔ R' a b) :
    Inv R' st rep := by
  obtain rfl : R = R' := by
    funext a b
    exact propext (hR a b)
  exact h

lemma rank_lt (h : Inv R st rep) (i : α) : st.rank (rep i) < Fintype.card α :=
  (Nat.lt_two_pow_self.trans_le (h.size _ (h.rep_rep i))).trans_le (Finset.card_le_univ _)

lemma exists_find (h : Inv R st rep) (hfuel : Fintype.card α ≤ fuel) (i : α) :
    ∃ parent, find fuel st.parent i = some (rep i, parent) ∧ Inv R ⟨parent, st.rank⟩ rep := by
  have hlt := h.rank_lt i
  obtain ⟨parent, hfind, hforest⟩ := h.toForest.exists_find
    (show st.rank (rep i) - st.rank i < fuel by omega)
  exact ⟨parent, hfind, hforest, h.rep_eq_iff, h.size⟩

/-- The sets of two roots are disjoint. -/
lemma card_attach {l w : α} (hne : l ≠ w) (rep : α → α) :
    (Finset.univ.filter fun k => Forest.attachRep l w rep k = w).card =
      (Finset.univ.filter fun k => rep k = l).card +
        (Finset.univ.filter fun k => rep k = w).card := by
  rw [← Finset.card_union_of_disjoint]
  · congr 1
    ext k
    simp only [Finset.mem_filter, Finset.mem_univ, true_and, Finset.mem_union]
    rw [Forest.attachRep]
    split_ifs with hk <;> simp [hk]
  · refine Finset.disjoint_filter.2 fun k _ hk hk' => hne (hk.symm.trans hk')

/-- The sets of the roots `l` and `w` become one. -/
lemma attach (h : Inv R st rep) {l w : α} (hl : rep l = l) (hw : rep w = w) (hne : l ≠ w)
    (hends : l = rep i ∧ w = rep j ∨ l = rep j ∧ w = rep i)
    {rank : α → ℕ} (hrank : ∀ k, k ≠ w → rank k = st.rank k)
    (hcase : rank w = st.rank w ∧ st.rank l < st.rank w ∨
      rank w = st.rank w + 1 ∧ st.rank l = st.rank w) :
    Inv (fun a b => R a b ∨ a = i ∧ b = j) ⟨Function.update st.parent l w, rank⟩
      (Forest.attachRep l w rep) := by
  have hmono : ∀ a b, Relation.EqvGen R a b →
      Relation.EqvGen (fun a b => R a b ∨ a = i ∧ b = j) a b :=
    Relation.EqvGen.mono fun _ _ => Or.inl
  -- nodes of the two sets are connected through `i` and `j`
  have hjoin : ∀ a b, rep a = l → rep b = w →
      Relation.EqvGen (fun a b => R a b ∨ a = i ∧ b = j) a b := by
    intro a b ha hb
    have hij : Relation.EqvGen (fun a b => R a b ∨ a = i ∧ b = j) i j :=
      .rel _ _ (Or.inr ⟨rfl, rfl⟩)
    have hto : ∀ x y, rep x = rep y → Relation.EqvGen (fun a b => R a b ∨ a = i ∧ b = j) x y :=
      fun x y hxy => hmono x y ((h.rep_eq_iff x y).1 hxy)
    rcases hends with ⟨hli, hwj⟩ | ⟨hlj, hwi⟩
    · exact ((hto a i (ha.trans hli)).trans _ _ _ hij).trans _ _ _
        (hto j b (hwj.symm.trans hb.symm))
    · exact ((hto a j (ha.trans hlj)).trans _ _ _ hij.symm).trans _ _ _
        (hto i b (hwi.symm.trans hb.symm))
  refine ⟨h.toForest.attach hl hw hne hrank (by omega) (by omega), fun a b => ⟨fun hab => ?_,
    fun hab => ?_⟩, fun r hr => ?_⟩
  · simp only [Forest.attachRep] at hab
    split_ifs at hab with ha hb hb
    · exact hmono a b ((h.rep_eq_iff a b).1 (ha.trans hb.symm))
    · exact hjoin a b ha hab.symm
    · exact (hjoin b a hb hab).symm
    · exact hmono a b ((h.rep_eq_iff a b).1 hab)
  · induction hab with
    | rel a b hab =>
      rcases hab with hab | ⟨rfl, rfl⟩
      · have hsame := (h.rep_eq_iff a b).2 (.rel _ _ hab)
        simp only [Forest.attachRep, hsame]
      · simp only [Forest.attachRep]
        rcases hends with ⟨rfl, rfl⟩ | ⟨rfl, rfl⟩ <;> simp [hne.symm]
    | refl => rfl
    | symm _ _ _ ih => exact ih.symm
    | trans _ _ _ _ _ ih ih' => exact ih.trans ih'
  · simp only at hr ⊢
    by_cases hrw : r = w
    · subst hrw
      rw [card_attach hne]
      have hsize := h.size r hw
      rcases hcase with ⟨hsame, -⟩ | ⟨hsucc, hsame⟩
      · rw [hsame]
        exact hsize.trans (Nat.le_add_left _ _)
      · have hsize' := h.size l hl
        rw [hsame] at hsize'
        rw [hsucc, Nat.pow_succ]
        omega
    · rw [hrank r hrw]
      have hrep : rep r = r := by
        simp only [Forest.attachRep] at hr
        split_ifs at hr
        · exact absurd hr.symm hrw
        · exact hr
      have hrl : r ≠ l := by
        rintro rfl
        simp only [Forest.attachRep, if_pos hrep] at hr
        exact hne hr.symm
      refine (h.size r hrep).trans (Finset.card_le_card fun k hk => ?_)
      simp only [Finset.mem_filter, Finset.mem_univ, true_and] at hk ⊢
      rw [Forest.attachRep, if_neg (by rw [hk]; exact hrl), hk]

lemma exists_link (h : Inv R st rep) (hmax : Fintype.card α < 2 ^ (maxRank + 1)) (i j : α) :
    ∃ st' rep', link maxRank (rep i) (rep j) st = some st' ∧
      Inv (fun a b => R a b ∨ a = i ∧ b = j) st' rep' := by
  rw [link]
  have hi := h.rep_rep i
  have hj := h.rep_rep j
  split_ifs with heq hlt hgt hrank
  · refine ⟨st, rep, rfl, h.toForest, fun a b => ⟨fun hab => ?_, fun hab => ?_⟩, h.size⟩
    · exact Relation.EqvGen.mono (fun _ _ => Or.inl) _ _ ((h.rep_eq_iff a b).1 hab)
    · induction hab with
      | rel a b hab =>
        rcases hab with hab | ⟨rfl, rfl⟩
        · exact (h.rep_eq_iff a b).2 (.rel _ _ hab)
        · exact heq
      | refl => rfl
      | symm _ _ _ ih => exact ih.symm
      | trans _ _ _ _ _ ih ih' => exact ih.trans ih'
  · exact ⟨_, _, rfl, h.attach hi hj heq (Or.inl ⟨rfl, rfl⟩) (fun _ _ => rfl)
      (Or.inl ⟨rfl, hlt⟩)⟩
  · exact ⟨_, _, rfl, h.attach hj hi (Ne.symm heq) (Or.inr ⟨rfl, rfl⟩) (fun _ _ => rfl)
      (Or.inl ⟨rfl, hgt⟩)⟩
  · exact ⟨_, _, rfl, h.attach hj hi (Ne.symm heq) (Or.inr ⟨rfl, rfl⟩)
      (fun k hk => Function.update_of_ne hk _ _)
      (Or.inr ⟨Function.update_self _ _ _, by omega⟩)⟩
  · -- both sets have `2 ^ maxRank` nodes
    exfalso
    have hcard := (card_attach heq rep).symm.le.trans (Finset.card_le_univ _)
    have hsize := h.size _ hi
    have hsize' := h.size _ hj
    have hpow : 2 ^ maxRank ≤ 2 ^ st.rank (rep i) := Nat.pow_le_pow_right Nat.two_pos (by omega)
    have hpow' : 2 ^ maxRank ≤ 2 ^ st.rank (rep j) := Nat.pow_le_pow_right Nat.two_pos (by omega)
    rw [Nat.pow_succ] at hmax
    omega

/-- Two sets are joined. -/
theorem exists_union (h : Inv R st rep) (hmax : Fintype.card α < 2 ^ (maxRank + 1))
    (hfuel : Fintype.card α ≤ fuel) (i j : α) :
    ∃ st' rep', union maxRank fuel i j st = some st' ∧
      Inv (fun a b => R a b ∨ a = i ∧ b = j) st' rep' := by
  obtain ⟨parent, hfind, hinv⟩ := h.exists_find hfuel i
  obtain ⟨parent', hfind', hinv'⟩ := hinv.exists_find hfuel j
  obtain ⟨st', rep', hlink, hresult⟩ := hinv'.exists_link hmax i j
  refine ⟨st', rep', ?_, hresult⟩
  rw [union, hfind, Option.bind_some, hfind', Option.bind_some]
  exact hlink

end Inv

end Sets

end UnionFind

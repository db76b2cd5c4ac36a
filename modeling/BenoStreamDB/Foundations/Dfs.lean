import Mathlib.Data.Finset.Card
import Mathlib.Data.List.Nodup
import Mathlib.Logic.Relation

/-!
# Searching with a stack

`loop` takes nodes from a stack, visits them and puts their neighbours that were not seen before on
the stack. It visits the nodes that can be reached from the start once each, if the nodes that were
seen before are not reached from elsewhere: `exists_loop`.

The loop takes fuel; the theorem asks for as much as the nodes that are not seen yet.
-/

namespace Dfs

variable {α β : Type} [DecidableEq α]

/-- A neighbour is put on the stack if it was not seen before. -/
def push (st : Finset α × List α) (v : α) : Finset α × List α :=
  if v ∈ st.1 then st else (insert v st.1, v :: st.2)

/-- The seen nodes and the accumulated value at the end, or `none` without fuel. -/
def loop (visit : β → α → β) (succ : α → List α) :
    ℕ → Finset α → List α → β → Option (Finset α × β)
  | 0, _, _, _ => none
  | _ + 1, seen, [], b => some (seen, b)
  | fuel + 1, seen, x :: stack, b =>
    let st := (succ x).foldl push (seen, stack)
    loop visit succ fuel st.1 st.2 (visit b x)

variable {succ : α → List α} {before seen nodes : Finset α} {start x : α} {stack order : List α}

/-- The neighbours `xs` put the new ones among them on the stack. -/
lemma exists_foldl_push (seen : Finset α) (xs : List α) :
    ∃ new, (∀ stack, xs.foldl push (seen, stack) = (seen ∪ new.toFinset, new ++ stack)) ∧
      (∀ y, y ∈ new ↔ y ∈ xs ∧ y ∉ seen) ∧ new.Nodup := by
  induction xs using List.reverseRecOn with
  | nil => exact ⟨[], by simp, by simp, List.nodup_nil⟩
  | append_singleton xs x ih =>
    obtain ⟨new, hfold, hmem, hnodup⟩ := ih
    by_cases hx : x ∈ seen ∪ new.toFinset
    · refine ⟨new, fun stack => ?_, fun y => ?_, hnodup⟩
      · rw [List.foldl_append, hfold, List.foldl_cons, List.foldl_nil, push, if_pos hx]
      · rw [hmem, List.mem_append, List.mem_singleton]
        constructor
        · exact fun hy => ⟨Or.inl hy.1, hy.2⟩
        · rintro ⟨hy | rfl, hnot⟩
          · exact ⟨hy, hnot⟩
          · rw [Finset.mem_union, List.mem_toFinset, hmem] at hx
            exact hx.resolve_left hnot
    · rw [Finset.mem_union, not_or, List.mem_toFinset] at hx
      refine ⟨x :: new, fun stack => ?_, fun y => ?_, List.nodup_cons.2 ⟨hx.2, hnodup⟩⟩
      · rw [List.foldl_append, hfold, List.foldl_cons, List.foldl_nil, push, if_neg]
        · simp
        · simpa using hx
      · rw [List.mem_cons, hmem, List.mem_append, List.mem_singleton]
        constructor
        · rintro (rfl | hy)
          · exact ⟨Or.inr rfl, hx.1⟩
          · exact ⟨Or.inl hy.1, hy.2⟩
        · rintro ⟨hy | rfl, hnot⟩
          · exact Or.inr ⟨hy, hnot⟩
          · exact Or.inl rfl

/-- The nodes seen since `before` are those in `order`, which are visited, and on the stack. -/
structure Inv (succ : α → List α) (before : Finset α) (start : α) (seen : Finset α)
    (order stack : List α) : Prop where
  mem : ∀ x, x ∈ seen ↔ x ∈ before ∨ x ∈ order ++ stack
  nodup : (order ++ stack).Nodup
  fresh : ∀ x ∈ order ++ stack, x ∉ before
  start_mem : start ∈ order ++ stack
  reach : ∀ x ∈ order ++ stack, Relation.ReflTransGen (fun a b => b ∈ succ a) start x
  expanded : ∀ x ∈ order, ∀ y ∈ succ x, y ∈ seen

lemma inv_init (succ : α → List α) (hstart : start ∉ before) :
    Inv succ before start (insert start before) [] [start] where
  mem x := by simp [or_comm]
  nodup := List.nodup_singleton start
  fresh x hx := by
    obtain rfl := List.mem_singleton.1 hx
    exact hstart
  start_mem := List.mem_singleton_self start
  reach x hx := by
    obtain rfl := List.mem_singleton.1 hx
    exact .refl
  expanded x hx := absurd hx List.not_mem_nil

/-- A node is visited, and its neighbours `new` are put on the stack. -/
lemma Inv.step {new : List α} (h : Inv succ before start seen order (x :: stack))
    (hmem : ∀ y, y ∈ new ↔ y ∈ succ x ∧ y ∉ seen) (hnodup : new.Nodup) :
    Inv succ before start (seen ∪ new.toFinset) (order ++ [x]) (new ++ stack) := by
  have hsplit : ∀ y, y ∈ order ++ [x] ++ (new ++ stack) ↔ y ∈ order ++ x :: stack ∨ y ∈ new := by
    intro y
    simp only [List.mem_append, List.mem_cons, List.not_mem_nil, or_false]
    tauto
  have hnew : ∀ y ∈ new, y ∉ seen := fun y hy => ((hmem y).1 hy).2
  refine ⟨fun y => ?_, ?_, fun y hy => ?_, (hsplit _).2 (Or.inl h.start_mem), fun y hy => ?_,
    fun y hy z hz => ?_⟩
  · rw [Finset.mem_union, List.mem_toFinset, h.mem, hsplit, or_assoc]
  · have hperm : (order ++ [x] ++ (new ++ stack)).Perm (new ++ (order ++ x :: stack)) := by
      rw [← List.append_assoc]
      refine (List.perm_append_comm.append_right stack).trans (.of_eq ?_)
      simp
    refine hperm.nodup_iff.2 (List.nodup_append'.2 ⟨hnodup, h.nodup, fun y hy hy' => ?_⟩)
    exact hnew y hy ((h.mem y).2 (Or.inr hy'))
  · rcases (hsplit y).1 hy with hy | hy
    · exact h.fresh y hy
    · exact fun hbefore => hnew y hy ((h.mem y).2 (Or.inl hbefore))
  · rcases (hsplit y).1 hy with hy | hy
    · exact h.reach y hy
    · exact (h.reach x (by simp)).tail ((hmem y).1 hy).1
  · rw [Finset.mem_union, List.mem_toFinset]
    rcases List.mem_append.1 hy with hy | hy
    · exact Or.inl (h.expanded y hy z hz)
    · obtain rfl := List.mem_singleton.1 hy
      by_cases hseen : z ∈ seen
      · exact Or.inl hseen
      · exact Or.inr ((hmem z).2 ⟨hz, hseen⟩)

lemma Inv.exists_loop (h : Inv succ before start seen order stack) (visit : β → α → β)
    (hclosed : ∀ x, ∀ y ∈ succ x, y ∈ nodes) (hseen : seen ⊆ nodes) {fuel : ℕ}
    (hfuel : stack.length + (nodes.card - seen.card) < fuel) (b : β) :
    ∃ rest, loop visit succ fuel seen stack b =
        some (before ∪ (order ++ rest).toFinset, rest.foldl visit b) ∧
      Inv succ before start (before ∪ (order ++ rest).toFinset) (order ++ rest) [] := by
  induction fuel generalizing seen order stack b with
  | zero => omega
  | succ fuel ih =>
    cases stack with
    | nil =>
      have hsame : seen = before ∪ order.toFinset := by
        ext y
        rw [h.mem, Finset.mem_union, List.mem_toFinset, List.append_nil]
      refine ⟨[], ?_, ?_⟩
      · rw [loop, List.append_nil, hsame]
        rfl
      · rw [List.append_nil, ← hsame]
        exact h
    | cons x stack =>
      obtain ⟨new, hfold, hmem, hnodup⟩ := exists_foldl_push seen (succ x)
      have hsub : seen ∪ new.toFinset ⊆ nodes := by
        refine Finset.union_subset hseen fun y hy => ?_
        exact hclosed x y ((hmem y).1 (List.mem_toFinset.1 hy)).1
      have hcard : (seen ∪ new.toFinset).card = seen.card + new.length := by
        rw [Finset.card_union_of_disjoint, List.toFinset_card_of_nodup hnodup]
        refine Finset.disjoint_left.2 fun y hy hy' => ?_
        exact ((hmem y).1 (List.mem_toFinset.1 hy')).2 hy
      have hle := Finset.card_le_card hsub
      obtain ⟨rest, hloop, hinv⟩ := ih (h.step hmem hnodup) hsub
        (by simp only [List.length_append, List.length_cons] at hfuel ⊢; omega) (visit b x)
      refine ⟨x :: rest, ?_, ?_⟩
      · rw [loop, hfold]
        simp only
        rw [hloop, List.append_assoc]
        rfl
      · rw [List.append_assoc] at hinv
        exact hinv

/-- The search visits the nodes that can be reached from `start`, in some order. -/
theorem exists_loop (visit : β → α → β) (hclosed : ∀ x, ∀ y ∈ succ x, y ∈ nodes)
    (hbefore : before ⊆ nodes) (hstart : start ∈ nodes) (hfresh : start ∉ before)
    (hback : ∀ x y, Relation.ReflTransGen (fun a b => b ∈ succ a) start x → y ∈ succ x →
      y ∈ before → x ∈ before) {fuel : ℕ} (hfuel : nodes.card < fuel) (b : β) :
    ∃ order : List α, loop visit succ fuel (insert start before) [start] b =
        some (before ∪ order.toFinset, order.foldl visit b) ∧ (∀ x ∈ order, x ∉ before) ∧
      ∀ x, x ∈ order ↔ Relation.ReflTransGen (fun a b => b ∈ succ a) start x := by
  have hsub : insert start before ⊆ nodes := Finset.insert_subset hstart hbefore
  have hpos : 0 < (insert start before).card :=
    Finset.card_pos.2 ⟨start, Finset.mem_insert_self _ _⟩
  have hle := Finset.card_le_card hsub
  obtain ⟨order, hloop, hinv⟩ := (inv_init succ hfresh).exists_loop visit hclosed hsub
    (show _ < fuel by simp only [List.length_singleton]; omega) b
  rw [List.nil_append] at hloop hinv
  have hnil : order ++ [] = order := List.append_nil order
  refine ⟨order, hloop, fun x hx => hinv.fresh x (hnil.symm ▸ hx), fun x =>
    ⟨fun hx => hinv.reach x (hnil.symm ▸ hx), fun hx => ?_⟩⟩
  -- a step from a visited node leads to a visited one, as it cannot lead back to `before`
  induction hx with
  | refl => exact hnil ▸ hinv.start_mem
  | @tail y z hy hz ih =>
    rcases Finset.mem_union.1 (hinv.expanded y ih z hz) with hz' | hz'
    · exact absurd (hback y z hy hz hz') (hinv.fresh y (hnil.symm ▸ ih))
    · exact List.mem_toFinset.1 hz'

end Dfs

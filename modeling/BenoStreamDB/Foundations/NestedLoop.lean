import Mathlib.Data.List.Perm.Basic

/-!
# Nested-loop joins

The pairs of two lists that satisfy a predicate. Two joins with the same right side whose left sides
differ by a tail produce the same pairs, up to order, exactly if the predicates agree on the common
part and the tail has no partner.
-/

namespace NestedLoop

variable {α β : Type*}

def pairs (p : α → β → Bool) (l : List α) (r : List β) : List (α × β) :=
  l.flatMap fun a => (r.filter (p a)).map (Prod.mk a)

/-- `xs LEFT JOIN ys`: an element without a partner is paired with `null`. -/
def leftJoin (xs : List α) (ys : List β) (on : α → β → Bool) (null : β) : List (α × β) :=
  xs.flatMap fun x =>
    if (ys.filter (on x)).isEmpty then [(x, null)] else (ys.filter (on x)).map (x, ·)

variable {p q : α → β → Bool} {l l' : List α} {r r' : List β}

@[simp]
lemma pairs_nil_left : pairs p [] r = [] := rfl

@[simp]
lemma pairs_nil_right : pairs p l [] = [] := by
  simp [pairs]

lemma pairs_cons {a : α} : pairs p (a :: l) r = (r.filter (p a)).map (Prod.mk a) ++ pairs p l r :=
  rfl

lemma pairs_append : pairs p (l ++ l') r = pairs p l r ++ pairs p l' r :=
  List.flatMap_append

lemma mem_pairs {x : α × β} : x ∈ pairs p l r ↔ x.1 ∈ l ∧ x.2 ∈ r ∧ p x.1 x.2 = true := by
  simp only [pairs, List.mem_flatMap, List.mem_map, List.mem_filter]
  constructor
  · rintro ⟨a, ha, b, hb, rfl⟩
    exact ⟨ha, hb⟩
  · rintro ⟨ha, hb⟩
    exact ⟨x.1, ha, x.2, hb, rfl⟩

lemma mem_leftJoin {xs : List α} {ys : List β} {on : α → β → Bool} {null : β} {x : α × β} :
    x ∈ leftJoin xs ys on null ↔ x.1 ∈ xs ∧
      (x.2 ∈ ys ∧ on x.1 x.2 = true ∨ x.2 = null ∧ ∀ y ∈ ys, on x.1 y = false) := by
  obtain ⟨a, b⟩ := x
  simp only [leftJoin, List.mem_flatMap]
  constructor
  · rintro ⟨a', ha, h⟩
    split_ifs at h with hempty
    · obtain ⟨rfl, rfl⟩ := Prod.mk.inj (List.mem_singleton.1 h)
      simp only [List.isEmpty_iff, List.filter_eq_nil_iff, Bool.not_eq_true] at hempty
      exact ⟨ha, .inr ⟨rfl, hempty⟩⟩
    · obtain ⟨y, hy, heq⟩ := List.mem_map.1 h
      obtain ⟨rfl, rfl⟩ := Prod.mk.inj heq
      exact ⟨ha, .inl (List.mem_filter.1 hy)⟩
  · rintro ⟨ha, hpartner | ⟨rfl, hnone⟩⟩
    · have hmem := List.mem_filter.2 hpartner
      refine ⟨a, ha, ?_⟩
      rw [if_neg (by simpa using ⟨b, hpartner⟩)]
      exact List.mem_map_of_mem hmem
    · refine ⟨a, ha, ?_⟩
      rw [if_pos (by simpa using hnone)]
      exact List.mem_singleton_self _

lemma exists_mem_leftJoin {xs : List α} {a : α} (ha : a ∈ xs) (ys : List β) (on : α → β → Bool)
    (null : β) : ∃ b, (a, b) ∈ leftJoin xs ys on null := by
  by_cases h : ∃ y ∈ ys, on a y = true
  · obtain ⟨y, hy⟩ := h
    exact ⟨y, mem_leftJoin.2 ⟨ha, .inl hy⟩⟩
  · refine ⟨null, mem_leftJoin.2 ⟨ha, .inr ⟨rfl, fun y hy => ?_⟩⟩⟩
    exact eq_false_of_ne_true fun hon => h ⟨y, hy, hon⟩

lemma pairs_eq_nil_iff : pairs p l r = [] ↔ ∀ a ∈ l, ∀ b ∈ r, p a b = false := by
  rw [List.eq_nil_iff_forall_not_mem]
  constructor
  · intro h a ha b hb
    by_contra hne
    exact h (a, b) (mem_pairs.2 ⟨ha, hb, eq_true_of_ne_false hne⟩)
  · rintro h ⟨a, b⟩ hx
    obtain ⟨ha, hb, hp⟩ := mem_pairs.1 hx
    exact Bool.false_ne_true ((h a ha b hb).symm.trans hp)

lemma pairs_congr (h : ∀ a ∈ l, ∀ b ∈ r, p a b = q a b) : pairs p l r = pairs q l r := by
  induction l with
  | nil => rfl
  | cons a l ih =>
    rw [pairs_cons, pairs_cons, ih fun a' ha' => h a' (List.mem_cons_of_mem a ha'),
      List.filter_congr (h a List.mem_cons_self)]

lemma pairs_filter {k : β → Bool} :
    pairs p l (r.filter k) = pairs (fun a b => k b && p a b) l r := by
  simp only [pairs, List.filter_filter, Bool.and_comm]

lemma pairs_perm_right (h : r.Perm r') : (pairs p l r).Perm (pairs p l r') :=
  List.Perm.flatMap_left l fun _ _ => (h.filter _).map _

/-- The joins agree exactly if the predicates agree on the common rows and the others have no
partner. -/
lemma perm_pairs_append_iff : (pairs p l r).Perm (pairs q (l ++ l') r) ↔
    (∀ a ∈ l, ∀ b ∈ r, p a b = q a b) ∧ ∀ a ∈ l', ∀ b ∈ r, q a b = false := by
  constructor
  · intro h
    have hcommon : ∀ a ∈ l, ∀ b ∈ r, p a b = q a b := by
      intro a ha b hb
      refine Bool.eq_iff_iff.2 ⟨fun hp => ?_, fun hq => ?_⟩
      · have hmem : (a, b) ∈ pairs p l r := mem_pairs.2 ⟨ha, hb, hp⟩
        exact (mem_pairs.1 (h.mem_iff.1 hmem)).2.2
      · have hmem : (a, b) ∈ pairs q (l ++ l') r :=
          mem_pairs.2 ⟨List.mem_append_left l' ha, hb, hq⟩
        exact (mem_pairs.1 (h.mem_iff.2 hmem)).2.2
    refine ⟨hcommon, ?_⟩
    -- the pairs of the tail are all that the second join has more
    rw [pairs_congr hcommon, pairs_append] at h
    have hlen := h.length_eq
    rw [List.length_append] at hlen
    exact pairs_eq_nil_iff.1 (List.length_eq_zero_iff.1 (by omega))
  · rintro ⟨hcommon, htail⟩
    rw [pairs_congr hcommon, pairs_append, pairs_eq_nil_iff.2 htail, List.append_nil]

end NestedLoop

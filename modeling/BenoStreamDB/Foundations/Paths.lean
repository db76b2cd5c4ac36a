import BenoStreamDB.Foundations.Bfs
import Mathlib.Data.List.Chain
import Mathlib.Logic.Relation

/-!
# Paths

A path is a list of nodes in which consecutive nodes are joined by an edge. The nodes within a
number of steps are those at the end of a path of that length: `within_iff_exists_isPath`.

`Search` is what a search with one queue keeps true of the distances it has found. When a node is
taken out of the queue, all distances up to its own are known: `Search.within_iff`.
-/

namespace Bfs

variable {α : Type} {succ : α → List α} {seeds : List α} {s t x y : α} {p q : List α} {n m : ℕ}

/-- The list `p` leads from `s` to `t` along edges. -/
structure IsPath (succ : α → List α) (s t : α) (p : List α) : Prop where
  chain : p.IsChain fun a b => b ∈ succ a
  head : p.head? = some s
  last : p.getLast? = some t

/-- A path with the fewest edges. -/
structure IsShortest (succ : α → List α) (s t : α) (p : List α) : Prop
    extends IsPath succ s t p where
  least : ∀ q, IsPath succ s t q → p.length ≤ q.length

lemma isPath_singleton (succ : α → List α) (s : α) : IsPath succ s s [s] :=
  ⟨List.isChain_singleton s, rfl, rfl⟩

lemma isPath_singleton_iff : IsPath succ s t [x] ↔ x = s ∧ x = t := by
  constructor
  · exact fun h => ⟨by simpa using h.head, by simpa using h.last⟩
  · rintro ⟨rfl, rfl⟩
    exact isPath_singleton succ x

lemma IsPath.ne_nil (h : IsPath succ s t p) : p ≠ [] := by
  rintro rfl
  cases h.head

lemma IsPath.concat (h : IsPath succ s y p) (hx : x ∈ succ y) : IsPath succ s x (p ++ [x]) where
  chain := by
    refine List.isChain_append.2 ⟨h.chain, List.isChain_singleton x, ?_⟩
    intro a ha b hb
    obtain rfl : y = a := by simpa [h.last] using ha
    obtain rfl : x = b := by simpa using hb
    exact hx
  head := by rw [List.head?_append_of_ne_nil _ h.ne_nil, h.head]
  last := by simp

/-- A path of more than one node ends with an edge. -/
lemma isPath_concat_iff (hp : p ≠ []) :
    IsPath succ s x (p ++ [t]) ↔ t = x ∧ ∃ y, IsPath succ s y p ∧ x ∈ succ y := by
  constructor
  · intro h
    obtain rfl : t = x := by simpa using h.last
    obtain ⟨hchain, -, hjoin⟩ := List.isChain_append.1 h.chain
    refine ⟨rfl, p.getLast hp, ⟨hchain, ?_, List.getLast?_eq_some_getLast hp⟩, ?_⟩
    · rw [← h.head, List.head?_append_of_ne_nil _ hp]
    · exact hjoin _ (List.getLast?_eq_some_getLast hp) t rfl
  · rintro ⟨rfl, y, hy, ht⟩
    exact hy.concat ht

lemma Within.mono (h : Within succ seeds n x) (hle : n ≤ m) : Within succ seeds m x := by
  obtain ⟨k, rfl⟩ := Nat.exists_eq_add_of_le hle
  induction k with
  | zero => exact h
  | succ k ih => exact Or.inl (ih (Nat.le_add_right n k))

lemma IsPath.within (h : IsPath succ s x p) (hs : s ∈ seeds) (hlen : p.length ≤ n + 1) :
    Within succ seeds n x := by
  induction p using List.reverseRecOn generalizing n x with
  | nil => exact absurd rfl h.ne_nil
  | append_singleton p t ih =>
    by_cases hp : p = []
    · subst hp
      obtain ⟨rfl, rfl⟩ := isPath_singleton_iff.1 h
      exact Within.mono (n := 0) hs (Nat.zero_le n)
    · obtain ⟨rfl, y, hy, ht⟩ := (isPath_concat_iff hp).1 h
      have hpos := List.length_pos_of_ne_nil hp
      rw [List.length_append, List.length_singleton] at hlen
      obtain ⟨k, rfl⟩ : ∃ k, n = k + 1 := ⟨n - 1, by omega⟩
      exact Or.inr ⟨y, ih hy (by omega), ht⟩

/-- The nodes within `n` steps are the ends of the paths of at most `n` edges. -/
theorem within_iff_exists_isPath :
    Within succ seeds n x ↔ ∃ s ∈ seeds, ∃ p, IsPath succ s x p ∧ p.length ≤ n + 1 := by
  constructor
  · intro h
    induction n generalizing x with
    | zero => exact ⟨x, h, [x], isPath_singleton succ x, le_rfl⟩
    | succ n ih =>
      rcases h with h | ⟨y, h, hx⟩
      · obtain ⟨s, hs, p, hp, hlen⟩ := ih h
        exact ⟨s, hs, p, hp, hlen.trans (Nat.le_succ _)⟩
      · obtain ⟨s, hs, p, hp, hlen⟩ := ih h
        refine ⟨s, hs, p ++ [x], hp.concat hx, ?_⟩
        rw [List.length_append, List.length_singleton]
        omega
  · rintro ⟨s, hs, p, hp, hlen⟩
    exact hp.within hs hlen

/-- Some number of steps leads to every node that can be reached, and to no other. -/
lemma reflTransGen_iff_exists_within :
    Relation.ReflTransGen (fun a b => b ∈ succ a) s t ↔ ∃ n, Within succ [s] n t := by
  constructor
  · intro h
    induction h with
    | refl => exact ⟨0, List.mem_singleton_self s⟩
    | @tail y x _ hx ih =>
      obtain ⟨n, hy⟩ := ih
      exact ⟨n + 1, Or.inr ⟨y, hy, hx⟩⟩
  · rintro ⟨n, h⟩
    induction n generalizing t with
    | zero =>
      obtain rfl := List.mem_singleton.1 h
      exact .refl
    | succ n ih =>
      rcases h with h | ⟨y, h, hx⟩
      · exact ih h
      · exact (ih h).tail hx

/-- A path is shortest if no fewer steps lead to its end. -/
lemma IsPath.isShortest (h : IsPath succ s t p) (hlen : p.length = n + 1)
    (hleast : ∀ m < n, ¬ Within succ [s] m t) : IsShortest succ s t p where
  toIsPath := h
  least q hq := by
    by_contra hlt
    have hpos := List.length_pos_of_ne_nil hq.ne_nil
    exact hleast (q.length - 1) (by omega) (hq.within (List.mem_singleton_self s) (by omega))

lemma IsShortest.length_eq (h : IsShortest succ s t p) (ht : Within succ [s] n t)
    (hleast : ∀ m < n, ¬ Within succ [s] m t) : p.length = n + 1 := by
  obtain ⟨_, hs, q, hq, hlen⟩ := within_iff_exists_isPath.1 ht
  obtain rfl := List.mem_singleton.1 hs
  have hle := h.least q hq
  have hpos := List.length_pos_of_ne_nil h.ne_nil
  by_contra hne
  exact hleast (p.length - 1) (by omega)
    (h.toIsPath.within (List.mem_singleton_self _) (by omega))

/-- If a node can be reached at all, some number of steps is enough. -/
lemma exists_enough_steps (succ : α → List α) (seeds : List α) (t : α) :
    ∃ far, ∀ n, Within succ seeds n t → Within succ seeds far t := by
  by_cases hreach : ∃ n, Within succ seeds n t
  · obtain ⟨n, hn⟩ := hreach
    exact ⟨n, fun _ _ => hn⟩
  · exact ⟨0, fun n hn => absurd ⟨n, hn⟩ hreach⟩

/-! ### Searching with a queue -/

/-- The nodes with a distance are those found so far. The queue holds those that are not expanded
yet, in the order of their distances. -/
structure Search (succ : α → List α) (start : α) (dist : α → Option ℕ) (queue : List α) :
    Prop where
  origin : dist start = some 0
  sound : ∀ x k, dist x = some k → Within succ [start] k x
  queued : ∀ x ∈ queue, ∃ k, dist x = some k
  sorted : queue.Pairwise fun x y => ∀ j k, dist x = some j → dist y = some k → j ≤ k
  near : ∀ x ∈ queue, ∀ y j k, dist x = some j → dist y = some k → k ≤ j + 1
  expanded : ∀ x k, dist x = some k → x ∉ queue → ∀ y ∈ succ x, ∃ j ≤ k + 1, dist y = some j
  nodup : queue.Nodup

namespace Search

variable {start curr : α} {dist dist' : α → Option ℕ} {queue rest new : List α} {k : ℕ}

lemma init [DecidableEq α] (succ : α → List α) (start : α) :
    Search succ start (fun x => if x = start then some 0 else none) [start] where
  origin := if_pos rfl
  sound x k h := by
    split_ifs at h with hx
    obtain rfl := hx
    exact Within.mono (n := 0) (List.mem_singleton_self x) (Nat.zero_le k)
  queued x hx := ⟨0, if_pos (List.mem_singleton.1 hx)⟩
  sorted := List.pairwise_singleton _ _
  near x _ y j k _ hy := by
    split_ifs at hy
    cases hy
    exact Nat.zero_le _
  expanded x k h hx := by
    split_ifs at h with heq
    exact absurd (List.mem_singleton.2 heq) hx
  nodup := List.nodup_singleton start

/-- The head of the queue has the least distance in it. -/
lemma le_of_mem (h : Search succ start dist (curr :: rest)) (hk : dist curr = some k)
    (hx : x ∈ curr :: rest) {j : ℕ} (hj : dist x = some j) : k ≤ j := by
  rcases List.mem_cons.1 hx with rfl | hx
  · rw [hk] at hj
    cases hj
    exact le_rfl
  · exact (List.pairwise_cons.1 h.sorted).1 x hx k j hk hj

/-- All distances up to that of the head of the queue are known. -/
lemma within_iff (h : Search succ start dist (curr :: rest)) (hk : dist curr = some k)
    (hm : m ≤ k) : Within succ [start] m x ↔ ∃ j ≤ m, dist x = some j := by
  constructor
  · intro hx
    induction m generalizing x with
    | zero =>
      obtain rfl := List.mem_singleton.1 hx
      exact ⟨0, le_rfl, h.origin⟩
    | succ m ih =>
      rcases hx with hx | ⟨y, hy, hx⟩
      · obtain ⟨j, hj, hdist⟩ := ih (by omega) hx
        exact ⟨j, by omega, hdist⟩
      · obtain ⟨j, hj, hdist⟩ := ih (by omega) hy
        -- `y` is nearer than the head, so it is not in the queue any more
        have hy' : y ∉ curr :: rest := fun hmem => by
          have := h.le_of_mem hk hmem hdist
          omega
        obtain ⟨i, hi, hx'⟩ := h.expanded y j hdist hy' x hx
        exact ⟨i, by omega, hx'⟩
  · rintro ⟨j, hj, hx⟩
    exact (h.sound x j hx).mono hj

/-- With an empty queue, all nodes that can be reached are found. -/
lemma exists_of_within (h : Search succ start dist []) (hx : Within succ [start] m x) :
    ∃ j, dist x = some j := by
  induction m generalizing x with
  | zero =>
    obtain rfl := List.mem_singleton.1 hx
    exact ⟨0, h.origin⟩
  | succ m ih =>
    rcases hx with hx | ⟨y, hy, hx⟩
    · exact ih hx
    · obtain ⟨j, hdist⟩ := ih hy
      obtain ⟨i, -, hx'⟩ := h.expanded y j hdist List.not_mem_nil x hx
      exact ⟨i, hx'⟩

/-- The head of the queue is expanded: its neighbours without a distance get the next one. -/
lemma expand (h : Search succ start dist (curr :: rest)) (hk : dist curr = some k)
    (hmem : ∀ y, y ∈ new ↔ y ∈ succ curr ∧ dist y = none) (hnew : new.Nodup)
    (hold : ∀ y, y ∉ new → dist' y = dist y) (hdist : ∀ y ∈ new, dist' y = some (k + 1)) :
    Search succ start dist' (rest ++ new) := by
  have hkeep : ∀ y j, dist y = some j → dist' y = some j := fun y j hj => by
    rw [hold y fun hy => ?_, hj]
    rw [((hmem y).1 hy).2] at hj
    cases hj
  -- a distance is an old one or that of a new node
  have hcases : ∀ y j, dist' y = some j → dist y = some j ∨ y ∈ new ∧ j = k + 1 := by
    intro y j hj
    by_cases hy : y ∈ new
    · rw [hdist y hy] at hj
      exact Or.inr ⟨hy, (Option.some.inj hj).symm⟩
    · rw [hold y hy] at hj
      exact Or.inl hj
  have hrest : ∀ y ∈ rest, y ∈ curr :: rest := fun y hy => List.mem_cons_of_mem curr hy
  have hnotnew : ∀ y ∈ rest, y ∉ new := fun y hy hy' => by
    obtain ⟨j, hj⟩ := h.queued y (hrest y hy)
    rw [((hmem y).1 hy').2] at hj
    cases hj
  have hle : ∀ y j, dist' y = some j → j ≤ k + 1 := fun y j hj => by
    rcases hcases y j hj with hj | ⟨-, rfl⟩
    · exact h.near curr List.mem_cons_self y k j hk hj
    · exact le_rfl
  have hge : ∀ y ∈ rest ++ new, ∀ j, dist' y = some j → k ≤ j := by
    intro y hy j hj
    rcases hcases y j hj with hj' | ⟨-, rfl⟩
    · rcases List.mem_append.1 hy with hy | hy
      · exact h.le_of_mem hk (hrest y hy) hj'
      · rw [((hmem y).1 hy).2] at hj'
        cases hj'
    · exact Nat.le_succ k
  refine ⟨hkeep _ _ h.origin, ?_, ?_, ?_, ?_, ?_, ?_⟩
  · intro y j hj
    rcases hcases y j hj with hj | ⟨hy, rfl⟩
    · exact h.sound y j hj
    · exact Or.inr ⟨curr, h.sound curr k hk, ((hmem y).1 hy).1⟩
  · intro y hy
    rcases List.mem_append.1 hy with hy | hy
    · obtain ⟨j, hj⟩ := h.queued y (hrest y hy)
      exact ⟨j, hkeep y j hj⟩
    · exact ⟨k + 1, hdist y hy⟩
  · refine List.pairwise_append.2 ⟨?_, ?_, ?_⟩
    · refine (List.pairwise_cons.1 h.sorted).2.imp_of_mem fun {a b} ha hb hab i j hi hj => ?_
      rw [hold a (hnotnew a ha)] at hi
      rw [hold b (hnotnew b hb)] at hj
      exact hab i j hi hj
    · refine List.pairwise_iff_forall_sublist.2 fun {a b} hab i j hi hj => ?_
      have hb : b ∈ new := hab.subset (by simp)
      rw [hdist b hb] at hj
      cases hj
      exact hle a i hi
    · intro a _ b hb i j hi hj
      rw [hdist b hb] at hj
      cases hj
      exact hle a i hi
  · intro a ha b i j hi hj
    have := hge a ha i hi
    have := hle b j hj
    omega
  · intro a i hi ha b hb
    rw [List.mem_append, not_or] at ha
    rcases hcases a i hi with hi' | ⟨ha', -⟩
    · by_cases hcurr : a = curr
      · subst hcurr
        rw [hk] at hi'
        cases hi'
        by_cases hb' : b ∈ new
        · exact ⟨_, le_rfl, hdist b hb'⟩
        · cases hnone : dist b with
          | none => exact absurd ((hmem b).2 ⟨hb, hnone⟩) hb'
          | some j =>
            exact ⟨j, h.near a List.mem_cons_self b k j hk hnone, hkeep b j hnone⟩
      · have ha' : a ∉ curr :: rest := by
          rw [List.mem_cons, not_or]
          exact ⟨hcurr, ha.1⟩
        obtain ⟨j, hj, hb'⟩ := h.expanded a i hi' ha' b hb
        exact ⟨j, hj, hkeep b j hb'⟩
    · exact absurd ha' ha.2
  · refine List.nodup_append'.2 ⟨(List.nodup_cons.1 h.nodup).2, hnew, ?_⟩
    exact fun y hy hy' => hnotnew y hy hy'

end Search

end Bfs

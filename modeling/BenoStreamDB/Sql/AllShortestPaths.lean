import BenoStreamDB.Foundations.Failing
import BenoStreamDB.Sql.GraphView

/-!
# The `all_shortest_paths` aggregate

`evaluate` of `sql/graph_udf/all_shortest_paths.rs`: a search with a queue that keeps all nodes
from which a node is reached on a shortest path, and the enumeration of the ways back from the
target. A neighbour that is listed twice is kept twice, so a path is listed once for each choice of
its edges: `AllPaths.exists_evaluate`. The graphs of several segments list a neighbour once for
each segment that has the edge.
-/

namespace BenoStreamDB

/-- The state of the search. Hash maps are functions. -/
structure AllPaths where
  dist : ℕ → Option ℕ
  prev : ℕ → Option (List ℕ)
  queue : List ℕ
  /-- `shortest_len`, with `none` for `usize::MAX`. -/
  shortestLen : Option ℕ

namespace AllPaths

/-- The neighbour `n` of `curr`, at the distance `alt`. -/
def relax (curr alt : ℕ) (st : AllPaths) (n : ℕ) : AllPaths :=
  if st.shortestLen.any (· < alt) then st
  else
    match st.dist n with
    | none =>
      { st with
        dist := Function.update st.dist n (some alt)
        prev := Function.update st.prev n (some [curr])
        queue := st.queue ++ [n] }
    | some k =>
      if k = alt then
        { st with prev := Function.update st.prev n ((st.prev n).map fun p => p ++ [curr]) }
      else st

/-- The loop of the search. It gives `none` without fuel, or for a node without a distance. -/
def loop (g : GraphView) (stop : ℕ) : ℕ → AllPaths → Option AllPaths
  | 0, _ => none
  | _ + 1, ⟨dist, prev, [], shortestLen⟩ => some ⟨dist, prev, [], shortestLen⟩
  | fuel + 1, ⟨dist, prev, curr :: queue, shortestLen⟩ =>
    (dist curr).bind fun d =>
      if shortestLen.any (· < d) then loop g stop fuel ⟨dist, prev, queue, shortestLen⟩
      else if curr = stop then loop g stop fuel ⟨dist, prev, queue, some d⟩
      else loop g stop fuel
        ((g.getNeighbors curr).foldl (relax curr (d + 1)) ⟨dist, prev, queue, shortestLen⟩)

/-- The ways back from `u`; the path is kept in its final order. -/
def backtrack (prev : ℕ → Option (List ℕ)) (start : ℕ) :
    ℕ → ℕ → List ℕ → Option (List (List ℕ))
  | 0, _, _ => none
  | fuel + 1, u, path =>
    if u = start then some [path]
    else
      match prev u with
      | some parents =>
        (parents.mapM fun p => backtrack prev start fuel p (p :: path)).map List.flatten
      | none => some []

def init (start : ℕ) : AllPaths :=
  ⟨Function.update (fun _ => none) start (some 0), fun _ => none, [start], none⟩

/-- The paths between two nodes. -/
def paths (g : GraphView) (fuel start stop : ℕ) : Option (List (List ℕ)) :=
  if start = stop then some [[start]]
  else
    (loop g stop fuel (init start)).bind fun st =>
      if st.shortestLen.isSome then backtrack st.prev start fuel stop [stop] else some []

/-- `evaluate`, with `none` for NULL in the result. The outer `none` is for fuel used up. -/
def evaluate (g : GraphView) (fuel : ℕ) : Option ℕ → Option ℕ → Option (Option (List (List ℕ)))
  | some start, some stop =>
    (paths g fuel start stop).map fun ps => if ps.isEmpty then none else some ps
  | _, _ => some none

/-! ### One node -/

section Relax

variable {curr alt : ℕ} {xs : List ℕ} {st : AllPaths}

/-- The nodes from which a node is reached. -/
def parents (st : AllPaths) (y : ℕ) : List ℕ := (st.prev y).getD []

/-- A node with the distance `alt` has parents, a node without a distance has none. -/
structure Ready (alt : ℕ) (st : AllPaths) : Prop where
  found : ∀ y, st.dist y = some alt → (st.prev y).isSome
  fresh : ∀ y, st.dist y = none → st.prev y = none

/-- The state after the neighbours `xs` of `curr`, of which `new` were found first there. -/
structure Relaxed (curr alt : ℕ) (st : AllPaths) (xs : List ℕ) (st' : AllPaths) (new : List ℕ) :
    Prop where
  ready : Ready alt st'
  mem : ∀ y, y ∈ new ↔ y ∈ xs ∧ st.dist y = none
  nodup : new.Nodup
  dist_new : ∀ y ∈ new, st'.dist y = some alt
  dist_old : ∀ y, y ∉ new → st'.dist y = st.dist y
  queue : st'.queue = st.queue ++ new
  shortestLen : st'.shortestLen = none
  parents_eq : ∀ y, st'.dist y = some alt →
    st'.parents y = st.parents y ++ List.replicate (xs.count y) curr
  parents_old : ∀ y, st'.dist y ≠ some alt → st'.prev y = st.prev y

variable {st' : AllPaths} {new : List ℕ} {x : ℕ}

lemma count_append_singleton_of_ne {y : ℕ} (hy : y ≠ x) : (xs ++ [x]).count y = xs.count y := by
  rw [List.count_append, List.count_singleton]
  simp [hy.symm]

/-- A neighbour that was not found before. -/
lemma Relaxed.fresh (h : Relaxed curr alt st xs st' new) (hst : Ready alt st)
    (hx : st'.dist x = none) :
    Relaxed curr alt st (xs ++ [x]) (relax curr alt st' x) (new ++ [x]) := by
  have hxnew : x ∉ new := fun hmem => by
    rw [h.dist_new x hmem] at hx
    cases hx
  have hxold : st.dist x = none := by rw [← h.dist_old x hxnew, hx]
  have hxnot : x ∉ xs := fun hmem => hxnew ((h.mem x).2 ⟨hmem, hxold⟩)
  have hrelax : relax curr alt st' x = ⟨Function.update st'.dist x (some alt),
      Function.update st'.prev x (some [curr]), st'.queue ++ [x], none⟩ := by
    simp [relax, h.shortestLen, hx]
  rw [hrelax]
  refine ⟨⟨?_, ?_⟩, ?_, ?_, ?_, ?_, ?_, rfl, ?_, ?_⟩
  · intro y hy
    by_cases hyx : y = x
    · simp [hyx]
    · simp only [Function.update_of_ne hyx] at hy ⊢
      exact h.ready.found y hy
  · intro y hy
    by_cases hyx : y = x
    · simp [hyx] at hy
    · simp only [Function.update_of_ne hyx] at hy ⊢
      exact h.ready.fresh y hy
  · intro y
    rw [List.mem_append, List.mem_append, h.mem, List.mem_singleton]
    constructor
    · rintro (hy | rfl)
      · exact ⟨Or.inl hy.1, hy.2⟩
      · exact ⟨Or.inr rfl, hxold⟩
    · rintro ⟨hy | rfl, hnone⟩
      · exact Or.inl ⟨hy, hnone⟩
      · exact Or.inr rfl
  · exact List.nodup_append'.2 ⟨h.nodup, List.nodup_singleton x, by simpa using hxnew⟩
  · intro y hy
    by_cases hyx : y = x
    · simp [hyx]
    · simp only [Function.update_of_ne hyx]
      exact h.dist_new y (by simpa [hyx] using hy)
  · intro y hy
    rw [List.mem_append, not_or, List.mem_singleton] at hy
    simp only [Function.update_of_ne hy.2]
    exact h.dist_old y hy.1
  · rw [h.queue, List.append_assoc]
  · intro y hy
    by_cases hyx : y = x
    · subst hyx
      simp [parents, hst.fresh y hxold, List.count_eq_zero.2 hxnot]
    · simp only [Function.update_of_ne hyx, parents] at hy ⊢
      rw [count_append_singleton_of_ne hyx]
      exact h.parents_eq y hy
  · intro y hy
    by_cases hyx : y = x
    · simp [hyx] at hy
    · simp only [Function.update_of_ne hyx] at hy ⊢
      exact h.parents_old y hy

/-- A neighbour with a distance adds nothing to the new ones. -/
lemma Relaxed.mem_again (h : Relaxed curr alt st xs st' new) {k : ℕ} (hx : st'.dist x = some k)
    (y : ℕ) : y ∈ new ↔ y ∈ xs ++ [x] ∧ st.dist y = none := by
  rw [h.mem, List.mem_append, List.mem_singleton]
  constructor
  · exact fun hy => ⟨Or.inl hy.1, hy.2⟩
  · rintro ⟨hy | rfl, hnone⟩
    · exact ⟨hy, hnone⟩
    · by_contra hnot
      rw [h.dist_old y fun hy => hnot ((h.mem y).1 hy), hnone] at hx
      cases hx

/-- A neighbour that was found at the same distance. -/
lemma Relaxed.again (h : Relaxed curr alt st xs st' new) (hx : st'.dist x = some alt) :
    Relaxed curr alt st (xs ++ [x]) (relax curr alt st' x) new := by
  obtain ⟨ps, hps⟩ := Option.isSome_iff_exists.1 (h.ready.found x hx)
  have hrelax : relax curr alt st' x = ⟨st'.dist,
      Function.update st'.prev x (some (ps ++ [curr])), st'.queue, none⟩ := by
    simp [relax, h.shortestLen, hx, hps]
  rw [hrelax]
  refine ⟨⟨?_, ?_⟩, h.mem_again hx, h.nodup, h.dist_new, h.dist_old, h.queue, rfl, ?_, ?_⟩
  · intro y hy
    by_cases hyx : y = x
    · simp [hyx]
    · simp only [Function.update_of_ne hyx]
      exact h.ready.found y hy
  · intro y hy
    have hyx : y ≠ x := by
      rintro rfl
      simp [hx] at hy
    simp only [Function.update_of_ne hyx]
    exact h.ready.fresh y hy
  · intro y hy
    have hold := h.parents_eq y hy
    by_cases hyx : y = x
    · subst hyx
      rw [parents, hps, Option.getD_some] at hold
      simp [parents, hold, List.replicate_succ']
    · simp only [parents, Function.update_of_ne hyx]
      rw [count_append_singleton_of_ne hyx]
      exact hold
  · intro y hy
    have hyx : y ≠ x := by
      rintro rfl
      exact hy hx
    simp only [Function.update_of_ne hyx]
    exact h.parents_old y hy

/-- A neighbour that was found at another distance. -/
lemma Relaxed.other (h : Relaxed curr alt st xs st' new) {k : ℕ} (hx : st'.dist x = some k)
    (hk : k ≠ alt) : Relaxed curr alt st (xs ++ [x]) (relax curr alt st' x) new := by
  have hrelax : relax curr alt st' x = st' := by
    simp [relax, h.shortestLen, hx, hk]
  rw [hrelax]
  refine { h with mem := h.mem_again hx, parents_eq := fun y hy => ?_ }
  have hyx : y ≠ x := by
    rintro rfl
    rw [hx] at hy
    exact hk (Option.some.inj hy)
  rw [count_append_singleton_of_ne hyx]
  exact h.parents_eq y hy

lemma exists_relaxed (curr : ℕ) (hst : Ready alt st) (hlen : st.shortestLen = none)
    (xs : List ℕ) : ∃ new, Relaxed curr alt st xs (xs.foldl (relax curr alt) st) new := by
  induction xs using List.reverseRecOn with
  | nil =>
    exact ⟨[], hst, by simp, List.nodup_nil, by simp, by simp, by simp, hlen, by simp, by simp⟩
  | append_singleton xs x ih =>
    obtain ⟨new, h⟩ := ih
    rw [List.foldl_append, List.foldl_cons, List.foldl_nil]
    cases hx : (xs.foldl (relax curr alt) st).dist x with
    | none => exact ⟨new ++ [x], h.fresh hst hx⟩
    | some k =>
      by_cases hk : k = alt
      · subst hk
        exact ⟨new, h.again hx⟩
      · exact ⟨new, h.other hx hk⟩

end Relax

/-! ### The loop -/

section Loop

variable {g : GraphView} {start stop curr d k : ℕ} {visited : Finset ℕ} {st : AllPaths}
variable {dist : ℕ → Option ℕ} {prev : ℕ → Option (List ℕ)} {queue : List ℕ}

/-- What the search keeps true of its state until the target is taken out of the queue. A node
appears among the parents of `y` as often as `y` is listed as its neighbour. -/
structure Inv (g : GraphView) (start stop : ℕ) (visited : Finset ℕ) (st : AllPaths) : Prop where
  search : Bfs.Search g.getNeighbors start st.dist st.queue
  shortestLen : st.shortestLen = none
  fresh : ∀ y, st.dist y = none → st.prev y = none
  parents : ∀ y j, st.dist y = some (j + 1) → ∃ ps, st.prev y = some ps ∧ ∀ u, ps.count u =
    if st.dist u = some j ∧ u ∉ st.queue then (g.getNeighbors u).count y else 0
  target : ∀ j, st.dist stop = some j → stop ∈ st.queue
  mem : ∀ x, x ∈ visited ↔ ∃ j, st.dist x = some j
  subset : visited ⊆ insert start g.nodes

/-- The nodes that are still to be taken out of the queue. -/
def left (g : GraphView) (start : ℕ) (visited : Finset ℕ) (queue : List ℕ) : ℕ :=
  queue.length + ((insert start g.nodes).card - visited.card)

lemma inv_init (g : GraphView) {start stop : ℕ} (hne : start ≠ stop) :
    Inv g start stop {start} (init start) := by
  have hdist : (init start).dist = fun x => if x = start then some 0 else none := by
    funext x
    simp [init, Function.update_apply]
  refine ⟨?_, rfl, fun _ _ => rfl, ?_, ?_, ?_, ?_⟩
  · rw [hdist]
    exact Bfs.Search.init g.getNeighbors start
  · intro y j hy
    rw [hdist] at hy
    simp at hy
  · intro j hj
    rw [hdist] at hj
    simp [hne.symm] at hj
  · intro x
    rw [hdist]
    by_cases hx : x = start <;> simp [hx]
  · exact Finset.singleton_subset_iff.2 (Finset.mem_insert_self _ _)

/-- The counts of the parents after a node was expanded. -/
lemma Inv.parents_expand (h : Inv g start stop visited ⟨dist, prev, curr :: queue, none⟩)
    (hd : dist curr = some d) {st' : AllPaths} {new : List ℕ}
    (hnew : Relaxed curr (d + 1) ⟨dist, prev, queue, none⟩ (g.getNeighbors curr) st' new)
    {y j : ℕ} (hy : st'.dist y = some (j + 1)) : ∃ ps, st'.prev y = some ps ∧ ∀ u, ps.count u =
      if st'.dist u = some j ∧ u ∉ st'.queue then (g.getNeighbors u).count y else 0 := by
  have hnone : ∀ u ∈ new, dist u = none := fun u hu => ((hnew.mem u).1 hu).2
  have hcurr : curr ∉ new := fun hmem => by
    rw [hnone curr hmem] at hd
    cases hd
  have hcurr' : curr ∉ queue := (List.nodup_cons.1 h.search.nodup).1
  -- the nodes at distance `j` that are expanded now
  have hdone : ∀ u, st'.dist u = some j ∧ u ∉ st'.queue ↔
      dist u = some j ∧ (u = curr ∨ u ∉ curr :: queue) := by
    intro u
    rw [hnew.queue]
    by_cases hu : u ∈ new
    · simp [hu, hnone u hu]
    · rw [hnew.dist_old u hu]
      by_cases huc : u = curr
      · subst huc
        simp [hcurr, hcurr']
      · simp [hu, huc]
  by_cases hj : j = d
  · subst hj
    obtain ⟨ps, hps⟩ := Option.isSome_iff_exists.1 (hnew.ready.found y hy)
    have hparents := hnew.parents_eq y hy
    rw [AllPaths.parents, hps, Option.getD_some] at hparents
    refine ⟨ps, hps, fun u => ?_⟩
    rw [hparents, List.count_append, List.count_replicate, if_congr (hdone u) rfl rfl]
    -- before, the nodes at this distance were those other than `curr`
    have hold : (AllPaths.parents ⟨dist, prev, queue, none⟩ y).count u =
        if dist u = some j ∧ u ∉ curr :: queue then (g.getNeighbors u).count y else 0 := by
      by_cases hynew : y ∈ new
      · have hynone := hnone y hynew
        rw [AllPaths.parents, h.fresh y hynone, Option.getD_none, List.count_nil, eq_comm,
          ite_eq_right_iff]
        rintro ⟨hu, hu'⟩
        refine List.count_eq_zero.2 fun hedge => ?_
        obtain ⟨i, -, hi⟩ := h.search.expanded u j hu hu' y hedge
        cases hynone.symm.trans hi
      · rw [hnew.dist_old y hynew] at hy
        obtain ⟨qs, hqs, hcount⟩ := h.parents y j hy
        have hparents' : AllPaths.parents ⟨dist, prev, queue, none⟩ y = qs := by
          rw [AllPaths.parents, ← Option.getD_some (a := qs) (b := []), ← hqs]
        rw [hparents']
        exact hcount u
    rw [hold]
    by_cases huc : u = curr
    · subst huc
      simp [hd]
    · simp [huc, Ne.symm huc]
  · have hne : st'.dist y ≠ some (d + 1) := by
      rw [hy]
      simpa using hj
    have hynew : y ∉ new := fun hmem => hne (hnew.dist_new y hmem)
    rw [hnew.dist_old y hynew] at hy
    obtain ⟨ps, hps, hcount⟩ := h.parents y j hy
    refine ⟨ps, (hnew.parents_old y hne).trans hps, fun u => (hcount u).trans ?_⟩
    refine if_congr ?_ rfl rfl
    rw [hdone u]
    refine and_congr_right fun hu => (or_iff_right ?_).symm
    rintro rfl
    exact hj (Option.some.inj (hd.symm.trans hu)).symm

/-- A node other than the target is expanded. -/
lemma Inv.expand (h : Inv g start stop visited ⟨dist, prev, curr :: queue, none⟩)
    (hd : dist curr = some d) (hne : curr ≠ stop) :
    ∃ visited', Inv g start stop visited'
        ((g.getNeighbors curr).foldl (relax curr (d + 1)) ⟨dist, prev, queue, none⟩) ∧
      left g start visited' ((g.getNeighbors curr).foldl (relax curr (d + 1))
          ⟨dist, prev, queue, none⟩).queue + 1 = left g start visited (curr :: queue) := by
  have hready : Ready (d + 1) ⟨dist, prev, queue, none⟩ := by
    refine ⟨fun y hy => ?_, h.fresh⟩
    obtain ⟨ps, hps, -⟩ := h.parents y d hy
    exact Option.isSome_iff_exists.2 ⟨ps, hps⟩
  obtain ⟨new, hnew⟩ := exists_relaxed curr hready rfl (g.getNeighbors curr)
  generalize (g.getNeighbors curr).foldl (relax curr (d + 1)) ⟨dist, prev, queue, none⟩ = st'
    at hnew ⊢
  have hsub : visited ∪ new.toFinset ⊆ insert start g.nodes := by
    refine Finset.union_subset h.subset fun y hy => Finset.mem_insert_of_mem ?_
    exact GraphView.Edge.target_mem ((hnew.mem y).1 (List.mem_toFinset.1 hy)).1
  refine ⟨visited ∪ new.toFinset, ⟨?_, hnew.shortestLen, hnew.ready.fresh,
    fun y j hy => h.parents_expand hd hnew hy, ?_, ?_, hsub⟩, ?_⟩
  · rw [hnew.queue]
    exact h.search.expand hd hnew.mem hnew.nodup hnew.dist_old hnew.dist_new
  · intro j hj
    rw [hnew.queue, List.mem_append]
    by_cases hstop : stop ∈ new
    · exact Or.inr hstop
    · rw [hnew.dist_old stop hstop] at hj
      rcases List.mem_cons.1 (h.target j hj) with heq | hmem
      · exact absurd heq.symm hne
      · exact Or.inl hmem
  · intro x
    rw [Finset.mem_union, List.mem_toFinset, h.mem]
    by_cases hx : x ∈ new
    · simp [hx, hnew.dist_new x hx]
    · rw [hnew.dist_old x hx]
      simp [hx]
  · have hcard : (visited ∪ new.toFinset).card = visited.card + new.length := by
      rw [Finset.card_union_of_disjoint, List.toFinset_card_of_nodup hnew.nodup]
      refine Finset.disjoint_left.2 fun y hy hy' => ?_
      obtain ⟨j, hj⟩ := (h.mem y).1 hy
      rw [((hnew.mem y).1 (List.mem_toFinset.1 hy')).2] at hj
      cases hj
    have hle := Finset.card_le_card hsub
    simp only [left, hnew.queue, List.length_append, List.length_cons]
    omega

/-- After the target was taken out of the queue, nothing is found any more. -/
lemma loop_drain (g : GraphView) {fuel : ℕ} (hstop : dist stop = some k)
    (hqueue : ∀ x ∈ queue, ∃ j, dist x = some j ∧ k ≤ j) (hfuel : queue.length < fuel) :
    loop g stop fuel ⟨dist, prev, queue, some k⟩ = some ⟨dist, prev, [], some k⟩ := by
  induction queue generalizing fuel with
  | nil =>
    obtain ⟨fuel, rfl⟩ : ∃ n, fuel = n + 1 := ⟨fuel - 1, by omega⟩
    rfl
  | cons curr queue ih =>
    obtain ⟨fuel, rfl⟩ : ∃ n, fuel = n + 1 := ⟨fuel - 1, by omega⟩
    obtain ⟨j, hj, hle⟩ := hqueue curr List.mem_cons_self
    have hrest := ih (fun x hx => hqueue x (List.mem_cons_of_mem curr hx))
      (show queue.length < fuel by simpa using hfuel)
    have hskip : ∀ xs : List ℕ, xs.foldl (relax curr (j + 1)) ⟨dist, prev, queue, some k⟩ =
        ⟨dist, prev, queue, some k⟩ := by
      intro xs
      induction xs with
      | nil => rfl
      | cons x xs ih =>
        rw [List.foldl_cons, relax, if_pos (by simpa using Nat.lt_succ_of_le hle), ih]
    rw [loop, hj, Option.bind_some]
    split_ifs with hfar hcurr
    · exact hrest
    · subst hcurr
      rw [hstop] at hj
      cases hj
      exact hrest
    · rw [hskip, hrest]

/-- What is known when the target was found at the distance `k`. -/
structure Complete (g : GraphView) (start : ℕ) (dist : ℕ → Option ℕ)
    (prev : ℕ → Option (List ℕ)) (k : ℕ) : Prop where
  origin : dist start = some 0
  within_iff : ∀ m ≤ k, ∀ x, Bfs.Within g.getNeighbors [start] m x ↔ ∃ j ≤ m, dist x = some j
  parents : ∀ y j, dist y = some (j + 1) → j < k → ∃ ps, prev y = some ps ∧
    ∀ u, ps.count u = if dist u = some j then (g.getNeighbors u).count y else 0

/-- The loop ends, with all parents on the shortest paths to the target if it can be reached. -/
lemma Inv.loop_spec {fuel : ℕ} (h : Inv g start stop visited st)
    (hfuel : left g start visited st.queue < fuel) :
    (∃ dist prev k, loop g stop fuel st = some ⟨dist, prev, [], some k⟩ ∧
        dist stop = some k ∧ Complete g start dist prev k) ∨
      (∃ dist prev, loop g stop fuel st = some ⟨dist, prev, [], none⟩) ∧
        ∀ m, ¬ Bfs.Within g.getNeighbors [start] m stop := by
  induction fuel generalizing visited st with
  | zero => omega
  | succ fuel ih =>
    obtain ⟨dist, prev, queue, shortestLen⟩ := st
    obtain rfl : shortestLen = none := h.shortestLen
    cases queue with
    | nil =>
      refine Or.inr ⟨⟨dist, prev, rfl⟩, fun m hm => ?_⟩
      obtain ⟨j, hj⟩ := h.search.exists_of_within hm
      exact absurd (h.target j hj) List.not_mem_nil
    | cons curr queue =>
      obtain ⟨d, hd⟩ := h.search.queued curr List.mem_cons_self
      rw [loop, show dist curr = some d from hd, Option.bind_some, Option.any_none]
      simp only [Bool.false_eq_true, if_false]
      by_cases hcurr : curr = stop
      · subst hcurr
        rw [if_pos rfl]
        refine Or.inl ⟨dist, prev, d, loop_drain g hd (fun x hx => ?_) ?_, hd,
          h.search.origin, fun m hm x => h.search.within_iff hd hm, fun y j hy hj => ?_⟩
        · obtain ⟨j, hj⟩ := h.search.queued x (List.mem_cons_of_mem curr hx)
          exact ⟨j, hj, h.search.le_of_mem hd (List.mem_cons_of_mem curr hx) hj⟩
        · simp only [left, List.length_cons] at hfuel
          omega
        · obtain ⟨ps, hps, hcount⟩ := h.parents y j hy
          refine ⟨ps, hps, fun u => (hcount u).trans (if_congr (and_iff_left_of_imp ?_) rfl rfl)⟩
          intro hu hmem
          have := h.search.le_of_mem hd hmem hu
          omega
      · rw [if_neg hcurr]
        obtain ⟨visited', hinv, hleft⟩ := h.expand hd hcurr
        exact ih hinv (by simp only at hfuel; omega)

end Loop

/-! ### The ways back -/

/-- The number of ways to choose the edges of a path. -/
def multiplicity (succ : ℕ → List ℕ) : List ℕ → ℕ
  | a :: b :: rest => (succ a).count b * multiplicity succ (b :: rest)
  | _ => 1

lemma multiplicity_concat (succ : ℕ → List ℕ) (q : List ℕ) (p u : ℕ) :
    multiplicity succ (q ++ [p] ++ [u]) =
      (succ p).count u * multiplicity succ (q ++ [p]) := by
  induction q with
  | nil => simp [multiplicity]
  | cons a q ih =>
    cases q with
    | nil =>
      simp only [List.cons_append, List.nil_append, multiplicity, Nat.mul_one]
      exact Nat.mul_comm _ _
    | cons b q =>
      simp only [List.cons_append, multiplicity] at ih ⊢
      rw [ih, Nat.mul_left_comm]

/-- If only the lists of `p` hold `r`, it occurs once for each `p`. -/
lemma count_flatMap_of_forall_ne {o : ℕ → List (List ℕ)} {r : List ℕ} {p : ℕ} (l : List ℕ)
    (h : ∀ x ∈ l, x ≠ p → r ∉ o x) : (l.flatMap o).count r = l.count p * (o p).count r := by
  induction l with
  | nil => simp
  | cons x l ih =>
    rw [List.flatMap_cons, List.count_append, ih fun y hy => h y (List.mem_cons_of_mem x hy),
      List.count_cons]
    by_cases hx : x = p
    · simp [hx, Nat.add_mul, Nat.add_comm]
    · simp [hx, List.count_eq_zero.2 (h x List.mem_cons_self hx)]

section Backtrack

variable {g : GraphView} {start stop k : ℕ} {dist : ℕ → Option ℕ} {prev : ℕ → Option (List ℕ)}

/-- The lists of ways back from `u` at the distance `j`. -/
structure WaysBack (g : GraphView) (start u j : ℕ) (rest : List ℕ) (out : List (List ℕ)) :
    Prop where
  sound : ∀ r ∈ out, ∃ q, r = q ++ u :: rest ∧
    Bfs.IsPath g.getNeighbors start u (q ++ [u]) ∧ q.length = j
  count : ∀ q, Bfs.IsPath g.getNeighbors start u (q ++ [u]) → q.length = j →
    out.count (q ++ u :: rest) = multiplicity g.getNeighbors (q ++ [u])

/-- A node before `u` on a shortest path has the distance before that of `u`. -/
lemma Complete.dist_pred (h : Complete g start dist prev k) {u p j : ℕ}
    (hu : dist u = some (j + 1)) (hj : j < k) (hedge : g.Edge p u)
    (hp : Bfs.Within g.getNeighbors [start] j p) : dist p = some j := by
  obtain ⟨i, hi, hdist⟩ := (h.within_iff j hj.le p).1 hp
  obtain hlt | rfl := Nat.lt_or_eq_of_le hi
  · have hwithin : Bfs.Within g.getNeighbors [start] (i + 1) u :=
      Or.inr ⟨p, (h.within_iff i (by omega) p).2 ⟨i, le_rfl, hdist⟩, hedge⟩
    obtain ⟨i', hi', hdist'⟩ := (h.within_iff (i + 1) (by omega) u).1 hwithin
    rw [hu] at hdist'
    cases hdist'
    omega
  · exact hdist

lemma Complete.exists_backtrack (h : Complete g start dist prev k) {u j fuel : ℕ}
    (hu : dist u = some j) (hj : j ≤ k) (hfuel : j < fuel) (rest : List ℕ) :
    ∃ out, backtrack prev start fuel u (u :: rest) = some out ∧ WaysBack g start u j rest out := by
  induction j generalizing u fuel rest with
  | zero =>
    obtain ⟨fuel, rfl⟩ : ∃ n, fuel = n + 1 := ⟨fuel - 1, by omega⟩
    obtain rfl : u = start :=
      List.mem_singleton.1 ((h.within_iff 0 (Nat.zero_le k) u).2 ⟨0, le_rfl, hu⟩)
    refine ⟨[u :: rest], by rw [backtrack, if_pos rfl], ⟨fun r hr => ?_, fun q _ hq => ?_⟩⟩
    · exact ⟨[], List.mem_singleton.1 hr, Bfs.isPath_singleton _ u, rfl⟩
    · obtain rfl := List.length_eq_zero_iff.1 hq
      simp [multiplicity]
  | succ j ih =>
    obtain ⟨fuel, rfl⟩ : ∃ n, fuel = n + 1 := ⟨fuel - 1, by omega⟩
    have hne : u ≠ start := by
      rintro rfl
      rw [h.origin] at hu
      cases hu
    obtain ⟨ps, hps, hcount⟩ := h.parents u j hu (by omega)
    -- the ways back from the parents, which are at the distance `j`
    have hdist : ∀ p ∈ ps, dist p = some j ∧ g.Edge p u := by
      intro p hp
      have hpos := List.count_pos_iff.2 hp
      rw [hcount p] at hpos
      split_ifs at hpos with hdist
      · exact ⟨hdist, List.count_pos_iff.1 hpos⟩
      · omega
    have hways : ∀ p, dist p = some j → ∃ out,
        backtrack prev start fuel p (p :: u :: rest) = some out ∧
          WaysBack g start p j (u :: rest) out :=
      fun p hp => ih hp (by omega) (by omega) (u :: rest)
    let o p := (backtrack prev start fuel p (p :: u :: rest)).getD []
    have ho : ∀ p, dist p = some j → backtrack prev start fuel p (p :: u :: rest) = some (o p) ∧
        WaysBack g start p j (u :: rest) (o p) := by
      intro p hp
      obtain ⟨out, hout, hway⟩ := hways p hp
      have heq : o p = out := by simp [o, hout]
      rw [heq]
      exact ⟨hout, hway⟩
    refine ⟨ps.flatMap o, ?_, ⟨fun r hr => ?_, fun q hq hlen => ?_⟩⟩
    · rw [backtrack, if_neg hne, hps]
      simp only
      rw [Failing.mapM_eq_some_map fun p hp => (ho p (hdist p hp).1).1, Option.map_some,
        List.flatMap_def]
    · obtain ⟨p, hp, hr⟩ := List.mem_flatMap.1 hr
      obtain ⟨q, rfl, hpath, hlen⟩ := (ho p (hdist p hp).1).2.sound r hr
      exact ⟨q ++ [p], by simp, hpath.concat (hdist p hp).2, by simp [hlen]⟩
    · obtain ⟨q, p, rfl⟩ : ∃ q' p, q = q' ++ [p] := by
        refine ⟨q.dropLast, q.getLast ?_, (List.dropLast_append_getLast _).symm⟩
        rintro rfl
        simp at hlen
      have hlen' : q.length = j := by simpa using hlen
      obtain ⟨-, p', hpath, hedge⟩ := (Bfs.isPath_concat_iff (by simp)).1 hq
      obtain rfl : p = p' := by simpa using hpath.last
      have hp : dist p = some j := h.dist_pred hu (by omega) hedge
        (hpath.within (List.mem_singleton_self start) (by simp [hlen']))
      have hlist : q ++ [p] ++ u :: rest = q ++ p :: u :: rest := by simp
      rw [hlist, count_flatMap_of_forall_ne ps ?_, hcount p, if_pos hp,
        (ho p hp).2.count q hpath hlen', multiplicity_concat]
      -- the ways back from another parent have that one in the place of `p`
      intro x hx hxp hmem
      obtain ⟨q', heq, -, hlen''⟩ := (ho x (hdist x hx).1).2.sound _ hmem
      obtain ⟨-, htail⟩ := List.append_inj heq (hlen'.trans hlen''.symm)
      exact hxp (List.cons.inj htail).1.symm

end Backtrack

/-- The paths are the shortest ones, each as often as its edges can be chosen. -/
lemma exists_paths (g : GraphView) (start stop : ℕ) :
    ∃ bound, ∀ fuel ≥ bound, ∃ ps, paths g fuel start stop = some ps ∧
      (∀ p ∈ ps, Bfs.IsShortest g.getNeighbors start stop p) ∧
        ∀ p, Bfs.IsShortest g.getNeighbors start stop p →
          ps.count p = multiplicity g.getNeighbors p := by
  by_cases hne : start = stop
  · subst hne
    have hself : Bfs.Within g.getNeighbors [start] 0 start := List.mem_singleton_self start
    refine ⟨0, fun fuel _ => ⟨[[start]], if_pos rfl, fun p hp => ?_, fun p hp => ?_⟩⟩
    · obtain rfl := List.mem_singleton.1 hp
      exact (Bfs.isPath_singleton _ start).isShortest (n := 0) rfl fun m hm => absurd hm (by omega)
    · obtain ⟨x, rfl⟩ := List.length_eq_one_iff.1
        (hp.length_eq hself fun m hm => absurd hm (by omega))
      obtain ⟨rfl, -⟩ := Bfs.isPath_singleton_iff.1 hp.toIsPath
      simp [multiplicity]
  obtain ⟨far, hfar⟩ := Bfs.exists_enough_steps g.getNeighbors [start] stop
  refine ⟨left g start {start} [start] + far + 1, fun fuel hfuel => ?_⟩
  rw [paths, if_neg hne]
  rcases (inv_init g hne).loop_spec (show left g start {start} [start] < fuel by omega) with
    ⟨dist, prev, k, hloop, hk, hcomplete⟩ | ⟨⟨dist, prev, hloop⟩, hnever⟩
  · have hreach : Bfs.Within g.getNeighbors [start] k stop :=
      (hcomplete.within_iff k le_rfl stop).2 ⟨k, le_rfl, hk⟩
    have hleast : ∀ m < k, ¬ Bfs.Within g.getNeighbors [start] m stop := by
      intro m hm hwithin
      obtain ⟨j, hj, hdist⟩ := (hcomplete.within_iff m hm.le stop).1 hwithin
      rw [hk] at hdist
      cases hdist
      omega
    have hle : k ≤ far := by
      by_contra hlt
      exact hleast far (by omega) (hfar k hreach)
    obtain ⟨out, hout, hways⟩ := hcomplete.exists_backtrack hk le_rfl (show k < fuel by omega) []
    refine ⟨out, ?_, fun p hp => ?_, fun p hp => ?_⟩
    · rw [hloop, Option.bind_some]
      exact hout
    · obtain ⟨q, rfl, hpath, hlen⟩ := hways.sound p hp
      exact hpath.isShortest (by simp [hlen]) hleast
    · obtain ⟨q, x, rfl⟩ : ∃ q x, p = q ++ [x] :=
        ⟨_, _, (List.dropLast_append_getLast hp.ne_nil).symm⟩
      obtain rfl : x = stop := by simpa using hp.last
      have hlen := hp.length_eq hreach hleast
      exact hways.count q hp.toIsPath (by simpa using hlen)
  · refine ⟨[], ?_, by simp, fun p hp => ?_⟩
    · rw [hloop]
      rfl
    · exact absurd (hp.toIsPath.within (List.mem_singleton_self start) (Nat.le_succ _)) (hnever _)

/-- Every shortest path is listed once, and nothing else. -/
def ListsOnce (g : GraphView) (start stop : ℕ) : Prop :=
  ∃ bound, ∀ fuel ≥ bound, ∃ result, evaluate g fuel (some start) (some stop) = some result ∧
    (result.getD []).Nodup ∧
      ∀ p, p ∈ result.getD [] ↔ Bfs.IsShortest g.getNeighbors start stop p

/-- No edge of a shortest path is listed twice among the neighbours of its source. -/
def EdgesOnce (g : GraphView) (start stop : ℕ) : Prop :=
  ∀ p, Bfs.IsShortest g.getNeighbors start stop p →
    ∀ e ∈ p.zip p.tail, (g.getNeighbors e.1).count e.2 ≤ 1

lemma multiplicity_pos {succ : ℕ → List ℕ} {p : List ℕ} (h : p.IsChain fun a b => b ∈ succ a) :
    0 < multiplicity succ p := by
  induction h with
  | nil => exact Nat.one_pos
  | singleton a => exact Nat.one_pos
  | cons_cons hab _ ih => exact Nat.mul_pos (List.count_pos_iff.2 hab) ih

lemma multiplicity_le_one_iff {succ : ℕ → List ℕ} {p : List ℕ}
    (h : p.IsChain fun a b => b ∈ succ a) :
    multiplicity succ p ≤ 1 ↔ ∀ e ∈ p.zip p.tail, (succ e.1).count e.2 ≤ 1 := by
  induction h with
  | nil => simp [multiplicity]
  | singleton a => simp [multiplicity]
  | @cons_cons a b l hab hl ih =>
    have hpos := multiplicity_pos hl
    have hcount := List.count_pos_iff.2 hab
    have hsplit : (succ a).count b * multiplicity succ (b :: l) ≤ 1 ↔
        (succ a).count b ≤ 1 ∧ multiplicity succ (b :: l) ≤ 1 := by
      constructor
      · intro hle
        exact ⟨(Nat.le_mul_of_pos_right _ hpos).trans hle,
          (Nat.le_mul_of_pos_left _ hcount).trans hle⟩
      · exact fun ⟨hone, hone'⟩ => Nat.mul_le_mul hone hone'
    rw [multiplicity, hsplit, ih]
    simp

/-- The result holds the shortest paths, each as often as its edges can be chosen. -/
lemma exists_evaluate (g : GraphView) (start stop : ℕ) :
    ∃ bound, ∀ fuel ≥ bound, ∃ result, evaluate g fuel (some start) (some stop) = some result ∧
      (∀ p, p ∈ result.getD [] ↔ Bfs.IsShortest g.getNeighbors start stop p) ∧
        ∀ p, Bfs.IsShortest g.getNeighbors start stop p →
          (result.getD []).count p = multiplicity g.getNeighbors p := by
  obtain ⟨bound, hbound⟩ := exists_paths g start stop
  refine ⟨bound, fun fuel hfuel => ?_⟩
  obtain ⟨ps, hps, hsound, hcount⟩ := hbound fuel hfuel
  have hresult : (if ps.isEmpty then none else some ps : Option _).getD [] = ps := by
    cases ps <;> rfl
  refine ⟨_, by rw [evaluate, hps, Option.map_some], ?_, ?_⟩
  · intro p
    rw [hresult]
    refine ⟨hsound p, fun hp => List.count_pos_iff.1 ?_⟩
    rw [hcount p hp]
    exact multiplicity_pos hp.chain
  · rwa [hresult]

/-- The aggregate lists the shortest paths once exactly if their edges are listed once. -/
theorem listsOnce_iff (g : GraphView) (start stop : ℕ) :
    ListsOnce g start stop ↔ EdgesOnce g start stop := by
  obtain ⟨bound, hbound⟩ := exists_evaluate g start stop
  constructor
  · rintro ⟨bound', hbound'⟩ p hp
    obtain ⟨result, hresult, -, hcount⟩ := hbound (max bound bound') (le_max_left _ _)
    obtain ⟨result', hresult', hnodup, -⟩ := hbound' (max bound bound') (le_max_right _ _)
    obtain rfl := Option.some.inj (hresult.symm.trans hresult')
    rw [← multiplicity_le_one_iff hp.chain, ← hcount p hp]
    exact List.nodup_iff_count_le_one.1 hnodup p
  · intro honce
    refine ⟨bound, fun fuel hfuel => ?_⟩
    obtain ⟨result, hresult, hmem, hcount⟩ := hbound fuel hfuel
    refine ⟨result, hresult, List.nodup_iff_count_le_one.2 fun p => ?_, hmem⟩
    by_cases hp : p ∈ result.getD []
    · have hshort := (hmem p).1 hp
      rw [hcount p hshort, multiplicity_le_one_iff hshort.chain]
      exact honce p hshort
    · rw [List.count_eq_zero.2 hp]
      exact Nat.zero_le 1

/-! ### An edge in two segments -/

lemma sorted_oneEdge : [1, 2].Pairwise (· < ·) := by decide

lemma edges_lt_oneEdge : ∀ target ∈ [1], target < [1, 2].length := by decide

/-- The graph of a segment with the edge from 1 to 2. -/
def oneEdge : CsrGraph where
  offsets := [0, 1, 1]
  edges := [1]
  dict := [1, 2]
  sorted := sorted_oneEdge
  edges_lt := edges_lt_oneEdge

/-- The path is listed twice if two segments have its edge. -/
theorem not_listsOnce_oneEdge : ¬ ListsOnce (MultiGraph.view [oneEdge, oneEdge]) 1 2 := by
  rintro ⟨bound, hbound⟩
  obtain ⟨bound', hbound'⟩ := exists_evaluate (MultiGraph.view [oneEdge, oneEdge]) 1 2
  obtain ⟨result, hresult, hnodup, -⟩ := hbound (max bound bound') (le_max_left _ _)
  obtain ⟨result', hresult', -, hcount⟩ := hbound' (max bound bound') (le_max_right _ _)
  obtain rfl := Option.some.inj (hresult.symm.trans hresult')
  have hpath : Bfs.IsPath (MultiGraph.view [oneEdge, oneEdge]).getNeighbors 1 2 [1, 2] :=
    (Bfs.isPath_singleton _ 1).concat (by decide)
  have hshort := hpath.isShortest (n := 1) rfl fun m hm hwithin => by
    obtain rfl : m = 0 := by omega
    cases List.mem_singleton.1 hwithin
  have htwice : multiplicity (MultiGraph.view [oneEdge, oneEdge]).getNeighbors [1, 2] = 2 := by
    decide
  have hle := List.nodup_iff_count_le_one.1 hnodup [1, 2]
  rw [hcount _ hshort, htwice] at hle
  omega

end AllPaths

end BenoStreamDB

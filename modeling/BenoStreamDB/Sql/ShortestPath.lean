import BenoStreamDB.Sql.GraphView

/-!
# The `shortest_path` aggregate

`evaluate` of `sql/graph_udf/shortest_path.rs`: a search with a queue that keeps the node from
which each node was found, and the way back from the target. The result is NULL exactly if the
target cannot be reached, and else a shortest path: `shortestPathEvaluate_spec`.
-/

namespace BenoStreamDB

/-- The state of the search. -/
structure PathSearch where
  visited : Finset ℕ
  /-- `prev`, with the node from which each node but the first was found. -/
  prev : List (ℕ × ℕ)
  queue : List ℕ

namespace PathSearch

/-- A neighbour of `curr` is found. -/
def visit (curr : ℕ) (st : PathSearch) (n : ℕ) : PathSearch :=
  if n ∈ st.visited then st else ⟨insert n st.visited, (n, curr) :: st.prev, st.queue ++ [n]⟩

/-- The loop of the search: whether `stop` was found, and `prev`. Without fuel it gives `none`. -/
def loop (g : GraphView) (stop : ℕ) : ℕ → PathSearch → Option (Bool × List (ℕ × ℕ))
  | 0, _ => none
  | _ + 1, ⟨_, prev, []⟩ => some (false, prev)
  | fuel + 1, ⟨visited, prev, curr :: queue⟩ =>
    if curr = stop then some (true, prev)
    else loop g stop fuel ((g.getNeighbors curr).foldl (visit curr) ⟨visited, prev, queue⟩)

end PathSearch

/-- The way back from `curr`; the path is kept in its final order. -/
def walkBack (prev : List (ℕ × ℕ)) (start : ℕ) :
    ℕ → ℕ → List ℕ → Option (Except String (List ℕ))
  | 0, _, _ => none
  | fuel + 1, curr, path =>
    if curr = start then some (.ok path)
    else
      match prev.lookup curr with
      | some p => walkBack prev start fuel p (p :: path)
      | none => some (.error "shortest_path: broken predecessor chain")

/-- `evaluate`, with `none` for NULL in the result. The outer `none` is for fuel used up. -/
def shortestPathEvaluate (g : GraphView) (fuel : ℕ) :
    Option ℕ → Option ℕ → Option (Except String (Option (List ℕ)))
  | some start, some stop =>
    if start = stop then some (.ok (some [start]))
    else
      match PathSearch.loop g stop fuel ⟨{start}, [], [start]⟩ with
      | some (true, prev) => (walkBack prev start fuel stop [stop]).map fun path => path.map some
      | some (false, _) => some (.ok none)
      | none => none
  | _, _ => some (.ok none)

namespace PathSearch

variable {g : GraphView} {start stop curr : ℕ} {dist : ℕ → Option ℕ} {st : PathSearch}

/-! ### One node -/

/-- The visited nodes and the queue are those of a search that does not keep `prev`. -/
lemma visited_queue_foldl_visit (curr : ℕ) (xs : List ℕ) (st : PathSearch) :
    ((xs.foldl (visit curr) st).visited, (xs.foldl (visit curr) st).queue) =
      xs.foldl (Bfs.visit {}) (st.visited, st.queue) := by
  induction xs generalizing st with
  | nil => rfl
  | cons x xs ih =>
    rw [List.foldl_cons, List.foldl_cons, ih, Bfs.visit_eq, visit]
    split_ifs <;> rfl

lemma lookup_prev_foldl_visit (curr : ℕ) (xs : List ℕ) (st : PathSearch) (y : ℕ) :
    (xs.foldl (visit curr) st).prev.lookup y =
      if y ∈ xs ∧ y ∉ st.visited then some curr else st.prev.lookup y := by
  induction xs generalizing st with
  | nil => simp
  | cons x xs ih =>
    rw [List.foldl_cons, ih, visit]
    by_cases hx : x ∈ st.visited
    · rw [if_pos hx]
      refine if_congr ?_ rfl rfl
      rw [List.mem_cons]
      refine and_congr_left fun hy => ⟨Or.inr, ?_⟩
      rintro (rfl | h)
      · exact absurd hx hy
      · exact h
    · rw [if_neg hx]
      by_cases hyx : y = x
      · subst hyx
        simp [hx]
      · have hne : (y == x) = false := beq_eq_false_iff_ne.2 hyx
        simp [hyx, List.lookup_cons, hne]

/-- What the search keeps true of its state, with the distances of the visited nodes. -/
structure Inv (g : GraphView) (start stop : ℕ) (dist : ℕ → Option ℕ) (st : PathSearch) :
    Prop where
  search : Bfs.Search g.getNeighbors start dist st.queue
  visited : ∀ x, x ∈ st.visited ↔ ∃ k, dist x = some k
  /-- Every node but the first was found by an edge from a node that is one edge nearer. -/
  parents : ∀ x k, dist x = some k → (k = 0 ∧ x = start) ∨
    ∃ p j, k = j + 1 ∧ st.prev.lookup x = some p ∧ dist p = some j ∧ g.Edge p x
  target : stop ∈ st.visited → stop ∈ st.queue
  subset : st.visited ⊆ insert start g.nodes

/-- The nodes that are still to be taken out of the queue. -/
def left (g : GraphView) (start : ℕ) (st : PathSearch) : ℕ :=
  st.queue.length + ((insert start g.nodes).card - st.visited.card)

lemma inv_init (g : GraphView) {start stop : ℕ} (hne : start ≠ stop) :
    Inv g start stop (fun x => if x = start then some 0 else none) ⟨{start}, [], [start]⟩ where
  search := Bfs.Search.init g.getNeighbors start
  visited x := by
    by_cases hx : x = start <;> simp [hx]
  parents x k hk := by
    split_ifs at hk with hx
    cases hk
    exact Or.inl ⟨rfl, hx⟩
  target h := absurd (Finset.mem_singleton.1 h).symm hne
  subset := Finset.singleton_subset_iff.2 (Finset.mem_insert_self _ _)

/-- A node other than the target is expanded. -/
lemma Inv.expand {visited : Finset ℕ} {prev : List (ℕ × ℕ)} {queue : List ℕ}
    (h : Inv g start stop dist ⟨visited, prev, curr :: queue⟩) (hne : curr ≠ stop) :
    ∃ dist', Inv g start stop dist'
        ((g.getNeighbors curr).foldl (visit curr) ⟨visited, prev, queue⟩) ∧
      left g start ((g.getNeighbors curr).foldl (visit curr) ⟨visited, prev, queue⟩) + 1 =
        left g start ⟨visited, prev, curr :: queue⟩ := by
  obtain ⟨k, hk⟩ := h.search.queued curr List.mem_cons_self
  obtain ⟨new, hnew⟩ := Bfs.exists_adds visited (g.getNeighbors curr)
  have hpair := visited_queue_foldl_visit curr (g.getNeighbors curr) ⟨visited, prev, queue⟩
  rw [(hnew queue).result] at hpair
  obtain ⟨hvisited, hqueue⟩ := Prod.ext_iff.1 hpair
  have hprev := lookup_prev_foldl_visit curr (g.getNeighbors curr) ⟨visited, prev, queue⟩
  simp only at hvisited hqueue hprev
  generalize (g.getNeighbors curr).foldl (visit curr) ⟨visited, prev, queue⟩ = st'
    at hvisited hqueue hprev ⊢
  have hmem : ∀ y, y ∈ new ↔ y ∈ g.getNeighbors curr ∧ dist y = none := by
    intro y
    have hy : y ∉ visited ↔ dist y = none := by
      rw [h.visited, ← Option.isSome_iff_exists, Option.not_isSome_iff_eq_none]
    rw [(hnew []).mem, hy]
  have hsub : st'.visited ⊆ insert start g.nodes := by
    rw [hvisited]
    refine Finset.union_subset h.subset fun y hy => ?_
    exact Finset.mem_insert_of_mem
      (GraphView.Edge.target_mem ((hmem y).1 (List.mem_toFinset.1 hy)).1)
  refine ⟨fun y => if y ∈ new then some (k + 1) else dist y, ⟨?_, ?_, ?_, ?_, hsub⟩, ?_⟩
  · rw [hqueue]
    exact h.search.expand hk hmem (hnew []).nodup (fun y hy => if_neg hy) fun y hy => if_pos hy
  · intro x
    rw [hvisited, Finset.mem_union, h.visited, List.mem_toFinset]
    by_cases hx : x ∈ new <;> simp [hx]
  · intro x j hj
    rw [hprev x]
    by_cases hx : x ∈ new
    · rw [if_pos hx] at hj
      cases hj
      have hcurr : curr ∉ new := fun hcurr => by
        rw [((hmem curr).1 hcurr).2] at hk
        cases hk
      exact Or.inr ⟨curr, k, rfl, if_pos (((hnew []).mem x).1 hx), by rw [if_neg hcurr, hk],
        ((hmem x).1 hx).1⟩
    · rw [if_neg hx] at hj
      rcases h.parents x j hj with hstart | ⟨p, i, rfl, hp, hi, hedge⟩
      · exact Or.inl hstart
      · have hp' : p ∉ new := fun hp' => by
          rw [((hmem p).1 hp').2] at hi
          cases hi
        refine Or.inr ⟨p, i, rfl, ?_, by rw [if_neg hp', hi], hedge⟩
        rw [if_neg fun hx' => hx (((hnew []).mem x).2 hx'), hp]
  · intro hstop
    rw [hvisited, Finset.mem_union, List.mem_toFinset] at hstop
    rw [hqueue, List.mem_append]
    refine hstop.imp_left fun hold => ?_
    rcases List.mem_cons.1 (h.target hold) with heq | hmem'
    · exact absurd heq.symm hne
    · exact hmem'
  · have hcard := (hnew []).card
    have hle := Finset.card_le_card hsub
    rw [hvisited] at hle
    simp only [left, hvisited, hqueue, List.length_append, List.length_cons]
    omega

/-! ### The loop -/

/-- The loop ends, with the parents on a shortest path to the target if it can be reached. -/
lemma Inv.loop_spec {fuel : ℕ} (h : Inv g start stop dist st) (hfuel : left g start st < fuel) :
    (∃ prev dist' k, loop g stop fuel st = some (true, prev) ∧
        (∃ st', Inv g start stop dist' st' ∧ st'.prev = prev) ∧ dist' stop = some k ∧
          ∀ m < k, ¬ Bfs.Within g.getNeighbors [start] m stop) ∨
      (∃ prev, loop g stop fuel st = some (false, prev)) ∧
        ∀ m, ¬ Bfs.Within g.getNeighbors [start] m stop := by
  induction fuel generalizing dist st with
  | zero => omega
  | succ fuel ih =>
    obtain ⟨visited, prev, queue⟩ := st
    cases queue with
    | nil =>
      refine Or.inr ⟨⟨prev, rfl⟩, fun m hm => ?_⟩
      exact absurd (h.target ((h.visited stop).2 (h.search.exists_of_within hm))) List.not_mem_nil
    | cons curr queue =>
      rw [loop]
      by_cases hcurr : curr = stop
      · subst hcurr
        obtain ⟨k, hk⟩ := h.search.queued curr List.mem_cons_self
        refine Or.inl ⟨prev, dist, k, if_pos rfl, ⟨_, h, rfl⟩, hk, fun m hm hwithin => ?_⟩
        obtain ⟨j, hj, hdist⟩ := (h.search.within_iff hk hm.le).1 hwithin
        rw [hk] at hdist
        cases hdist
        omega
      · rw [if_neg hcurr]
        obtain ⟨dist', hinv, hleft⟩ := h.expand hcurr
        exact ih hinv (by omega)

/-- The way back from a node is a path as long as its distance. -/
lemma Inv.walkBack_spec (h : Inv g start stop dist st) {x k : ℕ} (hx : dist x = some k)
    {fuel : ℕ} (hfuel : k < fuel) (path : List ℕ) :
    ∃ q, walkBack st.prev start fuel x (x :: path) = some (.ok (q ++ x :: path)) ∧
      Bfs.IsPath g.getNeighbors start x (q ++ [x]) ∧ (q ++ [x]).length = k + 1 := by
  induction k generalizing x fuel path with
  | zero =>
    obtain ⟨fuel, rfl⟩ : ∃ n, fuel = n + 1 := ⟨fuel - 1, by omega⟩
    obtain rfl : x = start := by
      rcases h.parents x 0 hx with ⟨-, hx⟩ | ⟨p, j, hj, -⟩
      · exact hx
      · omega
    exact ⟨[], by rw [walkBack, if_pos rfl]; rfl, Bfs.isPath_singleton _ x, rfl⟩
  | succ k ih =>
    obtain ⟨fuel, rfl⟩ : ∃ n, fuel = n + 1 := ⟨fuel - 1, by omega⟩
    have hne : x ≠ start := by
      rintro rfl
      rw [h.search.origin] at hx
      cases hx
    rcases h.parents x (k + 1) hx with ⟨hzero, -⟩ | ⟨p, j, hj, hp, hdist, hedge⟩
    · omega
    · obtain rfl : k = j := by omega
      obtain ⟨q, hq, hpath, hlen⟩ := ih hdist (show k < fuel by omega) (x :: path)
      refine ⟨q ++ [p], ?_, hpath.concat hedge, ?_⟩
      · rw [walkBack, if_neg hne, hp]
        simp only
        rw [hq, List.append_assoc]
        rfl
      · rw [List.length_append, hlen, List.length_singleton]

end PathSearch

/-- The aggregate gives NULL exactly if the target cannot be reached, and else a shortest path. -/
theorem shortestPathEvaluate_spec (g : GraphView) (start stop : ℕ) :
    ∃ bound, ∀ fuel ≥ bound, ∃ path,
      shortestPathEvaluate g fuel (some start) (some stop) = some (.ok path) ∧
        (path = none ↔ ¬ Relation.ReflTransGen g.Edge start stop) ∧
          ∀ p ∈ path, Bfs.IsShortest g.getNeighbors start stop p := by
  by_cases hne : start = stop
  · subst hne
    refine ⟨0, fun fuel _ => ⟨some [start], if_pos rfl, ?_, ?_⟩⟩
    · exact iff_of_false (Option.some_ne_none _) (not_not.2 .refl)
    · rintro p ⟨⟩
      exact (Bfs.isPath_singleton _ start).isShortest (n := 0) rfl fun m hm => absurd hm (by omega)
  -- the distance of the target bounds the way back
  obtain ⟨far, hfar⟩ := Bfs.exists_enough_steps g.getNeighbors [start] stop
  have hinit := PathSearch.inv_init g hne
  refine ⟨PathSearch.left g start ⟨{start}, [], [start]⟩ + far + 1, fun fuel hfuel => ?_⟩
  rw [shortestPathEvaluate, if_neg hne]
  rcases hinit.loop_spec (show _ < fuel by omega) with
    ⟨prev, dist, k, hloop, ⟨st, hinv, rfl⟩, hk, hleast⟩ | ⟨⟨prev, hloop⟩, hnever⟩
  · have hreach := hinv.search.sound stop k hk
    have hle : k ≤ far := by
      by_contra hlt
      exact hleast far (by omega) (hfar k hreach)
    obtain ⟨q, hq, hpath, hlen⟩ := hinv.walkBack_spec hk (show k < fuel by omega) []
    refine ⟨some (q ++ [stop]), ?_, ?_, ?_⟩
    · rw [hloop]
      simp only
      rw [hq]
      rfl
    · refine iff_of_false (Option.some_ne_none _) (not_not.2 ?_)
      exact Bfs.reflTransGen_iff_exists_within.2 ⟨k, hreach⟩
    · rintro p ⟨⟩
      exact hpath.isShortest hlen hleast
  · refine ⟨none, by rw [hloop], ?_, by simp⟩
    refine iff_of_true rfl fun hreach => ?_
    obtain ⟨n, hn⟩ := Bfs.reflTransGen_iff_exists_within.1 hreach
    exact hnever n hn

end BenoStreamDB

import BenoStreamDB.Sql.GraphView

/-!
# Neighbourhoods by three searches

`bfs_visited` of `algorithms/frontier.rs` keeps the visited nodes and the frontier in tables, the
`subgraph` aggregate searches with a queue in memory, and `csr_bfs_visited` of `table/graph.rs`
searches the graph indexes. All three find the nodes at the end of a path of at most `hops` edges
from a seed: `visited_eq_ball`.

Writing the tables to files is left out; their rows are in no particular order.
-/

namespace BenoStreamDB

/-- The nodes at most `hops` edges away from a seed. -/
def ball (directed : Bool) (edges : List (ℕ × ℕ)) (seeds : List ℕ) (hops : ℕ) : Set ℕ :=
  {x | ∃ s ∈ seeds, ∃ p, Bfs.IsPath (adjacency directed edges) s x p ∧ p.length ≤ hops + 1}

/-! ### Tables -/

/-- The working adjacency: each edge once, for an undirected search in both directions. -/
def bfsAdj (directed : Bool) (edges : List (ℕ × ℕ)) : List (ℕ × ℕ) :=
  if directed then edges.dedup else (edges ++ edges.map Prod.swap).dedup

/-- `adj a JOIN frontier f ON a.src = f.id` without the rows of `visited`. -/
def bfsNew (adj : List (ℕ × ℕ)) (visited frontier : List ℕ) : List ℕ :=
  let joined := adj.flatMap fun a => (frontier.filter fun f => a.1 == f).map fun _ => a.2
  (joined.filter fun id => !visited.contains id).dedup

def bfsHops (adj : List (ℕ × ℕ)) : ℕ → List ℕ → List ℕ → List ℕ
  | 0, visited, _ => visited
  | hops + 1, visited, frontier =>
    let next := bfsNew adj visited frontier
    if next.length = 0 then visited else bfsHops adj hops (visited ++ next).dedup next

/-- `bfs_visited` -/
def bfsVisited (edges : List (ℕ × ℕ)) (seeds : List ℕ) (hops : ℕ) (directed : Bool) : List ℕ :=
  if seeds.isEmpty then []
  else
    ((bfsHops (bfsAdj directed edges) hops seeds.dedup seeds.dedup).insertionSort (· ≤ ·)).dedup

lemma mem_bfsAdj {directed : Bool} {edges : List (ℕ × ℕ)} {u v : ℕ} :
    (u, v) ∈ bfsAdj directed edges ↔ v ∈ adjacency directed edges u := by
  rw [mem_adjacency, GraphTable.Joined, bfsAdj]
  cases directed with
  | true => simp
  | false => simp

lemma mem_bfsNew {directed : Bool} {edges : List (ℕ × ℕ)} {visited frontier : List ℕ} {y : ℕ} :
    y ∈ bfsNew (bfsAdj directed edges) visited frontier ↔
      y ∈ frontier.flatMap (adjacency directed edges) ∧ y ∉ visited.toFinset := by
  simp only [bfsNew, List.mem_dedup, List.mem_filter, List.mem_flatMap, List.mem_map,
    Bool.not_eq_true', List.contains_eq_mem, decide_eq_false_iff_not, List.mem_toFinset]
  refine and_congr_left fun _ => ?_
  constructor
  · rintro ⟨⟨u, v⟩, he, f, ⟨hf, hu⟩, rfl⟩
    obtain rfl : u = f := by simpa using hu
    exact ⟨u, hf, mem_bfsAdj.1 he⟩
  · rintro ⟨u, hu, hy⟩
    exact ⟨(u, y), mem_bfsAdj.2 hy, u, ⟨hu, by simp⟩, rfl⟩

/-- The hops that are left, from the tables after `n` of them. -/
lemma mem_bfsHops {directed : Bool} {edges : List (ℕ × ℕ)} {seeds visited frontier : List ℕ}
    {n : ℕ} (h : Bfs.Layer (adjacency directed edges) seeds n visited.toFinset frontier) (hops : ℕ)
    (x : ℕ) : x ∈ bfsHops (bfsAdj directed edges) hops visited frontier ↔
      Bfs.Within (adjacency directed edges) seeds (n + hops) x := by
  induction hops generalizing n visited frontier with
  | zero => rw [bfsHops, Nat.add_zero, ← h.mem, List.mem_toFinset]
  | succ hops ih =>
    have hstep := h.step fun y => mem_bfsNew
    have hsteps : n + (hops + 1) = n + 1 + hops := by omega
    rw [bfsHops, hsteps]
    split_ifs with hempty
    · rw [List.length_eq_zero_iff.1 hempty, List.toFinset_nil, Finset.union_empty] at hstep
      rw [hstep.within_add, List.mem_toFinset]
    · refine ih ?_
      convert hstep using 1
      ext y
      simp

lemma mem_bfsVisited {edges : List (ℕ × ℕ)} {seeds : List ℕ} {hops : ℕ} {directed : Bool} {x : ℕ} :
    x ∈ bfsVisited edges seeds hops directed ↔
      Bfs.Within (adjacency directed edges) seeds hops x := by
  rw [bfsVisited]
  split_ifs with hempty
  · obtain rfl := List.isEmpty_iff.1 hempty
    rw [Bfs.within_iff_exists_isPath]
    simp
  · have hlayer : Bfs.Layer (adjacency directed edges) seeds 0 seeds.dedup.toFinset seeds.dedup :=
      Bfs.layer_zero (by simp) (by simp)
    rw [List.mem_dedup, List.mem_insertionSort, mem_bfsHops hlayer, Nat.zero_add]

/-! ### The aggregate in memory -/

/-- The search of the `subgraph` aggregate; `none` if the fuel is used up. -/
def expandSeeds (g : GraphView) (hops : ℕ) : ℕ → Finset ℕ → List (ℕ × ℕ) → Option (Finset ℕ)
  | 0, _, _ => none
  | _ + 1, visited, [] => some visited
  | fuel + 1, visited, (curr, dist) :: q =>
    if dist < hops then
      let st := (g.getNeighbors curr).foldl (Bfs.visit {}) (visited, [])
      expandSeeds g hops fuel st.1 (q ++ st.2.map fun n => (n, dist + 1))
    else expandSeeds g hops fuel visited q

/-- The graph of the `subgraph` aggregate over aggregated edges. -/
def subgraphGraph (edges : List (ℕ × ℕ)) (directed : Bool) : SimpleGraph :=
  if directed then SimpleGraph.fromDirectedEdges edges else SimpleGraph.fromUndirectedEdges edges

/-- The visited nodes of the `subgraph` aggregate. -/
def subgraphVisited (edges : List (ℕ × ℕ)) (seeds : List ℕ) (hops : ℕ) (directed : Bool)
    (fuel : ℕ) : Option (Finset ℕ) :=
  expandSeeds (subgraphGraph edges directed).view hops fuel seeds.toFinset
    (seeds.map fun s => (s, 0))

lemma mem_getNeighbors_subgraphGraph {edges : List (ℕ × ℕ)} {directed : Bool} {u v : ℕ} :
    v ∈ (subgraphGraph edges directed).getNeighbors u ↔ v ∈ adjacency directed edges u := by
  rw [mem_adjacency, GraphTable.Joined, subgraphGraph]
  cases directed with
  | true => simpa using SimpleGraph.mem_getNeighbors_directed
  | false => simpa using SimpleGraph.mem_getNeighbors_undirected

/-- With enough fuel the queue is emptied. -/
lemma expandSeeds_eq (g : GraphView) (hops : ℕ) {nodes : Finset ℕ}
    (hclosed : ∀ x, ∀ y ∈ g.getNeighbors x, y ∈ nodes) {fuel : ℕ} {visited : Finset ℕ}
    {q : List (ℕ × ℕ)} (hvisited : visited ⊆ nodes)
    (hfuel : q.length + (nodes.card - visited.card) < fuel) :
    expandSeeds g hops fuel visited q =
      some (Bfs.queueLoop {} g.getNeighbors (fun _ => 0) hops fuel visited q) := by
  induction fuel generalizing visited q with
  | zero => omega
  | succ fuel ih =>
    cases q with
    | nil => rfl
    | cons e q =>
      obtain ⟨curr, dist⟩ := e
      obtain ⟨new, hnew⟩ := Bfs.exists_adds visited (g.getNeighbors curr)
      rw [List.length_cons] at hfuel
      rw [expandSeeds, Bfs.queueLoop, Bfs.expand_eq]
      simp only [Bfs.Caps.exhausted, Option.any_none, Bool.false_eq_true, if_false]
      by_cases hdist : dist < hops
      · rw [if_pos hdist, if_neg (Nat.not_le.2 hdist), (hnew []).result, List.nil_append]
        have hsub : visited ∪ new.toFinset ⊆ nodes := by
          refine Finset.union_subset hvisited fun y hy => ?_
          exact hclosed curr y (((hnew []).mem y).1 (List.mem_toFinset.1 hy)).1
        have hcard := (hnew []).card
        have hle := Finset.card_le_card hsub
        refine ih hsub ?_
        simp only [List.length_append, List.length_map]
        omega
      · rw [if_neg hdist, if_pos (Nat.not_lt.1 hdist)]
        exact ih hvisited (by omega)

lemma exists_subgraphVisited (edges : List (ℕ × ℕ)) (seeds : List ℕ) (hops : ℕ)
    (directed : Bool) : ∃ bound, ∀ fuel ≥ bound, ∃ visited,
      subgraphVisited edges seeds hops directed fuel = some visited ∧
        ∀ x, x ∈ visited ↔ Bfs.Within (adjacency directed edges) seeds hops x := by
  let g := (subgraphGraph edges directed).view
  let nodes := g.nodes ∪ seeds.toFinset
  have hclosed : ∀ x, ∀ y ∈ g.getNeighbors x, y ∈ nodes := fun x y hy =>
    Finset.mem_union_left _ (GraphView.Edge.target_mem hy)
  have hseeds : seeds.toFinset ⊆ nodes := Finset.subset_union_right
  refine ⟨seeds.length + (nodes.card - seeds.toFinset.card) + 1, fun fuel hfuel => ⟨_,
    expandSeeds_eq g hops hclosed hseeds (by rw [List.length_map]; omega), fun x => ?_⟩⟩
  have hlayer : Bfs.Layer g.getNeighbors seeds 0 seeds.toFinset seeds :=
    Bfs.layer_zero (by simp) fun _ => Iff.rfl
  have hloop := hlayer.mem_queueLoop (fun _ => 0) hclosed hseeds hops 0 (show _ ≤ fuel by omega) x
  rw [Nat.zero_add] at hloop
  rw [hloop]
  exact Bfs.within_congr (fun u v _ => mem_getNeighbors_subgraphGraph) seeds hops x

/-! ### The indexes -/

/-- `csr_bfs_visited`, which reads the reverse index only in an undirected search. -/
def csrVisited (t : GraphTable) (forward : MultiGraph) (reverse : Option MultiGraph)
    (o : GraphNeighborhoodOptions) : List ℕ :=
  t.csrBfsVisited forward (if o.directed then none else reverse) o

lemma mem_csrVisited (t : GraphTable) (S : UnstableSort) (segments : List (List (ℕ × ℕ)))
    (spare : Option MultiGraph) (seeds : List ℕ) (hops : ℕ) (directed : Bool) (x : ℕ) :
    x ∈ csrVisited t (segmentGraphs S segments)
        (if directed then spare else some (reverseGraphs S segments)) { seeds, hops, directed } ↔
      Bfs.Within (adjacency directed segments.flatten) seeds hops x := by
  obtain ⟨found, hfound, hmem⟩ := GraphTable.exists_csrBfsVisited
    (o := ⟨seeds, hops, directed, none, none, none, none, none, none, none⟩) t
    (segmentGraphs S segments)
    (if directed then none else if directed then spare else some (reverseGraphs S segments)) rfl rfl
  rw [csrVisited, hfound, Finset.mem_sort, hmem]
  refine Bfs.within_congr (fun u v _ => ?_) seeds hops x
  rw [GraphTable.mem_indexNeighbors, mem_getNeighbors_segmentGraphs, mem_adjacency,
    GraphTable.Joined]
  refine or_congr_right ?_
  cases directed with
  | true => simp
  | false => simp [mem_getNeighbors_reverseGraphs]

/-- All three searches find the nodes within the hops, for edges in any segments. -/
theorem visited_eq_ball (t : GraphTable) (S : UnstableSort) (segments : List (List (ℕ × ℕ)))
    (spare : Option MultiGraph) (seeds : List ℕ) (hops : ℕ) (directed : Bool) :
    {x | x ∈ bfsVisited segments.flatten seeds hops directed} =
        ball directed segments.flatten seeds hops ∧
      (∃ bound, ∀ fuel ≥ bound, ∃ visited,
        subgraphVisited segments.flatten seeds hops directed fuel = some visited ∧
          (visited : Set ℕ) = ball directed segments.flatten seeds hops) ∧
      {x | x ∈ csrVisited t (segmentGraphs S segments)
          (if directed then spare else some (reverseGraphs S segments))
          { seeds, hops, directed }} =
        ball directed segments.flatten seeds hops := by
  have hball : ∀ x, x ∈ ball directed segments.flatten seeds hops ↔
      Bfs.Within (adjacency directed segments.flatten) seeds hops x := fun x =>
    Bfs.within_iff_exists_isPath.symm
  refine ⟨?_, ?_, ?_⟩
  · ext x
    rw [hball]
    exact mem_bfsVisited
  · obtain ⟨bound, hbound⟩ := exists_subgraphVisited segments.flatten seeds hops directed
    refine ⟨bound, fun fuel hfuel => ?_⟩
    obtain ⟨visited, hvisited, hmem⟩ := hbound fuel hfuel
    refine ⟨visited, hvisited, ?_⟩
    ext x
    rw [hball, Finset.mem_coe, hmem]
  · ext x
    rw [hball]
    exact mem_csrVisited t S segments spare seeds hops directed x

end BenoStreamDB

import BenoStreamDB.Foundations.Paths
import BenoStreamDB.Table.Graph

/-!
# Views of graphs

What the graph aggregates of `sql/graph_udf` read: `GraphView` has the neighbours of a node and a
list of all nodes with neighbours. It is a `SimpleGraph` of the aggregated edges, or the graphs of
the segments. A simple graph joins the nodes of its edges: `SimpleGraph.mem_getNeighbors_directed`.
-/

namespace BenoStreamDB

structure GraphView where
  getNeighbors : ℕ → List ℕ
  allNodes : List ℕ
  complete : ∀ u v, v ∈ getNeighbors u → u ∈ allNodes

namespace GraphView

variable (g : GraphView)

/-- The endpoints of the edges, among the listed nodes and their neighbours. -/
def nodes : Finset ℕ := (g.allNodes ++ g.allNodes.flatMap g.getNeighbors).toFinset

/-- There is an edge from `u` to `v`. -/
def Edge (u v : ℕ) : Prop := v ∈ g.getNeighbors u

variable {g}

lemma Edge.target_mem {u v : ℕ} (h : g.Edge u v) : v ∈ g.nodes := by
  rw [nodes, List.mem_toFinset]
  exact List.mem_append_right _ (List.mem_flatMap.2 ⟨u, g.complete u v h, h⟩)

end GraphView

/-! ### Graphs in memory -/

/-- `SimpleGraph`, the lists of neighbours by node. -/
abbrev SimpleGraph := List (ℕ × List ℕ)

namespace SimpleGraph

/-- `adj.entry(u).or_default().push(v)` -/
def push (u v : ℕ) : SimpleGraph → SimpleGraph
  | [] => [(u, [v])]
  | (k, ns) :: adj => if k = u then (k, ns ++ [v]) :: adj else (k, ns) :: push u v adj

def finalize (adj : SimpleGraph) : SimpleGraph :=
  adj.map fun e => (e.1, (e.2.insertionSort (· ≤ ·)).dedup)

/-- `from_directed_edges`, and `from_edges_iter` -/
def fromDirectedEdges (edges : List (ℕ × ℕ)) : SimpleGraph :=
  finalize (edges.foldl (fun adj e => push e.1 e.2 adj) [])

def fromUndirectedEdges (edges : List (ℕ × ℕ)) : SimpleGraph :=
  finalize (edges.foldl (fun adj e => push e.2 e.1 (push e.1 e.2 adj)) [])

def getNeighbors (adj : SimpleGraph) (node : ℕ) : List ℕ := (adj.lookup node).getD []

def allNodes (adj : SimpleGraph) : List ℕ := (adj.map Prod.fst).insertionSort (· ≤ ·)

lemma getNeighbors_push (u v w : ℕ) (adj : SimpleGraph) :
    (push u v adj).getNeighbors w = adj.getNeighbors w ++ if w = u then [v] else [] := by
  induction adj with
  | nil =>
    by_cases hw : w = u
    · simp [push, getNeighbors, hw]
    · have hne : (w == u) = false := beq_eq_false_iff_ne.2 hw
      simp [push, getNeighbors, List.lookup_cons, hne, hw]
  | cons e adj ih =>
    obtain ⟨k, ns⟩ := e
    simp only [getNeighbors] at ih
    rw [push]
    split_ifs with hk hw hw
    · subst hk hw
      simp [getNeighbors]
    · have hne : (w == k) = false := beq_eq_false_iff_ne.2 (hk ▸ hw)
      simp [getNeighbors, List.lookup_cons, hne]
    · have hne : (w == k) = false := beq_eq_false_iff_ne.2 fun h => hk (h.symm.trans hw)
      simp only [getNeighbors, List.lookup_cons, hne, ih, if_pos hw]
    · by_cases hwk : w = k
      · simp [getNeighbors, hwk]
      · have hne : (w == k) = false := beq_eq_false_iff_ne.2 hwk
        simp only [getNeighbors, List.lookup_cons, hne, ih, if_neg hw]

lemma getNeighbors_foldl_push (edges : List (ℕ × ℕ)) (adj : SimpleGraph) (w : ℕ) :
    (edges.foldl (fun adj e => push e.1 e.2 adj) adj).getNeighbors w =
      adj.getNeighbors w ++ (edges.filter fun e => w = e.1).map Prod.snd := by
  induction edges generalizing adj with
  | nil => simp
  | cons e edges ih =>
    rw [List.foldl_cons, ih, getNeighbors_push, List.filter_cons]
    by_cases hw : w = e.1 <;> simp [hw]

lemma getNeighbors_finalize (adj : SimpleGraph) (w : ℕ) :
    (finalize adj).getNeighbors w = ((adj.getNeighbors w).insertionSort (· ≤ ·)).dedup := by
  induction adj with
  | nil => simp [finalize, getNeighbors]
  | cons e adj ih =>
    obtain ⟨k, ns⟩ := e
    simp only [getNeighbors, finalize, List.map_cons, List.lookup_cons] at ih ⊢
    cases w == k
    · exact ih
    · rfl

/-- An undirected graph is the directed one of the edges in both directions. -/
lemma fromUndirectedEdges_eq (edges : List (ℕ × ℕ)) :
    fromUndirectedEdges edges = fromDirectedEdges (edges.flatMap fun e => [e, e.swap]) := by
  rw [fromUndirectedEdges, fromDirectedEdges, List.foldl_flatMap]
  rfl

lemma mem_getNeighbors_directed {edges : List (ℕ × ℕ)} {u v : ℕ} :
    v ∈ (fromDirectedEdges edges).getNeighbors u ↔ (u, v) ∈ edges := by
  rw [fromDirectedEdges, getNeighbors_finalize, List.mem_dedup, List.mem_insertionSort,
    getNeighbors_foldl_push]
  simp [getNeighbors]

lemma mem_getNeighbors_undirected {edges : List (ℕ × ℕ)} {u v : ℕ} :
    v ∈ (fromUndirectedEdges edges).getNeighbors u ↔ (u, v) ∈ edges ∨ (v, u) ∈ edges := by
  rw [fromUndirectedEdges_eq, mem_getNeighbors_directed, List.mem_flatMap]
  constructor
  · rintro ⟨e, he, h⟩
    rcases List.mem_pair.1 h with rfl | h
    · exact Or.inl he
    · rw [← Prod.swap_swap e, ← h] at he
      exact Or.inr he
  · rintro (he | he)
    · exact ⟨(u, v), he, by simp⟩
    · exact ⟨(v, u), he, by simp⟩

lemma mem_allNodes_of_mem_getNeighbors {adj : SimpleGraph} {u v : ℕ}
    (h : v ∈ adj.getNeighbors u) : u ∈ adj.allNodes := by
  rw [allNodes, List.mem_insertionSort]
  cases hlookup : adj.lookup u with
  | none => simp [getNeighbors, hlookup] at h
  | some ns =>
    obtain ⟨l₁, l₂, rfl, -⟩ := List.lookup_eq_some_iff.1 hlookup
    simp

lemma mem_map_fst_push {u v w : ℕ} {adj : SimpleGraph} :
    w ∈ (push u v adj).map Prod.fst ↔ w = u ∨ w ∈ adj.map Prod.fst := by
  induction adj with
  | nil => simp [push]
  | cons e adj ih =>
    obtain ⟨k, ns⟩ := e
    rw [push]
    split_ifs with hk
    · subst hk
      simp
    · rw [List.map_cons, List.map_cons, List.mem_cons, List.mem_cons, ih]
      exact or_left_comm

lemma mem_allNodes_directed {edges : List (ℕ × ℕ)} {w : ℕ} :
    w ∈ (fromDirectedEdges edges).allNodes ↔ w ∈ edges.map Prod.fst := by
  rw [allNodes, List.mem_insertionSort, fromDirectedEdges, finalize, List.map_map]
  suffices hfold : ∀ adj : SimpleGraph,
      w ∈ (edges.foldl (fun adj e => push e.1 e.2 adj) adj).map Prod.fst ↔
        w ∈ adj.map Prod.fst ∨ w ∈ edges.map Prod.fst by
    exact (hfold []).trans (or_iff_right List.not_mem_nil)
  induction edges with
  | nil => simp
  | cons e edges ih =>
    intro adj
    rw [List.foldl_cons, ih, mem_map_fst_push, List.map_cons, List.mem_cons]
    exact or_assoc.trans or_left_comm

lemma nodup_map_fst_push {u v : ℕ} {adj : SimpleGraph} (h : (adj.map Prod.fst).Nodup) :
    ((push u v adj).map Prod.fst).Nodup := by
  induction adj with
  | nil => simp [push]
  | cons e adj ih =>
    obtain ⟨k, ns⟩ := e
    obtain ⟨hk, hadj⟩ := List.nodup_cons.1 h
    rw [push]
    split_ifs with hku
    · exact h
    · refine List.nodup_cons.2 ⟨fun hmem => ?_, ih hadj⟩
      rcases mem_map_fst_push.1 hmem with hu | hmem
      · exact hku hu
      · exact hk hmem

lemma nodup_allNodes_directed (edges : List (ℕ × ℕ)) :
    (fromDirectedEdges edges).allNodes.Nodup := by
  rw [allNodes, (List.perm_insertionSort _ _).nodup_iff, fromDirectedEdges, finalize, List.map_map]
  suffices hfold : ∀ adj : SimpleGraph, (adj.map Prod.fst).Nodup →
      ((edges.foldl (fun adj e => push e.1 e.2 adj) adj).map Prod.fst).Nodup by
    exact hfold [] List.nodup_nil
  induction edges with
  | nil => exact fun _ h => h
  | cons e edges ih => exact fun adj h => ih _ (nodup_map_fst_push h)

def view (adj : SimpleGraph) : GraphView where
  getNeighbors := adj.getNeighbors
  allNodes := adj.allNodes
  complete _ _ := mem_allNodes_of_mem_getNeighbors

end SimpleGraph

lemma mem_endpoints {edges : List (ℕ × ℕ)} {v : ℕ} :
    v ∈ endpoints edges ↔ ∃ e ∈ edges, v = e.1 ∨ v = e.2 := by
  simp [endpoints]

/-! ### Graphs of segments -/

/-- The graphs of segments, and of the segments with their edges turned round. -/
def segmentGraphs (S : UnstableSort) (segments : List (List (ℕ × ℕ))) : MultiGraph :=
  segments.map (buildFromFile S)

def reverseGraphs (S : UnstableSort) (segments : List (List (ℕ × ℕ))) : MultiGraph :=
  segments.map fun edges => buildFromFile S (edges.map Prod.swap)

lemma mem_getNeighbors_segmentGraphs {S : UnstableSort} {segments : List (List (ℕ × ℕ))}
    {u v : ℕ} : v ∈ MultiGraph.getNeighbors (segmentGraphs S segments) u ↔
      (u, v) ∈ segments.flatten := by
  simp only [MultiGraph.getNeighbors, segmentGraphs, List.mem_flatMap, List.mem_map,
    List.mem_flatten, exists_exists_and_eq_and, (perm_getNeighbors_build S _ u).mem_iff,
    List.mem_filter, beq_iff_eq]
  refine exists_congr fun edges => and_congr_right fun _ => ?_
  simp

lemma reverseGraphs_eq (S : UnstableSort) (segments : List (List (ℕ × ℕ))) :
    reverseGraphs S segments = segmentGraphs S (segments.map fun edges => edges.map Prod.swap) := by
  rw [reverseGraphs, segmentGraphs, List.map_map]
  rfl

lemma mem_getNeighbors_reverseGraphs {S : UnstableSort} {segments : List (List (ℕ × ℕ))}
    {u v : ℕ} : v ∈ MultiGraph.getNeighbors (reverseGraphs S segments) u ↔
      (v, u) ∈ segments.flatten := by
  rw [reverseGraphs_eq, mem_getNeighbors_segmentGraphs]
  simp

def MultiGraph.view (graphs : MultiGraph) : GraphView where
  getNeighbors := MultiGraph.getNeighbors graphs
  allNodes := MultiGraph.allNodes graphs
  complete _ _ := MultiGraph.mem_allNodes_of_mem_getNeighbors

/-! ### Numbers of nodes -/

/-- The map from the ids in a list to their places. -/
def nodeIndex (nodes : List ℕ) (id : ℕ) : Option (Fin nodes.length) :=
  if h : id ∈ nodes then some ⟨nodes.idxOf id, List.idxOf_lt_length_of_mem h⟩ else none

lemma nodeIndex_eq_some_iff {nodes : List ℕ} (hnodup : nodes.Nodup) {id : ℕ}
    {i : Fin nodes.length} : nodeIndex nodes id = some i ↔ id = nodes.get i := by
  rw [nodeIndex]
  constructor
  · intro h
    split_ifs at h with hid
    obtain rfl := Option.some.inj h
    exact (List.getElem_idxOf _).symm
  · rintro rfl
    rw [dif_pos (List.get_mem _ _)]
    refine congrArg some (Fin.ext ?_)
    exact hnodup.idxOf_getElem i i.2

end BenoStreamDB

import BenoStreamDB.Foundations.Tarjan
import BenoStreamDB.Sql.GraphView

/-!
# Strongly connected components

The aggregate of `sql/graph_udf/strongly_connected_components.rs` collects the edges, runs Tarjan's
search from every node that has neighbours, and returns a row for each node in the order of the
nodes. Every endpoint has one row, and two nodes have the same id exactly if each reaches the other:
`stronglyConnectedComponents_spec`.
-/

namespace BenoStreamDB

/-- The rows of `(node, scc_id)` by node. -/
def sortedComponents (components : List (ℕ × ℕ)) : List (ℕ × ℕ) :=
  components.insertionSort fun c d => c.1 ≤ d.1

/-- `evaluate` of the aggregate, for a graph; `none` without enough fuel for the loop. -/
def sccEvaluate (fuel : ℕ) (graph : GraphView) : Option (List (ℕ × ℕ)) :=
  (Tarjan.run graph.getNeighbors fuel graph.allNodes).map fun st => sortedComponents st.components

/-- The aggregate over the rows of an edge table. -/
def stronglyConnectedComponents (fuel : ℕ) (edges : List (ℕ × ℕ)) : Option (List (ℕ × ℕ)) :=
  sccEvaluate fuel (SimpleGraph.fromDirectedEdges edges).view

/-- The rows of a graph whose nodes are in a finite set. -/
lemma exists_sccEvaluate (graph : GraphView) {V : Finset ℕ} (hall : ∀ v ∈ graph.allNodes, v ∈ V)
    (hV : ∀ u ∈ V, ∀ v ∈ graph.getNeighbors u, v ∈ V) {fuel : ℕ} (hfuel : 3 * V.card ≤ fuel) :
    ∃ rows, sccEvaluate fuel graph = some rows ∧ (rows.map Prod.fst).Nodup ∧
      (∀ v ∈ graph.allNodes, v ∈ rows.map Prod.fst) ∧
      (∀ u ∈ rows.map Prod.fst, u ∈ V ∧ ∀ v, graph.Edge u v → v ∈ rows.map Prod.fst) ∧
      ∀ r ∈ rows, ∀ q ∈ rows, r.2 = q.2 ↔
        Relation.ReflTransGen graph.Edge r.1 q.1 ∧ Relation.ReflTransGen graph.Edge q.1 r.1 := by
  obtain ⟨st, hrun, hnodup, hstarts, hclosed, hsame⟩ :=
    Tarjan.exists_run hV hfuel graph.allNodes hall
  have hperm := List.perm_insertionSort (fun c d : ℕ × ℕ => c.1 ≤ d.1) st.components
  have hkeys : ∀ v, v ∈ (sortedComponents st.components).map Prod.fst ↔ st.Closed v :=
    fun v => (hperm.map Prod.fst).mem_iff
  refine ⟨sortedComponents st.components, by rw [sccEvaluate, hrun]; rfl,
    (hperm.map Prod.fst).nodup_iff.2 hnodup, fun v hv => (hkeys v).2 (hstarts v hv),
    fun u hu => ?_, fun r hr q hq => ?_⟩
  · obtain ⟨huV, hsucc⟩ := hclosed u ((hkeys u).1 hu)
    exact ⟨huV, fun v huv => (hkeys v).2 (hsucc v huv)⟩
  · exact hsame r (hperm.mem_iff.1 hr) q (hperm.mem_iff.1 hq)

/-- Every endpoint has one row, and two nodes have the same id exactly if each reaches the other. -/
theorem stronglyConnectedComponents_spec (edges : List (ℕ × ℕ)) :
    ∃ bound, ∀ fuel ≥ bound, ∃ rows, stronglyConnectedComponents fuel edges = some rows ∧
      (rows.map Prod.fst).Nodup ∧
      (∀ v, v ∈ rows.map Prod.fst ↔ ∃ e ∈ edges, v = e.1 ∨ v = e.2) ∧
      ∀ r ∈ rows, ∀ q ∈ rows, r.2 = q.2 ↔
        Relation.ReflTransGen (fun u v => (u, v) ∈ edges) r.1 q.1 ∧
          Relation.ReflTransGen (fun u v => (u, v) ∈ edges) q.1 r.1 := by
  set graph := (SimpleGraph.fromDirectedEdges edges).view with hgraph
  have hedge : graph.Edge = fun u v => (u, v) ∈ edges := by
    funext u v
    exact propext SimpleGraph.mem_getNeighbors_directed
  have hnodes : ∀ v, v ∈ graph.allNodes ↔ v ∈ edges.map Prod.fst :=
    fun v => SimpleGraph.mem_allNodes_directed
  have hmem : ∀ v, v ∈ (endpoints edges).toFinset ↔ ∃ e ∈ edges, v = e.1 ∨ v = e.2 := by
    intro v
    rw [List.mem_toFinset, mem_endpoints]
  have hstart : ∀ v ∈ graph.allNodes, v ∈ (endpoints edges).toFinset := by
    intro v hv
    obtain ⟨e, he, rfl⟩ := List.mem_map.1 ((hnodes v).1 hv)
    exact (hmem e.1).2 ⟨e, he, .inl rfl⟩
  have hnext : ∀ u ∈ (endpoints edges).toFinset, ∀ v ∈ graph.getNeighbors u,
      v ∈ (endpoints edges).toFinset := by
    intro u _ v hv
    exact (hmem v).2 ⟨(u, v), SimpleGraph.mem_getNeighbors_directed.1 hv, .inr rfl⟩
  refine ⟨3 * (endpoints edges).toFinset.card, fun fuel hfuel => ?_⟩
  obtain ⟨rows, heq, hnodup, hstarts, hclosed, hsame⟩ :=
    exists_sccEvaluate graph hstart hnext hfuel
  refine ⟨rows, heq, hnodup, fun v => ⟨fun hv => (hmem v).1 (hclosed v hv).1, ?_⟩, hedge ▸ hsame⟩
  rintro ⟨e, he, rfl | rfl⟩
  · exact hstarts e.1 ((hnodes e.1).2 (List.mem_map_of_mem he))
  · have hsource := hstarts e.1 ((hnodes e.1).2 (List.mem_map_of_mem he))
    exact (hclosed e.1 hsource).2 e.2 (hedge ▸ he)

example : stronglyConnectedComponents 12 [(1, 2), (2, 1), (2, 3), (4, 4)] =
    some [(1, 2), (2, 2), (3, 1), (4, 3)] := by decide

end BenoStreamDB

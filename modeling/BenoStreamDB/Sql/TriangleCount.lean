import BenoStreamDB.Sql.GraphView
import Mathlib.Algebra.BigOperators.Group.Finset.Basic
import Mathlib.Data.Finset.Prod

/-!
# Counting triangles

The aggregate of `sql/graph_udf/triangle_count.rs` collects the edges as a directed graph. For every
edge from a node `u` to a larger node `v` it counts the larger neighbours of `v` that are neighbours
of `u`, so it finds the triangles whose three edges all lead from the smaller to the larger node.
It finds every triangle exactly if these edges are there: `triangleCount_eq_card_iff`.
-/

namespace BenoStreamDB

namespace GraphView

variable (g : GraphView)

/-- `neighbor_sets`, which has the listed nodes. -/
def neighborSets (u : ℕ) : Option (Finset ℕ) :=
  if u ∈ g.allNodes then some ((g.getNeighbors u).filter (u ≠ ·)).toFinset else none

/-- The triangles that are found from `u` by the edge to `v`. -/
def closing (uNeighbors : Finset ℕ) (v : ℕ) : ℕ :=
  match g.neighborSets v with
  | some vNeighbors => (vNeighbors.filter fun w => v < w ∧ w ∈ uNeighbors).card
  | none => 0

def trianglesFrom (u : ℕ) : ℕ :=
  match g.neighborSets u with
  | some uNeighbors => ∑ v ∈ uNeighbors with u < v, g.closing uNeighbors v
  | none => 0

/-- `evaluate`; the count is a `u64`, and `none` is its overflow. -/
def triangleCountEvaluate : Option ℕ :=
  let count := (g.allNodes.map g.trianglesFrom).sum
  if count < 2 ^ 64 then some count else none

end GraphView

/-- The aggregate over the rows of an edge table. -/
def triangleCount (edges : List (ℕ × ℕ)) : Option ℕ :=
  (SimpleGraph.fromDirectedEdges edges).view.triangleCountEvaluate

/-- Triples of nodes in increasing order, of which each two are in the relation. -/
def increasingTriples (R : ℕ → ℕ → Prop) [DecidableRel R] (V : Finset ℕ) : Finset (ℕ × ℕ × ℕ) :=
  (V ×ˢ V ×ˢ V).filter fun t =>
    t.1 < t.2.1 ∧ t.2.1 < t.2.2 ∧ R t.1 t.2.1 ∧ R t.2.1 t.2.2 ∧ R t.1 t.2.2

/-- The triples of distinct nodes that are pairwise joined by an edge in some direction, each in
increasing order. -/
def triangles (edges : List (ℕ × ℕ)) : Finset (ℕ × ℕ × ℕ) :=
  increasingTriples (fun u v => (u, v) ∈ edges ∨ (v, u) ∈ edges) (endpoints edges).toFinset

/-- Two nodes of a triangle are joined by an edge from the smaller to the larger one. -/
def AscendingTriangles (edges : List (ℕ × ℕ)) : Prop :=
  ∀ u v w, (u, v, w) ∈ triangles edges → (u, v) ∈ edges ∧ (v, w) ∈ edges ∧ (u, w) ∈ edges

section Triples

variable {R R' : ℕ → ℕ → Prop} [DecidableRel R] [DecidableRel R'] {V : Finset ℕ}

lemma mem_increasingTriples {u v w : ℕ} : (u, v, w) ∈ increasingTriples R V ↔
    (u ∈ V ∧ v ∈ V ∧ w ∈ V) ∧ u < v ∧ v < w ∧ R u v ∧ R v w ∧ R u w := by
  simp [increasingTriples]

lemma increasingTriples_subset (h : ∀ u v, R u v → R' u v) :
    increasingTriples R V ⊆ increasingTriples R' V := by
  rintro ⟨u, v, w⟩ ht
  obtain ⟨hV, huv, hvw, h₁, h₂, h₃⟩ := mem_increasingTriples.1 ht
  exact mem_increasingTriples.2 ⟨hV, huv, hvw, h u v h₁, h v w h₂, h u w h₃⟩

end Triples

namespace GraphView

variable {g : GraphView}

lemma mem_getD_neighborSets {u v : ℕ} :
    v ∈ (g.neighborSets u).getD ∅ ↔ g.Edge u v ∧ u ≠ v := by
  rw [neighborSets]
  split_ifs with hu
  · simp [Edge]
  · simp only [Option.getD_none, Finset.notMem_empty, false_iff, not_and]
    exact fun h => absurd (g.complete u v h) hu

lemma closing_eq (uNeighbors : Finset ℕ) (v : ℕ) : g.closing uNeighbors v =
    (((g.neighborSets v).getD ∅).filter fun w => v < w ∧ w ∈ uNeighbors).card := by
  rw [closing]
  cases g.neighborSets v <;> rfl

lemma trianglesFrom_eq (u : ℕ) : g.trianglesFrom u =
    ∑ v ∈ (g.neighborSets u).getD ∅ with u < v, g.closing ((g.neighborSets u).getD ∅) v := by
  rw [trianglesFrom]
  cases g.neighborSets u <;> rfl

section Count

variable {R : ℕ → ℕ → Prop} [DecidableRel R] {V : Finset ℕ}

/-- The triples that begin with an edge are those that the loop over `v` and `w` finds. -/
lemma filter_increasingTriples (hR : ∀ u v, R u v ↔ g.Edge u v)
    (hV : ∀ u v, R u v → u ∈ V ∧ v ∈ V) {u v : ℕ}
    (huv : v ∈ (g.neighborSets u).getD ∅) (hlt : u < v) :
    ((increasingTriples R V).filter (·.1 = u)).filter (·.2.1 = v) =
      (((g.neighborSets v).getD ∅).filter fun w =>
        v < w ∧ w ∈ (g.neighborSets u).getD ∅).image fun w => (u, v, w) := by
  have hedge := (hR u v).2 (mem_getD_neighborSets.1 huv).1
  ext ⟨a, b, w⟩
  simp only [Finset.mem_filter, mem_increasingTriples, Finset.mem_image, mem_getD_neighborSets,
    ← hR, Prod.mk.injEq]
  constructor
  · rintro ⟨⟨⟨-, -, hvw, -, hbw, haw⟩, rfl⟩, rfl⟩
    exact ⟨w, ⟨⟨hbw, hvw.ne⟩, hvw, haw, (hlt.trans hvw).ne⟩, rfl, rfl, rfl⟩
  · rintro ⟨x, ⟨⟨hvx, -⟩, hlt', hux, -⟩, rfl, rfl, rfl⟩
    have hu := hV u v hedge
    exact ⟨⟨⟨⟨hu.1, hu.2, (hV v x hvx).2⟩, hlt, hlt', hedge, hvx, hux⟩, rfl⟩, rfl⟩

/-- The count is the number of triples with edges in increasing order. -/
lemma sum_trianglesFrom (hnodup : g.allNodes.Nodup) (hR : ∀ u v, R u v ↔ g.Edge u v)
    (hV : ∀ u v, R u v → u ∈ V ∧ v ∈ V) :
    (g.allNodes.map g.trianglesFrom).sum = (increasingTriples R V).card := by
  have hfirst : ∀ t ∈ increasingTriples R V, t.1 ∈ g.allNodes.toFinset := by
    rintro ⟨u, v, w⟩ ht
    obtain ⟨-, -, -, hedge, -⟩ := mem_increasingTriples.1 ht
    exact List.mem_toFinset.2 (g.complete u v ((hR u v).1 hedge))
  rw [← List.sum_toFinset _ hnodup, Finset.card_eq_sum_card_fiberwise hfirst]
  refine Finset.sum_congr rfl fun u _ => ?_
  have hsecond : ∀ t ∈ (increasingTriples R V).filter (·.1 = u),
      t.2.1 ∈ ((g.neighborSets u).getD ∅).filter (u < ·) := by
    rintro ⟨u', v, w⟩ ht
    obtain ⟨htriple, rfl⟩ := Finset.mem_filter.1 ht
    obtain ⟨-, hlt, -, hedge, -⟩ := mem_increasingTriples.1 htriple
    have hmem := mem_getD_neighborSets.2 ⟨(hR u' v).1 hedge, hlt.ne⟩
    exact Finset.mem_filter.2 ⟨hmem, hlt⟩
  rw [trianglesFrom_eq, Finset.card_eq_sum_card_fiberwise hsecond]
  refine Finset.sum_congr rfl fun v hv => ?_
  obtain ⟨huv, hlt⟩ := Finset.mem_filter.1 hv
  rw [filter_increasingTriples hR hV huv hlt, closing_eq, Finset.card_image_of_injective]
  exact fun a b h => congrArg (fun t => t.2.2) h

end Count

end GraphView

/-- The triangles with all edges from the smaller to the larger node. -/
def ascending (edges : List (ℕ × ℕ)) : Finset (ℕ × ℕ × ℕ) :=
  increasingTriples (fun u v => (u, v) ∈ edges) (endpoints edges).toFinset

lemma triangleCount_eq (edges : List (ℕ × ℕ)) : triangleCount edges =
    if (ascending edges).card < 2 ^ 64 then some (ascending edges).card else none := by
  have hV : ∀ u v, (u, v) ∈ edges →
      u ∈ (endpoints edges).toFinset ∧ v ∈ (endpoints edges).toFinset := by
    intro u v h
    simp only [List.mem_toFinset, mem_endpoints]
    exact ⟨⟨(u, v), h, .inl rfl⟩, ⟨(u, v), h, .inr rfl⟩⟩
  rw [triangleCount, GraphView.triangleCountEvaluate,
    GraphView.sum_trianglesFrom (SimpleGraph.nodup_allNodes_directed edges)
      (fun _ _ => SimpleGraph.mem_getNeighbors_directed.symm) hV, ascending]

lemma ascending_subset (edges : List (ℕ × ℕ)) : ascending edges ⊆ triangles edges :=
  increasingTriples_subset fun _ _ => Or.inl

lemma ascending_eq_iff (edges : List (ℕ × ℕ)) :
    ascending edges = triangles edges ↔ AscendingTriangles edges := by
  constructor
  · intro heq u v w ht
    rw [← heq] at ht
    exact (mem_increasingTriples.1 ht).2.2.2
  · intro h
    refine (ascending_subset edges).antisymm fun ⟨u, v, w⟩ ht => ?_
    obtain ⟨hV, huv, hvw, -⟩ := mem_increasingTriples.1 ht
    exact mem_increasingTriples.2 ⟨hV, huv, hvw, h u v w ht⟩

/-- The count is the number of triangles exactly if all edges that join two nodes of a triangle are
there from the smaller to the larger node, and the number fits. -/
theorem triangleCount_eq_card_iff (edges : List (ℕ × ℕ)) :
    triangleCount edges = some (triangles edges).card ↔
      AscendingTriangles edges ∧ (triangles edges).card < 2 ^ 64 := by
  rw [triangleCount_eq, ← ascending_eq_iff]
  constructor
  · intro h
    split_ifs at h with hlt
    have hcard := Option.some.inj h
    exact ⟨Finset.eq_of_subset_of_card_le (ascending_subset edges) hcard.ge, hcard ▸ hlt⟩
  · rintro ⟨heq, hlt⟩
    rw [heq, if_pos hlt]

/-- Turning an edge round changes the count, but not the triangles. -/
theorem triangleCount_turned : triangleCount [(1, 2), (2, 3), (1, 3)] = some 1 ∧
    triangleCount [(2, 1), (2, 3), (1, 3)] = some 0 ∧
    (triangles [(2, 1), (2, 3), (1, 3)]).card = 1 := by
  decide

end BenoStreamDB

import BenoStreamDB.Foundations.Accumulators
import BenoStreamDB.Sql.ShortestPath
import BenoStreamDB.Sql.StrongComponents
import BenoStreamDB.Sql.TriangleCount

/-!
# Partial graph aggregates

The accumulators of `shortest_path`, `triangle_count` and `strongly_connected_components` over the
partitions of an edge table. Besides the edges the states carry the arguments of the aggregate,
which a partition without rows does not know. Merging is not the same for all of them:
`triangle_count` leaves out the graph and the mode, and `shortest_path` takes the endpoints of the
first state of a batch or none. `partitionIndependent_iff` says when the result is nevertheless that
of one accumulator.
-/

namespace BenoStreamDB

/-- A row of the edge table. -/
structure EdgeInput where
  source : Option ℕ
  target : Option ℕ

def EdgeInput.edge (r : EdgeInput) : Option (ℕ × ℕ) := r.source.bind fun u => r.target.map (u, ·)

/-- The arguments that are the same in all rows. What is left out is NULL. -/
structure GraphArgs where
  graphUri : Option String
  mode : Option String
  start : Option ℕ
  stop : Option ℕ

/-! ### Accumulators -/

/-- `GraphAccumulatorBase`, with the edges of its chunks -/
structure GraphBase where
  edges : List (ℕ × ℕ)
  graphUri : Option String
  mode : Option String

namespace GraphBase

def new : GraphBase := ⟨[], none, none⟩

/-- An argument is read from the first row of a batch. -/
def firstRow {α : Type} (rows : List EdgeInput) (arg : Option α) : Option α :=
  if rows = [] then none else arg

/-- `update_edge_batch` -/
def updateEdgeBatch (args : GraphArgs) (b : GraphBase) (rows : List EdgeInput) : GraphBase where
  edges := b.edges ++ rows.filterMap EdgeInput.edge
  graphUri := b.graphUri.or (firstRow rows args.graphUri)
  mode := b.mode.or (firstRow rows args.mode)

/-- `merge_edge_state`. Without the places of the graph and the mode in the states, these are not
read. -/
def mergeEdgeState (indices : Bool) (b : GraphBase) (states : List GraphBase) : GraphBase where
  edges := b.edges ++ states.flatMap edges
  graphUri := if indices then b.graphUri.or (states.findSome? graphUri) else b.graphUri
  mode := if indices then b.mode.or (states.findSome? mode) else b.mode

end GraphBase

/-- What `load_graph_view` makes of a graph, a mode and a number of hops. -/
abbrev GraphLoader := String → String → ℕ → Except String GraphView

/-- `resolve_graph`, without seeds -/
def GraphBase.resolveGraph (load : GraphLoader) (hops : ℕ) (b : GraphBase) :
    Except String GraphView :=
  match b.graphUri.filter (· ≠ "") with
  | some uri => (load uri (b.mode.getD "auto") hops).mapError ("graph_view failed: " ++ ·)
  | none => .ok (SimpleGraph.fromDirectedEdges b.edges).view

/-- `TriangleCountAccumulator` -/
def triangleCountAccumulator (args : GraphArgs) : Accumulator EdgeInput GraphBase where
  new := .new
  updateBatch := .updateEdgeBatch args
  mergeBatch b first others := b.mergeEdgeState false (first :: others)

/-- The accumulator of `strongly_connected_components` -/
def sccAccumulator (args : GraphArgs) : Accumulator EdgeInput GraphBase where
  new := .new
  updateBatch := .updateEdgeBatch args
  mergeBatch b first others := b.mergeEdgeState true (first :: others)

structure ShortestPathState where
  base : GraphBase
  start : Option ℕ
  stop : Option ℕ

/-- `ShortestPathAccumulator` -/
def shortestPathAccumulator (args : GraphArgs) : Accumulator EdgeInput ShortestPathState where
  new := ⟨.new, none, none⟩
  updateBatch s rows :=
    { base := s.base.updateEdgeBatch args rows
      start := (GraphBase.firstRow rows args.start).or s.start
      stop := (GraphBase.firstRow rows args.stop).or s.stop }
  mergeBatch s first others :=
    { base := s.base.mergeEdgeState true ((first :: others).map ShortestPathState.base)
      start := first.start.or s.start
      stop := first.stop.or s.stop }

/-- `evaluate` of `triangle_count` -/
def GraphBase.triangleCount (load : GraphLoader) (b : GraphBase) : Except String (Option ℕ) :=
  (b.resolveGraph load 0).map GraphView.triangleCountEvaluate

/-- `evaluate` of `strongly_connected_components` -/
def GraphBase.components (load : GraphLoader) (fuel : ℕ) (b : GraphBase) :
    Except String (Option (List (ℕ × ℕ))) :=
  (b.resolveGraph load 1).map (sccEvaluate fuel)

/-- The path in a graph, or the error of `resolve_graph`. -/
def pathIn (fuel start stop : ℕ) :
    Except String GraphView → Option (Except String (Option (List ℕ)))
  | .ok g => shortestPathEvaluate g fuel (some start) (some stop)
  | .error e => some (.error e)

/-- `evaluate` of `shortest_path`; the graph is only looked for if both endpoints are there -/
def ShortestPathState.shortestPath (load : GraphLoader) (fuel : ℕ) (s : ShortestPathState) :
    Option (Except String (Option (List ℕ))) :=
  match s.start, s.stop with
  | some start, some stop => pathIn fuel start stop (s.base.resolveGraph load 0)
  | _, _ => some (.ok none)

/-! ### What the trees carry -/

/-- What is known of an accumulator: its rows, whether it was fed rows itself, and whether it has
the endpoints, by rows of its own or by the first state of a batch. -/
structure MergeTrace where
  rows : List EdgeInput
  fed : Bool
  endpoints : Bool
  fed_rows : fed = true → rows ≠ []
  endpoints_rows : endpoints = true → rows ≠ []

namespace MergeTrace

lemma append_ne_nil {known : Bool} {xs ys : List EdgeInput} (h : known = true → xs ≠ []) :
    (known || !ys.isEmpty) = true → xs ++ ys ≠ [] := by
  cases known <;> cases ys <;> simp_all

def update (s : MergeTrace) (rows : List EdgeInput) : MergeTrace where
  rows := s.rows ++ rows
  fed := s.fed || !rows.isEmpty
  endpoints := s.endpoints || !rows.isEmpty
  fed_rows := append_ne_nil s.fed_rows
  endpoints_rows := append_ne_nil s.endpoints_rows

lemma merge_ne_nil {s first : MergeTrace} {others : List MergeTrace}
    (h : (s.endpoints || first.endpoints) = true) :
    s.rows ++ (first :: others).flatMap MergeTrace.rows ≠ [] := by
  rcases Bool.or_eq_true_iff.1 h with h | h
  · simp [s.endpoints_rows h]
  · simp [first.endpoints_rows h]

def merge (s first : MergeTrace) (others : List MergeTrace) : MergeTrace where
  rows := s.rows ++ (first :: others).flatMap MergeTrace.rows
  fed := s.fed
  endpoints := s.endpoints || first.endpoints
  fed_rows h := List.append_ne_nil_of_left_ne_nil (s.fed_rows h) _
  endpoints_rows := merge_ne_nil

end MergeTrace

def mergeTrace : Accumulator EdgeInput MergeTrace where
  new := ⟨[], false, false, Bool.noConfusion, Bool.noConfusion⟩
  updateBatch := MergeTrace.update
  mergeBatch := MergeTrace.merge

/-- The results of a tree are those of one accumulator that is fed all rows at once. -/
def PartitionIndependent (args : GraphArgs) (t : MergeTree EdgeInput) : Prop :=
  ∀ rows, rows.Perm (t.accumulate mergeTrace).rows → ∀ load, ∃ bound, ∀ fuel ≥ bound,
    (t.accumulate (shortestPathAccumulator args)).shortestPath load fuel =
      ((MergeTree.new.update rows).accumulate (shortestPathAccumulator args)).shortestPath load
        fuel ∧
    (t.accumulate (triangleCountAccumulator args)).triangleCount load =
      ((MergeTree.new.update rows).accumulate (triangleCountAccumulator args)).triangleCount load ∧
    (t.accumulate (sccAccumulator args)).components load fuel =
      ((MergeTree.new.update rows).accumulate (sccAccumulator args)).components load fuel

/-! ### States by traces -/

section States

variable (args : GraphArgs)

/-- An argument, if it is known. -/
def knownArg {α : Type} (known : Bool) (arg : Option α) : Option α := if known then arg else none

/-- The base of some rows. -/
def GraphBase.ofRows (rows : List EdgeInput) (known : Bool) : GraphBase :=
  ⟨rows.filterMap EdgeInput.edge, knownArg known args.graphUri, knownArg known args.mode⟩

lemma knownArg_or_firstRow {α : Type} (known : Bool) (arg : Option α) (rows : List EdgeInput) :
    (knownArg known arg).or (GraphBase.firstRow rows arg) =
      knownArg (known || !rows.isEmpty) arg := by
  cases known <;> cases rows <;> cases arg <;> rfl

lemma firstRow_or_knownArg {α : Type} (known : Bool) (arg : Option α) (rows : List EdgeInput) :
    (GraphBase.firstRow rows arg).or (knownArg known arg) =
      knownArg (known || !rows.isEmpty) arg := by
  cases known <;> cases rows <;> cases arg <;> rfl

lemma knownArg_or {α : Type} (known known' : Bool) (arg : Option α) :
    (knownArg known arg).or (knownArg known' arg) = knownArg (known' || known) arg := by
  cases known <;> cases known' <;> cases arg <;> rfl

lemma not_isEmpty_append (xs ys : List EdgeInput) :
    (!(xs ++ ys).isEmpty) = (!xs.isEmpty || !ys.isEmpty) := by
  cases xs <;> rfl

/-- The argument is found in the first state that has it. -/
lemma findSome?_knownArg {α : Type} (arg : Option α) (states : List MergeTrace) :
    states.findSome? (fun t => knownArg (!t.rows.isEmpty) arg) =
      knownArg (!(states.flatMap MergeTrace.rows).isEmpty) arg := by
  induction states with
  | nil => rfl
  | cons t states ih =>
    rw [List.findSome?_cons, ih, List.flatMap_cons]
    cases ht : t.rows <;> cases arg <;> simp [knownArg]

lemma updateEdgeBatch_ofRows (rows more : List EdgeInput) (known : Bool) :
    (GraphBase.ofRows args rows known).updateEdgeBatch args more =
      GraphBase.ofRows args (rows ++ more) (known || !more.isEmpty) := by
  simp [GraphBase.ofRows, GraphBase.updateEdgeBatch, knownArg_or_firstRow]

/-- A state in which the arguments are known if there are rows. -/
def MergeTrace.base (t : MergeTrace) : GraphBase := .ofRows args t.rows (!t.rows.isEmpty)

/-- Merging with the places of the arguments keeps them. -/
lemma mergeEdgeState_base (t first : MergeTrace) (others : List MergeTrace) :
    (t.base args).mergeEdgeState true (first.base args :: others.map (MergeTrace.base args)) =
      (t.merge first others).base args := by
  have hfind {α : Type} (arg : Option α) (states : List MergeTrace) :
      (knownArg (!t.rows.isEmpty) arg).or
          (states.findSome? fun t => knownArg (!t.rows.isEmpty) arg) =
        knownArg (!(t.rows ++ states.flatMap MergeTrace.rows).isEmpty) arg := by
    rw [findSome?_knownArg, knownArg_or, not_isEmpty_append, Bool.or_comm]
  have hstates : first.base args :: others.map (MergeTrace.base args) =
      (first :: others).map (MergeTrace.base args) := rfl
  rw [hstates]
  simp only [GraphBase.mergeEdgeState, MergeTrace.base, GraphBase.ofRows, MergeTrace.merge, if_true,
    List.findSome?_map, List.flatMap_map, List.filterMap_append, List.filterMap_flatMap]
  rw [GraphBase.mk.injEq]
  exact ⟨rfl, hfind args.graphUri (first :: others), hfind args.mode (first :: others)⟩

/-- Merging without the places of the arguments keeps what was known. -/
lemma mergeEdgeState_ofRows (t first : MergeTrace) (others : List MergeTrace) (known : Bool)
    (f : MergeTrace → Bool) :
    (GraphBase.ofRows args t.rows known).mergeEdgeState false
        (.ofRows args first.rows (f first) :: others.map fun u => .ofRows args u.rows (f u)) =
      .ofRows args (t.merge first others).rows known := by
  simp [GraphBase.mergeEdgeState, GraphBase.ofRows, MergeTrace.merge, List.flatMap_map,
    List.filterMap_flatMap]

/-! ### The accumulators -/

lemma image_sccAccumulator :
    MergeTree.Image mergeTrace (MergeTrace.base args) (sccAccumulator args) where
  new := rfl
  update s rows := by
    refine (updateEdgeBatch_ofRows args s.rows rows _).trans ?_
    rw [← not_isEmpty_append]
    rfl
  merge := mergeEdgeState_base args

lemma image_triangleCountAccumulator :
    MergeTree.Image mergeTrace (fun t => .ofRows args t.rows t.fed)
      (triangleCountAccumulator args) where
  new := rfl
  update s rows := updateEdgeBatch_ofRows args s.rows rows s.fed
  merge t first others := mergeEdgeState_ofRows args t first others t.fed MergeTrace.fed

/-- The base of some rows, with the endpoints if they are known. -/
def ShortestPathState.ofRows (rows : List EdgeInput) (known : Bool) : ShortestPathState :=
  ⟨.ofRows args rows (!rows.isEmpty), knownArg known args.start, knownArg known args.stop⟩

lemma image_shortestPathAccumulator :
    MergeTree.Image mergeTrace (fun t => .ofRows args t.rows t.endpoints)
      (shortestPathAccumulator args) where
  new := rfl
  update s rows := by
    have hbase := (image_sccAccumulator args).update s rows
    simp only [sccAccumulator, MergeTrace.base] at hbase
    simp only [shortestPathAccumulator, ShortestPathState.ofRows, hbase, firstRow_or_knownArg]
    rfl
  merge t first others := by
    simp only [shortestPathAccumulator, ShortestPathState.ofRows, knownArg_or, List.map_cons,
      List.map_map, Function.comp_def]
    rw [ShortestPathState.mk.injEq]
    exact ⟨mergeEdgeState_base args t first others, rfl, rfl⟩

end States

/-! ### The results -/

/-- Lists of neighbours and of nodes are sorted, so the order of the edges does not matter. -/
lemma view_directed_of_perm {edges edges' : List (ℕ × ℕ)} (h : edges.Perm edges') :
    (SimpleGraph.fromDirectedEdges edges).view = (SimpleGraph.fromDirectedEdges edges').view := by
  have hneighbors : (SimpleGraph.fromDirectedEdges edges).getNeighbors =
      (SimpleGraph.fromDirectedEdges edges').getNeighbors := by
    funext u
    rw [SimpleGraph.fromDirectedEdges, SimpleGraph.fromDirectedEdges,
      SimpleGraph.getNeighbors_finalize, SimpleGraph.getNeighbors_finalize,
      SimpleGraph.getNeighbors_foldl_push, SimpleGraph.getNeighbors_foldl_push]
    have hperm := ((h.filter fun e => u = e.1).map Prod.snd).append_left
      (SimpleGraph.getNeighbors [] u)
    refine congrArg List.dedup (List.Perm.eq_of_pairwise' (List.pairwise_insertionSort _ _)
      (List.pairwise_insertionSort _ _) ?_)
    exact (List.perm_insertionSort _ _).trans (hperm.trans (List.perm_insertionSort _ _).symm)
  have hnodes : (SimpleGraph.fromDirectedEdges edges).allNodes =
      (SimpleGraph.fromDirectedEdges edges').allNodes := by
    refine List.Perm.eq_of_pairwise' (List.pairwise_insertionSort _ _)
      (List.pairwise_insertionSort _ _) ?_
    refine (List.perm_ext_iff_of_nodup (SimpleGraph.nodup_allNodes_directed _)
      (SimpleGraph.nodup_allNodes_directed _)).2 fun v => ?_
    rw [SimpleGraph.mem_allNodes_directed, SimpleGraph.mem_allNodes_directed]
    exact (h.map _).mem_iff
  simp only [SimpleGraph.view, hneighbors, hnodes]

/-- A graph is named. -/
def GraphArgs.Named (args : GraphArgs) : Prop := ∃ uri, args.graphUri = some uri ∧ uri ≠ ""

section Results

variable {args : GraphArgs} {load : GraphLoader} {hops fuel : ℕ} {rows rows' : List EdgeInput}

lemma resolveGraph_of_not_named (h : ¬ args.Named) (known : Bool) :
    (GraphBase.ofRows args rows known).resolveGraph load hops =
      .ok (SimpleGraph.fromDirectedEdges (rows.filterMap EdgeInput.edge)).view := by
  have huri : (knownArg known args.graphUri).filter (· ≠ "") = none := by
    rw [Option.filter_eq_none_iff]
    intro uri huri hne
    cases known with
    | false => cases huri
    | true => exact h ⟨uri, huri, of_decide_eq_true hne⟩
  simp only [GraphBase.resolveGraph, GraphBase.ofRows, huri]

lemma resolveGraph_of_perm (h : rows.Perm rows') (known : Bool) :
    (GraphBase.ofRows args rows known).resolveGraph load hops =
      (GraphBase.ofRows args rows' known).resolveGraph load hops := by
  simp only [GraphBase.resolveGraph, GraphBase.ofRows, view_directed_of_perm (h.filterMap _)]

/-- A named graph that cannot be loaded. -/
lemma resolveGraph_of_named (h : args.Named) :
    (GraphBase.ofRows args rows true).resolveGraph (fun _ _ _ => .error "") hops =
      .error "graph_view failed: " := by
  obtain ⟨uri, huri, hne⟩ := h
  have hfilter : (some uri).filter (· ≠ "") = some uri := by
    rw [Option.filter_some, if_pos (decide_eq_true hne)]
  simp only [GraphBase.resolveGraph, GraphBase.ofRows, knownArg, huri, if_true, hfilter]
  rfl

lemma shortestPath_eq_null {s : ShortestPathState} (h : s.start = none ∨ s.stop = none) :
    s.shortestPath load fuel = some (.ok none) := by
  obtain ⟨base, start, stop⟩ := s
  rcases h with rfl | rfl
  · rfl
  · cases start <;> rfl

end Results

/-! ### When the partitions do not matter -/

/-- The graph is known where `triangle_count` needs it. -/
def GraphKept (args : GraphArgs) (t : MergeTrace) : Prop :=
  t.rows = [] ∨ t.fed = true ∨ ¬ args.Named

/-- The endpoints are known where `shortest_path` needs them: not if the result is NULL. -/
def EndpointsKept (args : GraphArgs) (t : MergeTrace) : Prop :=
  t.rows = [] ∨ t.endpoints = true ∨ args.start = none ∨ args.stop = none ∨
    ¬ args.Named ∧ ∀ u v, args.start = some u → args.stop = some v →
      ¬ Relation.ReflTransGen (fun x y => (x, y) ∈ t.rows.filterMap EdgeInput.edge) u v

section Kept

variable {args : GraphArgs} {rows : List EdgeInput} {t : MergeTrace}

/-- What is known after all rows at once. -/
lemma known_of_perm (hperm : rows.Perm t.rows) {known : Bool} (hknown : known = true → t.rows ≠ [])
    (h : t.rows = [] ∨ known = true) : known = !rows.isEmpty := by
  rw [List.Perm.isEmpty_eq hperm]
  cases hrows : t.rows <;> cases known <;> simp_all

lemma triangleCount_eq_iff (hperm : rows.Perm t.rows) :
    (∀ load, (GraphBase.ofRows args t.rows t.fed).triangleCount load =
      (GraphBase.ofRows args rows (!rows.isEmpty)).triangleCount load) ↔ GraphKept args t := by
  constructor
  · intro h
    by_contra hkept
    simp only [GraphKept, not_or, not_not, Bool.not_eq_true] at hkept
    obtain ⟨hrows, hfed, hnamed⟩ := hkept
    have hne : rows.isEmpty = false := by
      rw [List.Perm.isEmpty_eq hperm, List.isEmpty_eq_false_iff]
      exact hrows
    have hload := h fun _ _ _ => .error ""
    rw [GraphBase.triangleCount, GraphBase.triangleCount, hfed, hne, Bool.not_false,
      resolveGraph_of_named hnamed] at hload
    cases hload
  · intro h load
    rw [GraphBase.triangleCount, GraphBase.triangleCount]
    by_cases hnamed : args.Named
    · rw [known_of_perm hperm t.fed_rows (h.imp_right fun h => h.resolve_right (not_not.2 hnamed)),
        resolveGraph_of_perm hperm]
    · rw [resolveGraph_of_not_named hnamed, resolveGraph_of_not_named hnamed,
        view_directed_of_perm (hperm.filterMap _)]

/-- With both endpoints the path is looked for in the graph. -/
lemma shortestPath_ofRows {u v : ℕ} (hstart : args.start = some u) (hstop : args.stop = some v)
    (load : GraphLoader) (fuel : ℕ) (hrows : rows ≠ []) :
    (ShortestPathState.ofRows args rows true).shortestPath load fuel =
      pathIn fuel u v ((GraphBase.ofRows args rows true).resolveGraph load 0) := by
  have hne : (!rows.isEmpty) = true := by simpa using hrows
  simp only [ShortestPathState.shortestPath, ShortestPathState.ofRows, knownArg, hne, hstart, hstop,
    if_true]

lemma edge_view {u v : ℕ} (hperm : rows.Perm t.rows) :
    (SimpleGraph.fromDirectedEdges (rows.filterMap EdgeInput.edge)).view.Edge u v ↔
      (u, v) ∈ t.rows.filterMap EdgeInput.edge :=
  SimpleGraph.mem_getNeighbors_directed.trans (hperm.filterMap _).mem_iff

/-- Where all rows are at hand the result is NULL exactly if the target is not reached. -/
lemma shortestPath_null_iff {u v : ℕ} (hstart : args.start = some u) (hstop : args.stop = some v)
    (hrows : rows ≠ []) :
    (∀ load, ∃ bound, ∀ fuel ≥ bound,
      some (.ok none) = (ShortestPathState.ofRows args rows true).shortestPath load fuel) ↔
      ¬ args.Named ∧ ¬ Relation.ReflTransGen
        (SimpleGraph.fromDirectedEdges (rows.filterMap EdgeInput.edge)).view.Edge u v := by
  simp only [shortestPath_ofRows hstart hstop _ _ hrows]
  by_cases hnamed : args.Named
  · refine iff_of_false (fun h => ?_) fun h => h.1 hnamed
    obtain ⟨bound, hbound⟩ := h fun _ _ _ => .error ""
    have herror := hbound bound le_rfl
    rw [resolveGraph_of_named hnamed] at herror
    cases herror
  · simp only [resolveGraph_of_not_named hnamed, pathIn, hnamed, not_false_eq_true, true_and]
    obtain ⟨enough, hspec⟩ := shortestPathEvaluate_spec
      (SimpleGraph.fromDirectedEdges (rows.filterMap EdgeInput.edge)).view u v
    constructor
    · intro h
      obtain ⟨bound, hbound⟩ := h fun _ _ _ => .error ""
      obtain ⟨path, hpath, hreach, -⟩ := hspec (max enough bound) (le_max_left _ _)
      have hnull := hbound (max enough bound) (le_max_right _ _)
      rw [hpath] at hnull
      cases hnull
      exact hreach.1 rfl
    · intro hreach load
      refine ⟨enough, fun fuel hfuel => ?_⟩
      obtain ⟨path, hpath, hiff, -⟩ := hspec fuel hfuel
      rw [hpath, hiff.2 hreach]

lemma shortestPath_eq_iff (hperm : rows.Perm t.rows) :
    (∀ load, ∃ bound, ∀ fuel ≥ bound,
      (ShortestPathState.ofRows args t.rows t.endpoints).shortestPath load fuel =
        (ShortestPathState.ofRows args rows (!rows.isEmpty)).shortestPath load fuel) ↔
      EndpointsKept args t := by
  by_cases hsame : t.rows = [] ∨ t.endpoints = true
  · -- the endpoints are known on both sides or on none
    refine iff_of_true (fun load => ⟨0, fun fuel _ => ?_⟩) (hsame.imp_right Or.inl)
    rw [known_of_perm hperm t.endpoints_rows hsame, ShortestPathState.ofRows,
      ShortestPathState.ofRows, ShortestPathState.shortestPath, ShortestPathState.shortestPath,
      ← List.Perm.isEmpty_eq hperm]
    simp only [resolveGraph_of_perm hperm]
  simp only [not_or, Bool.not_eq_true] at hsame
  obtain ⟨hrows, hendpoints⟩ := hsame
  have hne : rows ≠ [] := by
    rintro rfl
    exact hrows hperm.nil_eq.symm
  have hknown : (!rows.isEmpty) = true := by simpa using hne
  -- without the endpoints the result is NULL
  have hnull (load fuel) : (ShortestPathState.ofRows args t.rows false).shortestPath load fuel =
      some (.ok none) := shortestPath_eq_null (.inl rfl)
  simp only [EndpointsKept, hrows, hendpoints, hnull, hknown, false_or, Bool.false_eq_true]
  cases hstart : args.start with
  | none =>
    refine iff_of_true (fun load => ⟨0, fun fuel _ => ?_⟩) (.inl rfl)
    exact (shortestPath_eq_null (.inl (by simp [ShortestPathState.ofRows, knownArg, hstart]))).symm
  | some u =>
    cases hstop : args.stop with
    | none =>
      refine iff_of_true (fun load => ⟨0, fun fuel _ => ?_⟩) (.inr (.inl rfl))
      exact (shortestPath_eq_null
        (.inr (by simp [ShortestPathState.ofRows, knownArg, hstop]))).symm
    | some v =>
      have hedge : (SimpleGraph.fromDirectedEdges (rows.filterMap EdgeInput.edge)).view.Edge =
          fun x y => (x, y) ∈ t.rows.filterMap EdgeInput.edge :=
        funext₂ fun _ _ => propext (edge_view hperm)
      rw [shortestPath_null_iff hstart hstop hne, hedge]
      simp

end Kept

/-- The results do not depend on the partitions exactly if the graph and the endpoints are known
where they are needed. -/
theorem partitionIndependent_iff (args : GraphArgs) (t : MergeTree EdgeInput) :
    PartitionIndependent args t ↔
      GraphKept args (t.accumulate mergeTrace) ∧ EndpointsKept args (t.accumulate mergeTrace) := by
  simp only [PartitionIndependent, MergeTree.accumulate_eq (image_shortestPathAccumulator args),
    MergeTree.accumulate_eq (image_triangleCountAccumulator args),
    MergeTree.accumulate_eq (image_sccAccumulator args)]
  generalize t.accumulate mergeTrace = trace
  constructor
  · intro h
    have hperm := List.Perm.refl trace.rows
    refine ⟨(triangleCount_eq_iff hperm).1 fun load => ?_,
      (shortestPath_eq_iff hperm).1 fun load => ?_⟩
    · obtain ⟨bound, hbound⟩ := h trace.rows hperm load
      exact (hbound bound le_rfl).2.1
    · obtain ⟨bound, hbound⟩ := h trace.rows hperm load
      exact ⟨bound, fun fuel hfuel => (hbound fuel hfuel).1⟩
  · rintro ⟨hgraph, hendpoints⟩ rows hperm load
    obtain ⟨bound, hbound⟩ := (shortestPath_eq_iff hperm).2 hendpoints load
    refine ⟨bound, fun fuel hfuel =>
      ⟨hbound fuel hfuel, (triangleCount_eq_iff hperm).2 hgraph load, ?_⟩⟩
    -- the graph is kept by every merge of `strongly_connected_components`
    have hresolve : (GraphBase.ofRows args rows (!rows.isEmpty)).resolveGraph load 1 =
        (GraphBase.ofRows args trace.rows (!rows.isEmpty)).resolveGraph load 1 :=
      resolveGraph_of_perm hperm _
    rw [GraphBase.components, GraphBase.components, MergeTrace.base,
      ← List.Perm.isEmpty_eq hperm, ← hresolve]
    rfl

/-- One edge. -/
def edgeOneTwo : List EdgeInput := [⟨some 1, some 2⟩]

/-- The edge is in the second of two partitions whose states are merged in one batch. -/
def secondPartition : MergeTree EdgeInput := .merge .new .new [.update .new edgeOneTwo]

/-- The edge is in the only partition. -/
def onePartition : MergeTree EdgeInput := .merge .new (.update .new edgeOneTwo) []

/-- The endpoints of the second state are not read, and neither is the graph of any state by
`triangle_count`. -/
theorem not_partitionIndependent :
    ¬ PartitionIndependent ⟨none, none, some 1, some 2⟩ secondPartition ∧
      ¬ PartitionIndependent ⟨some "graph", none, some 1, some 2⟩ onePartition := by
  constructor
  · intro h
    obtain ⟨bound, hbound⟩ := h edgeOneTwo (.refl _) fun _ _ _ => .error ""
    have hnull : some (Except.ok none) = some (Except.ok (some [1, 2])) :=
      (hbound (bound + 3) (by omega)).1
    cases hnull
  · intro h
    obtain ⟨bound, hbound⟩ := h edgeOneTwo (.refl _) fun _ _ _ => .error ""
    have hfound : Except.ok (some 0) = Except.error "graph_view failed: " :=
      (hbound bound le_rfl).2.1
    cases hfound

end BenoStreamDB

import BenoStreamDB.Foundations.Bfs
import BenoStreamDB.Segment.CsrGraph
import Mathlib.Data.Finset.Sort

/-!
# Graph queries

`graph_neighborhood`, `shortest_path_with_columns` and `subgraph_edges_with_columns` of
`table/graph.rs`. They search the graph indexes of the segments if one of them can be loaded, and
else the live rows of the table. The indexes hold the edges of the rows that a segment was written
with, so the two ways agree exactly if the loaded indexes have the live edges: `transparent_iff`.

Errors of reading the manifest or the rows are left out.
-/

namespace BenoStreamDB

/-! ### Tables of edges -/

inductive IdType where
  | uint64
  | int64
  | uint32
  | int32
  | other
  deriving DecidableEq

inductive IdCell where
  | int (v : ℤ)
  | text (s : String)
  deriving DecidableEq

abbrev EdgeRow := String → Option IdCell

/-- `extract_u64_values` in one slot. -/
def IdType.extract : IdType → Option IdCell → Option ℕ
  | .other, _ => none
  | _, some (.int v) => some (v % 2 ^ 64).toNat
  | _, _ => none

structure GraphIndexFile where
  filePath : String
  indexCategory : String
  columnName : String
  /-- Set for a blob of a Puffin file. -/
  blobOffset : Option ℕ
  deriving DecidableEq

structure GraphSegment where
  rows : List EdgeRow
  deleted : List ℕ
  indexFiles : List GraphIndexFile

structure GraphTable where
  schema : List (String × IdType)
  /-- The endpoint columns that the properties of the table declare. -/
  sourceColumn : Option String
  targetColumn : Option String
  segments : List GraphSegment
  /-- The rows of the write buffer. -/
  pending : List EdgeRow
  loadCsrFromPuffin : GraphIndexFile → Except String CsrGraph
  mmapSidecars : GraphIndexFile → Option CsrGraph
  /-- The order in which a hash set is iterated. -/
  iterate : Finset ℕ → List ℕ
  nodup_iterate : ∀ s, (iterate s).Nodup
  mem_iterate : ∀ s x, x ∈ iterate s ↔ x ∈ s

structure GraphNeighborhoodOptions where
  seeds : List ℕ := []
  hops : ℕ := 0
  directed : Bool := false
  allowedRelations : Option (List String) := none
  graphColumn : Option String := none
  maxDegree : Option ℕ := none
  maxNodes : Option ℕ := none
  sourceColumn : Option String := none
  targetColumn : Option String := none
  relationColumn : Option String := none

def GraphNeighborhoodOptions.caps (o : GraphNeighborhoodOptions) : Bfs.Caps where
  maxNodes := o.maxNodes
  maxDegree := o.maxDegree

/-! ### Graphs of several segments -/

/-- `MultiSegmentCsrGraph` -/
abbrev MultiGraph := List CsrGraph

namespace MultiGraph

variable (graphs : MultiGraph)

def getNeighbors (node : ℕ) : List ℕ := graphs.flatMap fun g => g.getNeighbors node

def getDegree (node : ℕ) : ℕ := (graphs.map fun g => g.getDegree node).sum

def allNodes : List ℕ := ((graphs.flatMap CsrGraph.allNodes).insertionSort (· ≤ ·)).dedup

def allEdges : List (ℕ × ℕ) :=
  (allNodes graphs).flatMap fun u => (getNeighbors graphs u).map fun v => (u, v)

/-- All nodes of the dictionaries. -/
def dictNodes : List ℕ := graphs.flatMap CsrGraph.dict

end MultiGraph

/-- The order of pairs of integers. -/
def pairLe (a b : ℕ × ℕ) : Prop := a.1 < b.1 ∨ a.1 = b.1 ∧ a.2 ≤ b.2

instance : DecidableRel pairLe := fun _ _ => inferInstanceAs (Decidable (_ ∨ _))

/-- A sorted vector of a hash set of edges. -/
def sortedEdges (edges : List (ℕ × ℕ)) : List (ℕ × ℕ) := edges.dedup.insertionSort pairLe

/-- The adjacency lists of edges. -/
def adjacency (directed : Bool) (edges : List (ℕ × ℕ)) (node : ℕ) : List ℕ :=
  edges.flatMap fun e =>
    (if e.1 = node then [e.2] else []) ++ (if !directed && e.2 == node then [e.1] else [])

def endpoints (edges : List (ℕ × ℕ)) : List ℕ := edges.flatMap fun e => [e.1, e.2]

namespace GraphTable

variable (t : GraphTable)

/-! ### Loading -/

/-- The index files of a column, the first one for each file. -/
def firstByPath : List String → List GraphIndexFile → List GraphIndexFile
  | _, [] => []
  | seen, idx :: rest =>
    if seen.contains idx.filePath then firstByPath seen rest
    else idx :: firstByPath (idx.filePath :: seen) rest

def loadSegmentGraph (idx : GraphIndexFile) : Option CsrGraph :=
  match idx.blobOffset with
  | some _ => (t.loadCsrFromPuffin idx).toOption
  | none => t.mmapSidecars idx

/-- `load_graph_indices` for one column: graphs that cannot be loaded are left out. -/
def loadGraphIndex (column : String) : Option MultiGraph :=
  let files := (t.segments.flatMap GraphSegment.indexFiles).filter fun idx =>
    idx.indexCategory == "graph_v2" && idx.columnName == column
  let graphs := (firstByPath [] files).filterMap t.loadSegmentGraph
  if graphs.isEmpty then none else some graphs

/-- The graphs of a search over the indexes: an undirected search needs a reverse index. -/
def fastPath (column : String) (directed : Bool) : Option (MultiGraph × Option MultiGraph) :=
  (t.loadGraphIndex column).bind fun forward =>
    let reverse := if directed then none else t.loadGraphIndex (column ++ "_rev")
    if directed || reverse.isSome then some (forward, reverse) else none

/-! ### Live rows -/

def liveRows : List EdgeRow :=
  (t.segments.flatMap fun s =>
    (s.rows.zipIdx.filter fun r => !s.deleted.contains r.2).map Prod.fst) ++ t.pending

/-- `read_async`, with a filter on the values of a column. -/
def read (filter : Option (String × List String)) : List EdgeRow :=
  match filter with
  | none => t.liveRows
  | some (column, values) => t.liveRows.filter fun row =>
    values.any fun v => row column == some (.text v)

def autoDetect (candidates : List String) (default : String) : String :=
  (candidates.find? fun c => t.schema.any fun f => f.1 == c).getD default

/-- `resolve_endpoint_columns` -/
def resolveEndpointColumns (source target : Option String) : String × String :=
  ((source.or t.sourceColumn).getD
      (t.autoDetect ["source", "src", "src_id", "from", "u"] "source"),
    (target.or t.targetColumn).getD
      (t.autoDetect ["target", "dst", "dst_id", "to", "v"] "target"))

/-- The edges of some rows. -/
def rowEdges (rows : List EdgeRow) (columns : String × String) : List (ℕ × ℕ) :=
  match t.schema.lookup columns.1, t.schema.lookup columns.2 with
  | some sourceType, some targetType =>
    rows.filterMap fun row =>
      (sourceType.extract (row columns.1)).bind fun u =>
        (targetType.extract (row columns.2)).map fun v => (u, v)
  | _, _ => []

/-! ### Neighbourhoods -/

def relationFilter (o : GraphNeighborhoodOptions) : Option (String × List String) :=
  o.allowedRelations.bind fun relations =>
    (o.relationColumn.or (["relation", "predicate", "type", "rel", "edge_type"].find? fun c =>
      t.schema.any fun f => f.1 == c)).map fun column => (column, relations)

/-- `graph_neighborhood_scan` -/
def graphNeighborhoodScan (o : GraphNeighborhoodOptions) : List ℕ :=
  let columns := t.resolveEndpointColumns o.sourceColumn o.targetColumn
  let edges := t.rowEdges (t.read (t.relationFilter o)) columns
  let adj := adjacency o.directed edges
  let st := o.seeds.foldl (Bfs.visit {}) (∅, [])
  (Bfs.queueLoop o.caps adj (fun node => (adj node).length) o.hops
    (o.seeds.length + (endpoints edges).length) st.1 (st.2.map fun x => (x, 0))).sort

/-- The neighbours in the forward and the reverse index. -/
def indexNeighbors (forward : MultiGraph) (reverse : Option MultiGraph) (node : ℕ) : List ℕ :=
  MultiGraph.getNeighbors forward node ++
    (reverse.map fun r => MultiGraph.getNeighbors r node).getD []

/-- `csr_bfs_visited` -/
def csrBfsVisited (forward : MultiGraph) (reverse : Option MultiGraph)
    (o : GraphNeighborhoodOptions) : List ℕ :=
  let degree node := MultiGraph.getDegree forward node +
    (reverse.map fun r => MultiGraph.getDegree r node).getD 0
  (Bfs.levels o.caps (indexNeighbors forward reverse) degree o.hops o.seeds.toFinset
    (t.iterate o.seeds.toFinset)).sort

/-- `graph_neighborhood` -/
def graphNeighborhood (o : GraphNeighborhoodOptions) : List ℕ :=
  if o.seeds.isEmpty then []
  else
    let graphs := if o.allowedRelations.isNone then
      o.graphColumn.bind fun column => t.fastPath column o.directed else none
    match graphs with
    | some (forward, reverse) => t.csrBfsVisited forward reverse o
    | none => t.graphNeighborhoodScan o

/-! ### Shortest paths -/

def maxShortestPathNodes : ℕ := 100000

def maxBfsDegree : ℕ := 10000

/-- `shortest_path_with_columns` -/
def shortestPathWithColumns (start stop : ℕ) (directed : Bool) (graphColumn : Option String)
    (sourceColumn targetColumn : Option String) : List ℕ :=
  if start = stop then [start]
  else
    match t.fastPath (graphColumn.getD "source") directed with
    | some (forward, reverse) =>
      let succ node := (MultiGraph.getNeighbors forward node).take maxBfsDegree ++
        (reverse.map fun r => (MultiGraph.getNeighbors r node).take maxBfsDegree).getD []
      Bfs.shortestPath maxShortestPathNodes succ
        ((MultiGraph.dictNodes (forward ++ reverse.getD [])).length + 1) start stop
    | none =>
      let edges := t.rowEdges (t.read none) (t.resolveEndpointColumns sourceColumn targetColumn)
      Bfs.shortestPath maxShortestPathNodes
        (fun node => (adjacency directed edges node).take maxBfsDegree)
        ((endpoints edges).length + 1) start stop

/-! ### Subgraphs -/

/-- `subgraph_edges_with_columns` -/
def subgraphEdgesWithColumns (seeds : List ℕ) (hops : ℕ) (directed : Bool)
    (maxDegree maxNodes : Option ℕ) (graphColumn sourceColumn targetColumn : Option String) :
    List (ℕ × ℕ) :=
  let columns := t.resolveEndpointColumns sourceColumn targetColumn
  let index := t.loadGraphIndex (graphColumn.getD columns.1)
  if seeds.isEmpty then
    match index with
    | some forward => (MultiGraph.allEdges forward).insertionSort pairLe
    | none => sortedEdges (t.rowEdges (t.read none) columns)
  else
    let nodes := t.graphNeighborhood
      { seeds, hops, directed, maxDegree, maxNodes, graphColumn, sourceColumn, targetColumn }
    if nodes.isEmpty then []
    else
      match index with
      | some forward => sortedEdges (nodes.flatMap fun u =>
          ((MultiGraph.getNeighbors forward u).filter fun v =>
            nodes.contains v).map fun v => (u, v))
      | none => sortedEdges ((t.rowEdges (t.read none) columns).filter fun e =>
          nodes.contains e.1 && nodes.contains e.2)

/-! ### Transparent indexes -/

/-- The table without its graph indexes, where all queries scan the live rows. -/
def unindexed : GraphTable :=
  { t with segments := t.segments.map fun s => { s with indexFiles := [] } }

/-- Every query without caps gives the same answer with and without the indexes. -/
def Transparent (graphColumn sourceColumn targetColumn : Option String) : Prop :=
  (∀ o : GraphNeighborhoodOptions, o.graphColumn = graphColumn → o.sourceColumn = sourceColumn →
    o.targetColumn = targetColumn → o.maxDegree = none → o.maxNodes = none →
      t.graphNeighborhood o = t.unindexed.graphNeighborhood o) ∧
  (∀ start stop directed,
    (t.shortestPathWithColumns start stop directed graphColumn sourceColumn targetColumn).length =
      (t.unindexed.shortestPathWithColumns start stop directed graphColumn sourceColumn
        targetColumn).length) ∧
  ∀ seeds hops directed,
    t.subgraphEdgesWithColumns seeds hops directed none none graphColumn sourceColumn
        targetColumn =
      t.unindexed.subgraphEdgesWithColumns seeds hops directed none none graphColumn sourceColumn
        targetColumn

/-- The live edges. -/
def liveEdges (columns : String × String) : List (ℕ × ℕ) := t.rowEdges t.liveRows columns

/-- The node `v` is a neighbour of `u` by some edges. -/
def Joined (directed : Bool) (edges : List (ℕ × ℕ)) (u v : ℕ) : Prop :=
  (u, v) ∈ edges ∨ directed = false ∧ (v, u) ∈ edges

/-- The indexes that a search uses join the same distinct nodes as the live edges. -/
def PathsAgree (column : String) (edges : List (ℕ × ℕ)) : Prop :=
  ∀ directed forward reverse, t.fastPath column directed = some (forward, reverse) →
    ∀ u v, u ≠ v → (v ∈ indexNeighbors forward reverse u ↔ Joined directed edges u v)

/-- The index of a column has the live edges, each of them once. -/
def EdgesAgree (column : String) (edges : List (ℕ × ℕ)) : Prop :=
  ∀ forward, t.loadGraphIndex column = some forward → ∀ u,
    (MultiGraph.getNeighbors forward u).Nodup ∧
      ∀ v, v ∈ MultiGraph.getNeighbors forward u ↔ (u, v) ∈ edges

/-- The caps that are built into the search for shortest paths are not reached. -/
structure Uncapped (column : String) (edges : List (ℕ × ℕ)) : Prop where
  nodes : ∀ directed forward reverse, t.fastPath column directed = some (forward, reverse) →
    (MultiGraph.dictNodes (forward ++ reverse.getD [])).toFinset.card + 1 < maxShortestPathNodes
  degree : ∀ directed forward reverse, t.fastPath column directed = some (forward, reverse) →
    ∀ u, (MultiGraph.getNeighbors forward u).length ≤ maxBfsDegree ∧
      ∀ r ∈ reverse, (MultiGraph.getNeighbors r u).length ≤ maxBfsDegree
  liveNodes : (endpoints edges).toFinset.card + 1 < maxShortestPathNodes
  liveDegree : ∀ directed u, (adjacency directed edges u).length ≤ maxBfsDegree

end GraphTable

/-! ### Edges -/

lemma mem_adjacency {directed : Bool} {edges : List (ℕ × ℕ)} {u v : ℕ} :
    v ∈ adjacency directed edges u ↔ GraphTable.Joined directed edges u v := by
  simp only [adjacency, List.mem_flatMap, List.mem_append, GraphTable.Joined]
  constructor
  · rintro ⟨⟨a, b⟩, he, h | h⟩
    · split_ifs at h with hu
      · obtain rfl := List.mem_singleton.1 h
        exact Or.inl (hu ▸ he)
      · exact absurd h List.not_mem_nil
    · split_ifs at h with hu
      · obtain rfl := List.mem_singleton.1 h
        rw [Bool.and_eq_true, Bool.not_eq_true', beq_iff_eq] at hu
        exact Or.inr ⟨hu.1, hu.2 ▸ he⟩
      · exact absurd h List.not_mem_nil
  · rintro (he | ⟨rfl, he⟩)
    · exact ⟨(u, v), he, Or.inl (by simp)⟩
    · exact ⟨(v, u), he, Or.inr (by simp)⟩

lemma mem_endpoints_of_mem_adjacency {directed : Bool} {edges : List (ℕ × ℕ)} {u v : ℕ}
    (h : v ∈ adjacency directed edges u) : v ∈ endpoints edges := by
  rcases mem_adjacency.1 h with he | ⟨-, he⟩
  · exact List.mem_flatMap.2 ⟨(u, v), he, by simp⟩
  · exact List.mem_flatMap.2 ⟨(v, u), he, by simp⟩

instance : Std.Total pairLe := ⟨fun a b => by
  unfold pairLe
  omega⟩

instance : IsTrans (ℕ × ℕ) pairLe := ⟨fun a b c hab hbc => by
  unfold pairLe at *
  omega⟩

lemma pairLe_antisymm {a b : ℕ × ℕ} (hab : pairLe a b) (hba : pairLe b a) : a = b := by
  unfold pairLe at *
  exact Prod.ext (by omega) (by omega)

/-- Sorted vectors are equal if they hold the same edges. -/
lemma insertionSort_eq_iff {a b : List (ℕ × ℕ)} :
    a.insertionSort pairLe = b.insertionSort pairLe ↔ a.Perm b := by
  constructor
  · intro h
    exact (List.perm_insertionSort pairLe a).symm.trans (h ▸ List.perm_insertionSort pairLe b)
  · intro h
    have hperm := (List.perm_insertionSort pairLe a).trans
      (h.trans (List.perm_insertionSort pairLe b).symm)
    exact hperm.eq_of_pairwise (fun _ _ _ _ => pairLe_antisymm)
      (List.pairwise_insertionSort _ _) (List.pairwise_insertionSort _ _)

lemma sortedEdges_eq_iff {a b : List (ℕ × ℕ)} :
    sortedEdges a = sortedEdges b ↔ ∀ e, e ∈ a ↔ e ∈ b := by
  rw [sortedEdges, sortedEdges, insertionSort_eq_iff,
    List.perm_ext_iff_of_nodup (List.nodup_dedup a) (List.nodup_dedup b)]
  simp only [List.mem_dedup]

/-- A sorted vector of edges equals one without duplicates. -/
lemma insertionSort_eq_sortedEdges_iff {a b : List (ℕ × ℕ)} :
    a.insertionSort pairLe = sortedEdges b ↔ a.Nodup ∧ ∀ e, e ∈ a ↔ e ∈ b := by
  rw [sortedEdges, insertionSort_eq_iff]
  constructor
  · intro h
    refine ⟨h.nodup_iff.2 (List.nodup_dedup b), fun e => ?_⟩
    rw [h.mem_iff, List.mem_dedup]
  · rintro ⟨hnodup, hmem⟩
    rw [List.perm_ext_iff_of_nodup hnodup (List.nodup_dedup b)]
    exact fun e => (hmem e).trans List.mem_dedup.symm

namespace MultiGraph

variable {graphs : MultiGraph}

lemma mem_dictNodes_of_mem_getNeighbors {u v : ℕ} (h : v ∈ getNeighbors graphs u) :
    v ∈ dictNodes graphs := by
  obtain ⟨g, hg, hv⟩ := List.mem_flatMap.1 h
  exact List.mem_flatMap.2 ⟨g, hg, g.mem_dict_of_mem_getNeighbors hv⟩

lemma mem_allNodes_of_mem_getNeighbors {u v : ℕ} (h : v ∈ getNeighbors graphs u) :
    u ∈ allNodes graphs := by
  obtain ⟨g, hg, hv⟩ := List.mem_flatMap.1 h
  rw [allNodes, List.mem_dedup, List.mem_insertionSort]
  exact List.mem_flatMap.2 ⟨g, hg, g.mem_allNodes_of_mem_getNeighbors hv⟩

lemma mem_allEdges {e : ℕ × ℕ} : e ∈ allEdges graphs ↔ e.2 ∈ getNeighbors graphs e.1 := by
  simp only [allEdges, List.mem_flatMap, List.mem_map]
  constructor
  · rintro ⟨u, -, v, hv, rfl⟩
    exact hv
  · exact fun h => ⟨e.1, mem_allNodes_of_mem_getNeighbors h, e.2, h, rfl⟩

lemma nodup_allEdges_iff : (allEdges graphs).Nodup ↔ ∀ u, (getNeighbors graphs u).Nodup := by
  rw [allEdges, List.nodup_flatMap]
  constructor
  · rintro ⟨hparts, -⟩ u
    by_cases hu : u ∈ allNodes graphs
    · exact List.Nodup.of_map _ (hparts u hu)
    · have hnone : getNeighbors graphs u = [] := by
        rw [List.eq_nil_iff_forall_not_mem]
        exact fun v hv => hu (mem_allNodes_of_mem_getNeighbors hv)
      rw [hnone]
      exact List.nodup_nil
  · intro h
    refine ⟨fun u _ => (h u).map fun _ _ heq => congrArg Prod.snd heq, ?_⟩
    refine (List.nodup_dedup _).imp fun hne e he he' => hne ?_
    obtain ⟨v, -, rfl⟩ := List.mem_map.1 he
    obtain ⟨w, -, heq⟩ := List.mem_map.1 he'
    exact (congrArg Prod.fst heq).symm

end MultiGraph

namespace GraphTable

variable {t : GraphTable}

/-! ### Without indexes -/

@[simp]
lemma loadGraphIndex_unindexed (column : String) : t.unindexed.loadGraphIndex column = none := by
  have hfiles : t.unindexed.segments.flatMap GraphSegment.indexFiles = [] := by
    simp [unindexed, List.flatMap_map]
  simp [loadGraphIndex, hfiles, firstByPath]

@[simp]
lemma fastPath_unindexed (column : String) (directed : Bool) :
    t.unindexed.fastPath column directed = none := by
  simp [fastPath]

@[simp]
lemma liveRows_unindexed : t.unindexed.liveRows = t.liveRows := by
  simp [liveRows, unindexed, List.flatMap_map]

@[simp]
lemma read_unindexed (filter : Option (String × List String)) :
    t.unindexed.read filter = t.read filter := by
  cases filter with
  | none => exact liveRows_unindexed
  | some f => simp only [read, liveRows_unindexed]

lemma graphNeighborhoodScan_unindexed (o : GraphNeighborhoodOptions) :
    t.unindexed.graphNeighborhoodScan o = t.graphNeighborhoodScan o := by
  simp only [graphNeighborhoodScan, read_unindexed]
  rfl

/-! ### What the searches find -/

section Searches

variable {o : GraphNeighborhoodOptions} {forward : MultiGraph} {reverse : Option MultiGraph}

lemma mem_indexNeighbors {u v : ℕ} : v ∈ indexNeighbors forward reverse u ↔
    v ∈ MultiGraph.getNeighbors forward u ∨ ∃ r ∈ reverse, v ∈ MultiGraph.getNeighbors r u := by
  rw [indexNeighbors, List.mem_append]
  cases reverse <;> simp

lemma mem_dictNodes_of_mem_indexNeighbors {u v : ℕ} (h : v ∈ indexNeighbors forward reverse u) :
    v ∈ MultiGraph.dictNodes (forward ++ reverse.getD []) := by
  rw [MultiGraph.dictNodes, List.flatMap_append, List.mem_append]
  rcases mem_indexNeighbors.1 h with hv | ⟨r, hr, hv⟩
  · exact Or.inl (MultiGraph.mem_dictNodes_of_mem_getNeighbors hv)
  · obtain rfl : reverse = some r := hr
    exact Or.inr (MultiGraph.mem_dictNodes_of_mem_getNeighbors hv)

/-- The search over the indexes finds the nodes within the hops. -/
lemma exists_csrBfsVisited (t : GraphTable) (forward : MultiGraph) (reverse : Option MultiGraph)
    (hdegree : o.maxDegree = none) (hnodes : o.maxNodes = none) :
    ∃ found : Finset ℕ, t.csrBfsVisited forward reverse o = found.sort ∧
      ∀ x, x ∈ found ↔ Bfs.Within (indexNeighbors forward reverse) o.seeds o.hops x := by
  have hcaps : o.caps = {} := by rw [GraphNeighborhoodOptions.caps, hdegree, hnodes]
  rw [csrBfsVisited, hcaps]
  refine ⟨_, rfl, Bfs.mem_levels _ _ _ (fun y => List.mem_toFinset) fun y => ?_⟩
  rw [t.mem_iterate, List.mem_toFinset]

/-- The scan finds the nodes within the hops. -/
lemma exists_graphNeighborhoodScan (t : GraphTable) (hdegree : o.maxDegree = none)
    (hnodes : o.maxNodes = none) (hrelations : o.allowedRelations = none) :
    ∃ found : Finset ℕ, t.graphNeighborhoodScan o = found.sort ∧ ∀ x, x ∈ found ↔
      Bfs.Within (adjacency o.directed
        (t.liveEdges (t.resolveEndpointColumns o.sourceColumn o.targetColumn)))
        o.seeds o.hops x := by
  have hcaps : o.caps = {} := by rw [GraphNeighborhoodOptions.caps, hdegree, hnodes]
  have hfilter : t.relationFilter o = none := by rw [relationFilter, hrelations]; rfl
  obtain ⟨new, hnew⟩ := Bfs.exists_adds ∅ o.seeds
  have hmem : ∀ x, x ∈ new ↔ x ∈ o.seeds := by
    intro x
    rw [(hnew []).mem]
    simp
  have hvisited : ∀ x, x ∈ ∅ ∪ new.toFinset ↔ x ∈ o.seeds := by
    intro x
    simp [hmem]
  simp only [graphNeighborhoodScan, hcaps, hfilter, read, (hnew []).result, List.nil_append]
  refine ⟨_, rfl, ?_⟩
  let edges := t.liveEdges (t.resolveEndpointColumns o.sourceColumn o.targetColumn)
  have hclosed : ∀ u, ∀ v ∈ adjacency o.directed edges u,
      v ∈ (o.seeds ++ endpoints edges).toFinset := fun u v hv =>
    List.mem_toFinset.2 (List.mem_append_right _ (mem_endpoints_of_mem_adjacency hv))
  refine Bfs.mem_queueLoop _ _ _ hclosed (fun y hy => ?_) hvisited hmem (hnew []).nodup ?_
  · exact List.mem_toFinset.2 (List.mem_append_left _ hy)
  · refine (List.toFinset_card_le _).trans ?_
    rw [List.length_append]
    rfl

/-- The search over the indexes finds shortest paths. -/
lemma pathLength_of_fastPath {column : String} {edges : List (ℕ × ℕ)} {directed : Bool}
    {graphColumn : Option String} (hcolumn : graphColumn.getD "source" = column)
    (hcapped : t.Uncapped column edges)
    (hfast : t.fastPath column directed = some (forward, reverse))
    {start stop : ℕ} (hne : start ≠ stop) (sourceColumn targetColumn : Option String) :
    Bfs.PathLength (indexNeighbors forward reverse) start stop
      (t.shortestPathWithColumns start stop directed graphColumn sourceColumn
        targetColumn).length := by
  have hdegree := hcapped.degree directed forward reverse hfast
  have hsucc : (fun node => (MultiGraph.getNeighbors forward node).take maxBfsDegree ++
      (reverse.map fun r => (MultiGraph.getNeighbors r node).take maxBfsDegree).getD []) =
        indexNeighbors forward reverse := by
    funext node
    rw [indexNeighbors, List.take_of_length_le (hdegree node).1]
    cases reverse with
    | none => rfl
    | some r =>
      rw [Option.map_some, Option.map_some, List.take_of_length_le ((hdegree node).2 r rfl)]
  rw [shortestPathWithColumns, if_neg hne, hcolumn, hfast]
  simp only [hsucc]
  let nodes := MultiGraph.dictNodes (forward ++ reverse.getD [])
  have hcard : (insert start nodes.toFinset).card ≤ nodes.toFinset.card + 1 :=
    Finset.card_insert_le _ _
  refine Bfs.length_shortestPath (hcard.trans_lt (hcapped.nodes directed forward reverse hfast))
    (fun u v hv => Finset.mem_insert_of_mem (List.mem_toFinset.2
      (mem_dictNodes_of_mem_indexNeighbors hv)))
    (Finset.mem_insert_self _ _) (hcard.trans ?_) stop
  exact Nat.succ_le_succ (List.toFinset_card_le _)

/-- The scan finds shortest paths. -/
lemma pathLength_of_unindexed {column : String} {directed : Bool}
    {sourceColumn targetColumn : Option String}
    (hcapped : t.Uncapped column
      (t.liveEdges (t.resolveEndpointColumns sourceColumn targetColumn)))
    {start stop : ℕ} (hne : start ≠ stop) (graphColumn : Option String) :
    Bfs.PathLength (adjacency directed
      (t.liveEdges (t.resolveEndpointColumns sourceColumn targetColumn))) start stop
      (t.unindexed.shortestPathWithColumns start stop directed graphColumn sourceColumn
        targetColumn).length := by
  let edges := t.liveEdges (t.resolveEndpointColumns sourceColumn targetColumn)
  have hsucc : (fun node => (adjacency directed edges node).take maxBfsDegree) =
      adjacency directed edges := by
    funext node
    exact List.take_of_length_le (hcapped.liveDegree directed node)
  rw [shortestPathWithColumns, if_neg hne, fastPath_unindexed, read_unindexed]
  show Bfs.PathLength _ _ _ (Bfs.shortestPath _ (fun node =>
    (adjacency directed edges node).take maxBfsDegree) _ _ _).length
  rw [hsucc]
  have hcard : (insert start (endpoints edges).toFinset).card ≤
      (endpoints edges).toFinset.card + 1 := Finset.card_insert_le _ _
  refine Bfs.length_shortestPath (hcard.trans_lt hcapped.liveNodes)
    (fun u v hv => Finset.mem_insert_of_mem (List.mem_toFinset.2
      (mem_endpoints_of_mem_adjacency hv)))
    (Finset.mem_insert_self _ _) (hcard.trans ?_) stop
  exact Nat.succ_le_succ (List.toFinset_card_le _)

end Searches

/-! ### The two ways agree -/

section Agree

variable {column : String} {edges : List (ℕ × ℕ)}
  {graphColumn sourceColumn targetColumn : Option String}

lemma PathsAgree.within_iff (h : t.PathsAgree column edges) {directed : Bool} {forward : MultiGraph}
    {reverse : Option MultiGraph} (hfast : t.fastPath column directed = some (forward, reverse))
    (seeds : List ℕ) (hops x : ℕ) :
    Bfs.Within (indexNeighbors forward reverse) seeds hops x ↔
      Bfs.Within (adjacency directed edges) seeds hops x := by
  refine Bfs.within_congr (fun u v hne => ?_) seeds hops x
  rw [h directed forward reverse hfast u v hne, mem_adjacency]

/-- If the indexes join the nodes of the live edges, the neighbourhoods are those of the scan. -/
lemma PathsAgree.graphNeighborhood_eq {o : GraphNeighborhoodOptions}
    (h : t.PathsAgree (o.graphColumn.getD "source")
      (t.liveEdges (t.resolveEndpointColumns o.sourceColumn o.targetColumn)))
    (hdegree : o.maxDegree = none) (hnodes : o.maxNodes = none) :
    t.graphNeighborhood o = t.unindexed.graphNeighborhood o := by
  have hscan : t.unindexed.graphNeighborhood o =
      if o.seeds.isEmpty then [] else t.graphNeighborhoodScan o := by
    simp only [graphNeighborhood, fastPath_unindexed, Option.bind_fun_none, ite_self,
      graphNeighborhoodScan_unindexed]
  rw [hscan, graphNeighborhood]
  refine ite_congr rfl (fun _ => rfl) fun _ => ?_
  cases hrelations : o.allowedRelations with
  | some relations => rfl
  | none =>
    cases hcolumn : o.graphColumn with
    | none => rfl
    | some column =>
      rw [hcolumn] at h
      cases hfast : t.fastPath column o.directed with
      | none => simp [hfast]
      | some graphs =>
        obtain ⟨found, heq, hfound⟩ := exists_csrBfsVisited t graphs.1 graphs.2 hdegree hnodes
        obtain ⟨found', heq', hfound'⟩ := exists_graphNeighborhoodScan t hdegree hnodes hrelations
        have hsame : found = found' := by
          ext x
          rw [hfound, hfound', h.within_iff hfast]
        simp only [Option.isNone_none, if_true, Option.bind_some, hfast, heq, heq', hsame]

lemma PathsAgree.length_eq
    (h : t.PathsAgree (graphColumn.getD "source")
      (t.liveEdges (t.resolveEndpointColumns sourceColumn targetColumn)))
    (hcapped : t.Uncapped (graphColumn.getD "source")
      (t.liveEdges (t.resolveEndpointColumns sourceColumn targetColumn)))
    (start stop : ℕ) (directed : Bool) :
    (t.shortestPathWithColumns start stop directed graphColumn sourceColumn targetColumn).length =
      (t.unindexed.shortestPathWithColumns start stop directed graphColumn sourceColumn
        targetColumn).length := by
  by_cases hne : start = stop
  · simp only [shortestPathWithColumns, if_pos hne]
  cases hfast : t.fastPath (graphColumn.getD "source") directed with
  | none =>
    simp only [shortestPathWithColumns, hfast, fastPath_unindexed, read_unindexed]
    rfl
  | some graphs =>
    refine Bfs.PathLength.eq
      (pathLength_of_fastPath rfl hcapped hfast hne sourceColumn targetColumn)
      (pathLength_of_unindexed hcapped hne _) fun m => ?_
    exact h.within_iff hfast _ _ _

/-- The edges of an index between some nodes. -/
lemma mem_flatMap_getNeighbors {forward : MultiGraph} {nodes : List ℕ} {e : ℕ × ℕ} :
    e ∈ nodes.flatMap (fun u => ((MultiGraph.getNeighbors forward u).filter fun v =>
        nodes.contains v).map fun v => (u, v)) ↔
      e.2 ∈ MultiGraph.getNeighbors forward e.1 ∧ e.1 ∈ nodes ∧ e.2 ∈ nodes := by
  simp only [List.mem_flatMap, List.mem_map, List.mem_filter, List.contains_iff_mem]
  constructor
  · rintro ⟨u, hu, v, ⟨hv, hnode⟩, rfl⟩
    exact ⟨hv, hu, hnode⟩
  · rintro ⟨hv, hu, hnode⟩
    exact ⟨e.1, hu, e.2, ⟨hv, hnode⟩, rfl⟩

/-- If also the edges agree, the subgraphs are those of the scan. -/
lemma EdgesAgree.subgraphEdges_eq
    (hpaths : t.PathsAgree (graphColumn.getD "source")
      (t.liveEdges (t.resolveEndpointColumns sourceColumn targetColumn)))
    (h : t.EdgesAgree (graphColumn.getD (t.resolveEndpointColumns sourceColumn targetColumn).1)
      (t.liveEdges (t.resolveEndpointColumns sourceColumn targetColumn)))
    (seeds : List ℕ) (hops : ℕ) (directed : Bool) :
    t.subgraphEdgesWithColumns seeds hops directed none none graphColumn sourceColumn
        targetColumn =
      t.unindexed.subgraphEdgesWithColumns seeds hops directed none none graphColumn sourceColumn
        targetColumn := by
  simp only [subgraphEdgesWithColumns, loadGraphIndex_unindexed, read_unindexed,
    ← PathsAgree.graphNeighborhood_eq (o := ⟨seeds, hops, directed, none, graphColumn, none, none,
      sourceColumn, targetColumn, none⟩) hpaths rfl rfl]
  cases hload : t.loadGraphIndex
      (graphColumn.getD (t.resolveEndpointColumns sourceColumn targetColumn).1) with
  | none => rfl
  | some forward =>
    refine ite_congr rfl (fun _ => ?_) fun _ => ite_congr rfl (fun _ => rfl) fun _ => ?_
    · refine insertionSort_eq_sortedEdges_iff.2 ⟨?_, fun e => ?_⟩
      · exact MultiGraph.nodup_allEdges_iff.2 fun u => (h forward hload u).1
      · rw [MultiGraph.mem_allEdges, (h forward hload e.1).2]
        rfl
    · refine sortedEdges_eq_iff.2 fun e => ?_
      rw [mem_flatMap_getNeighbors, List.mem_filter, (h forward hload e.1).2, Bool.and_eq_true,
        List.contains_iff_mem, List.contains_iff_mem]
      rfl

lemma Transparent.pathsAgree (h : t.Transparent graphColumn sourceColumn targetColumn)
    (hcapped : t.Uncapped (graphColumn.getD "source")
      (t.liveEdges (t.resolveEndpointColumns sourceColumn targetColumn))) :
    t.PathsAgree (graphColumn.getD "source")
      (t.liveEdges (t.resolveEndpointColumns sourceColumn targetColumn)) := by
  -- Two distinct nodes are joined if the path between them has two nodes.
  intro directed forward reverse hfast u v hne
  rw [← mem_adjacency, ← (pathLength_of_unindexed hcapped hne
      graphColumn).eq_two_iff hne, ← (pathLength_of_fastPath rfl hcapped hfast hne sourceColumn
      targetColumn).eq_two_iff hne, h.2.1 u v directed]

lemma Transparent.edgesAgree (h : t.Transparent graphColumn sourceColumn targetColumn) :
    t.EdgesAgree (graphColumn.getD (t.resolveEndpointColumns sourceColumn targetColumn).1)
      (t.liveEdges (t.resolveEndpointColumns sourceColumn targetColumn)) := by
  -- Without seeds, all edges of the index are listed.
  intro forward hload u
  have hall := h.2.2 [] 0 false
  simp only [subgraphEdgesWithColumns, List.isEmpty_nil, if_true, hload, loadGraphIndex_unindexed,
    read_unindexed] at hall
  obtain ⟨hnodup, hmem⟩ := insertionSort_eq_sortedEdges_iff.1 hall
  refine ⟨MultiGraph.nodup_allEdges_iff.1 hnodup u, fun v => ?_⟩
  rw [← MultiGraph.mem_allEdges (e := (u, v)), hmem]
  rfl

end Agree

/-! ### Fresh indexes -/

section Fresh

variable {columns : String × String}

lemma rowEdges_flatMap {α : Type} (l : List α) (rows : α → List EdgeRow) :
    t.rowEdges (l.flatMap rows) columns = l.flatMap fun x => t.rowEdges (rows x) columns := by
  rw [rowEdges]
  cases hsource : t.schema.lookup columns.1 with
  | none => simp [rowEdges, hsource]
  | some sourceType =>
    cases htarget : t.schema.lookup columns.2 with
    | none => simp [rowEdges, hsource, htarget]
    | some targetType => simp only [rowEdges, hsource, htarget, List.filterMap_flatMap]

/-- The graphs that `build_graph_index` makes of the edges of the segments. The columns are of
64-bit integers; values of other types are hashed there. -/
def builtGraphs (S : UnstableSort) (columns : String × String) : MultiGraph :=
  t.segments.map fun s => buildFromFile S (t.rowEdges s.rows columns)

/-- The neighbours in fresh graphs are those of the rows of all segments. -/
lemma perm_getNeighbors_builtGraphs (S : UnstableSort) (u : ℕ) :
    (MultiGraph.getNeighbors (t.builtGraphs S columns) u).Perm
      (((t.rowEdges (t.segments.flatMap GraphSegment.rows) columns).filter fun e =>
        e.1 == u).map Prod.snd) := by
  rw [MultiGraph.getNeighbors, builtGraphs, List.flatMap_map, rowEdges_flatMap, List.filter_flatMap,
    List.map_flatMap]
  exact List.Perm.flatMap_left _ fun s _ => perm_getNeighbors_build S _ u

/-- No row was deleted since the segments were written, and none waits in the buffer. -/
structure Unchanged : Prop where
  deleted : ∀ s ∈ t.segments, s.deleted = []
  pending : t.pending = []

lemma Unchanged.liveRows_eq (h : t.Unchanged) :
    t.liveRows = t.segments.flatMap GraphSegment.rows := by
  rw [liveRows, h.pending, List.append_nil]
  refine List.flatMap_congr fun s hs => ?_
  simp [h.deleted s hs]

lemma Unchanged.perm_getNeighbors (h : t.Unchanged) (S : UnstableSort) (columns : String × String)
    (u : ℕ) : (MultiGraph.getNeighbors (t.builtGraphs S columns) u).Perm
      (((t.liveEdges columns).filter fun e => e.1 == u).map Prod.snd) := by
  rw [liveEdges, h.liveRows_eq]
  exact perm_getNeighbors_builtGraphs S u

lemma Unchanged.mem_getNeighbors (h : t.Unchanged) {S : UnstableSort} {u v : ℕ} :
    v ∈ MultiGraph.getNeighbors (t.builtGraphs S columns) u ↔ (u, v) ∈ t.liveEdges columns := by
  rw [(h.perm_getNeighbors S columns u).mem_iff]
  simp

/-- Fresh indexes have the live edges, if no edge is there twice. -/
lemma Unchanged.edgesAgree (h : t.Unchanged) {S : UnstableSort} {column : String}
    (hload : t.loadGraphIndex column = some (t.builtGraphs S columns))
    (hnodup : (t.liveEdges columns).Nodup) : t.EdgesAgree column (t.liveEdges columns) := by
  intro forward hforward u
  obtain rfl : t.builtGraphs S columns = forward := Option.some.inj (hload.symm.trans hforward)
  have hperm := h.perm_getNeighbors S columns u
  constructor
  · refine hperm.nodup_iff.2 (List.Nodup.map_on ?_ (hnodup.filter _))
    rintro ⟨a, v⟩ ha ⟨b, w⟩ hb rfl
    have hau : a = u := by simpa using (List.mem_filter.1 ha).2
    have hbu : b = u := by simpa using (List.mem_filter.1 hb).2
    rw [hau, hbu]
  · exact fun v => h.mem_getNeighbors

lemma Unchanged.length_getNeighbors_le (h : t.Unchanged) (S : UnstableSort)
    (columns : String × String) (u : ℕ) :
    (MultiGraph.getNeighbors (t.builtGraphs S columns) u).length ≤
      (t.liveEdges columns).length := by
  rw [(h.perm_getNeighbors S columns u).length_eq, List.length_map]
  exact List.length_filter_le _ _

lemma mem_rowEdges_swap {rows : List EdgeRow} {u v : ℕ} :
    (v, u) ∈ t.rowEdges rows columns.swap ↔ (u, v) ∈ t.rowEdges rows columns := by
  simp only [rowEdges, Prod.fst_swap, Prod.snd_swap]
  cases t.schema.lookup columns.1 with
  | none => cases t.schema.lookup columns.2 <;> simp
  | some sourceType =>
    cases t.schema.lookup columns.2 with
    | none => simp
    | some targetType =>
      simp only [List.mem_filterMap, Option.bind_eq_some_iff, Option.map_eq_some_iff, Prod.mk.injEq]
      refine exists_congr fun row => and_congr_right fun _ => ?_
      constructor
      · rintro ⟨a, ha, b, hb, rfl, rfl⟩
        exact ⟨b, hb, a, ha, rfl, rfl⟩
      · rintro ⟨b, hb, a, ha, rfl, rfl⟩
        exact ⟨a, ha, b, hb, rfl, rfl⟩

/-- Fresh indexes in both directions join the nodes of the live edges. -/
lemma Unchanged.pathsAgree (h : t.Unchanged) {S : UnstableSort} {column : String}
    (hload : t.loadGraphIndex column = some (t.builtGraphs S columns))
    (hreverse : t.loadGraphIndex (column ++ "_rev") = some (t.builtGraphs S columns.swap)) :
    t.PathsAgree column (t.liveEdges columns) := by
  intro directed forward reverse hfast u v _
  simp only [fastPath, hload, hreverse, Option.bind_some] at hfast
  rw [mem_indexNeighbors]
  cases directed with
  | true =>
    obtain ⟨rfl, rfl⟩ : t.builtGraphs S columns = forward ∧ none = reverse := by simpa using hfast
    simp [h.mem_getNeighbors, Joined]
  | false =>
    obtain ⟨rfl, rfl⟩ : t.builtGraphs S columns = forward ∧
        some (t.builtGraphs S columns.swap) = reverse := by simpa using hfast
    have hswap : (u, v) ∈ t.liveEdges columns.swap ↔ (v, u) ∈ t.liveEdges columns :=
      mem_rowEdges_swap
    simp [h.mem_getNeighbors, Joined, hswap]

end Fresh

end GraphTable

/-! ### Two tables with one edge -/

instance total_source : Std.Total fun a b : ℕ × ℕ => a.1 ≤ b.1 := ⟨fun a b => Nat.le_total a.1 b.1⟩

instance isTrans_source : IsTrans (ℕ × ℕ) fun a b => a.1 ≤ b.1 := ⟨fun _ _ _ => Nat.le_trans⟩

lemma pairwise_insertionSort_source (l : List (ℕ × ℕ)) :
    (l.insertionSort fun a b => a.1 ≤ b.1).Pairwise fun a b => a.1 ≤ b.1 :=
  List.pairwise_insertionSort _ l

/-- An insertion sort by source. -/
def sortBySource : UnstableSort where
  bySource l := l.insertionSort fun a b => a.1 ≤ b.1
  perm := List.perm_insertionSort _
  sorted := pairwise_insertionSort_source

def oneTwo : EdgeRow := fun column =>
  if column = "source" then some (.int 1) else if column = "target" then some (.int 2) else none

/-- One segment with the edge from 1 to 2, indexed in both directions, where the given rows are
deleted. -/
def edgeTable (deleted : List ℕ) : GraphTable where
  schema := [("source", .uint64), ("target", .uint64)]
  sourceColumn := none
  targetColumn := none
  segments := [
    { rows := [oneTwo]
      deleted := deleted
      indexFiles := [⟨"a.puffin", "graph_v2", "source", some 4⟩,
        ⟨"a.puffin", "graph_v2", "source_rev", some 92⟩] }]
  pending := []
  loadCsrFromPuffin idx := .ok (buildFromFile sortBySource
    (if idx.columnName = "source" then [(1, 2)] else [(2, 1)]))
  mmapSidecars _ := none
  iterate s := s.sort
  nodup_iterate s := s.sort_nodup _
  mem_iterate s x := s.mem_sort _

lemma loadGraphIndex_edgeTable : (edgeTable []).loadGraphIndex "source" =
    some ((edgeTable []).builtGraphs sortBySource ("source", "target")) := rfl

lemma loadGraphIndex_rev_edgeTable : (edgeTable []).loadGraphIndex ("source" ++ "_rev") =
    some ((edgeTable []).builtGraphs sortBySource ("target", "source")) := rfl

lemma liveEdges_edgeTable : (edgeTable []).liveEdges ("source", "target") = [(1, 2)] := rfl

lemma unchanged_edgeTable : (edgeTable []).Unchanged :=
  ⟨fun _ hs => List.mem_singleton.1 hs ▸ rfl, rfl⟩

lemma uncapped_edgeTable : (edgeTable []).Uncapped "source" [(1, 2)] := by
  refine ⟨?_, ?_, by decide, ?_⟩
  · rintro (_ | _) forward reverse hfast
    · obtain ⟨rfl, rfl⟩ := Prod.mk.inj (Option.some.inj hfast)
      decide
    · obtain ⟨rfl, rfl⟩ := Prod.mk.inj (Option.some.inj hfast)
      decide
  · have hforward := unchanged_edgeTable.length_getNeighbors_le sortBySource ("source", "target")
    have hreverse := unchanged_edgeTable.length_getNeighbors_le sortBySource ("target", "source")
    have hone : (edgeTable []).liveEdges ("target", "source") = [(2, 1)] := rfl
    rw [liveEdges_edgeTable] at hforward
    rw [hone] at hreverse
    have hle : 1 ≤ GraphTable.maxBfsDegree := by decide
    rintro (_ | _) forward reverse hfast u
    · obtain ⟨rfl, rfl⟩ := Prod.mk.inj (Option.some.inj hfast)
      refine ⟨(hforward u).trans hle, ?_⟩
      rintro r ⟨⟩
      exact (hreverse u).trans hle
    · obtain ⟨rfl, rfl⟩ := Prod.mk.inj (Option.some.inj hfast)
      exact ⟨(hforward u).trans hle, fun r hr => absurd hr (Option.not_mem_none r)⟩
  · intro directed u
    have hlength : (adjacency directed [(1, 2)] u).length ≤ 2 := by
      simp only [adjacency, List.flatMap_cons, List.flatMap_nil, List.append_nil,
        List.length_append]
      split_ifs <;> decide
    exact hlength.trans (by decide)

end BenoStreamDB

import BenoStreamDB.Foundations.Failing
import BenoStreamDB.Segment.CsrGraph
import Mathlib.Data.List.GetD
import Mathlib.Data.List.Perm.Basic
import Mathlib.Data.List.ReduceOption

/-!
# Files of graph indexes

`MmapCsrGraph` of `index/csr_graph.rs` with its row ids, over the three buffers that it reads its
arrays from. A buffer is cast to numbers of 64 bits where it is read, and the cast panics if it does
not start at a multiple of eight. A file that is mapped into memory starts at a page. The bytes of a
blob are in a vector, which starts where the allocator puts it, and at the address one if it is
empty. So the graph of no edges cannot be read from blobs: `representsAll_iff`.

Where all casts succeed, the graph reads what the `CsrGraph` of its arrays has: `Views`.
-/

namespace BenoStreamDB

structure CsrEdge where
  dstId : ℕ
  rowId : ℕ
  deriving DecidableEq

/-- An edge of the file that an index is built from. -/
structure RawEdge where
  srcId : ℕ
  dstId : ℕ
  rowId : ℕ

/-- The arrays that `build_from_file` writes. -/
structure CsrFiles where
  offsets : List ℕ
  edges : List CsrEdge
  dict : List ℕ

/-- `sort_unstable_by_key` on the sources -/
structure EdgeSort where
  bySource : List (ℕ × CsrEdge) → List (ℕ × CsrEdge)
  perm : ∀ l, (bySource l).Perm l
  sorted : ∀ l, (bySource l).Pairwise fun a b => a.1 ≤ b.1

/-- The sorted ids of the endpoints. -/
def rawIds (raw : List RawEdge) : List ℕ := uniqueIds (raw.map fun e => (e.srcId, e.dstId))

/-- The edges with the numbers of their endpoints, by source. -/
def denseRawEdges (S : EdgeSort) (raw : List RawEdge) : List (ℕ × CsrEdge) :=
  S.bySource (raw.map fun e =>
    ((rawIds raw).idxOf e.srcId, ⟨(rawIds raw).idxOf e.dstId, e.rowId⟩))

/-- `build_from_file` -/
def buildCsrFiles (S : EdgeSort) (raw : List RawEdge) : CsrFiles where
  offsets := buildOffsets ((denseRawEdges S raw).map Prod.fst) ((rawIds raw).length - 1)
  edges := (denseRawEdges S raw).map Prod.snd
  dict := rawIds raw

/-! ### Loading -/

/-- An array in memory. -/
structure Buffer (α : Type) where
  address : ℕ
  values : List α

/-- `bytemuck::cast_slice` to a type that is aligned to eight bytes; `none` is a panic. -/
structure Bytemuck where
  castSlice : {α : Type} → Buffer α → Option (List α)
  castSlice_of_dvd : ∀ {α : Type} {b : Buffer α}, 8 ∣ b.address → castSlice b = some b.values
  castSlice_of_not_dvd : ∀ {α : Type} {b : Buffer α}, ¬ 8 ∣ b.address → castSlice b = none

lemma Bytemuck.dvd_of_castSlice (B : Bytemuck) {α : Type} {b : Buffer α} {values : List α}
    (h : B.castSlice b = some values) : 8 ∣ b.address := by
  by_contra hdvd
  rw [B.castSlice_of_not_dvd hdvd] at h
  cases h

structure MmapCsrGraph where
  offsets : Buffer ℕ
  edges : Buffer CsrEdge
  dict : Buffer ℕ

/-- How the arrays come into memory. -/
inductive CsrLoad where
  /-- `load`: the pages at which the files are mapped -/
  | mmap (offsets edges dict : ℕ)
  /-- `from_bytes`: the addresses of the vectors that are not empty -/
  | owned (offsets edges dict : ℕ)
  deriving DecidableEq

/-- A mapped file. -/
def Buffer.mmap {α : Type} (page : ℕ) (values : List α) : Buffer α := ⟨4096 * page, values⟩

/-- A vector of bytes. An empty one has no memory, and its address is the alignment of a byte. -/
def Buffer.owned {α : Type} (address : ℕ) (values : List α) : Buffer α :=
  ⟨if values = [] then 1 else address, values⟩

def CsrLoad.graph : CsrLoad → CsrFiles → MmapCsrGraph
  | .mmap offsets edges dict, f => ⟨.mmap offsets f.offsets, .mmap edges f.edges, .mmap dict f.dict⟩
  | .owned offsets edges dict, f =>
    ⟨.owned offsets f.offsets, .owned edges f.edges, .owned dict f.dict⟩

/-! ### Reading; `none` is a panic -/

namespace MmapCsrGraph

variable (B : Bytemuck) (g : MmapCsrGraph)

def numNodes : ℕ := g.offsets.values.length - 1

/-- The binary search in the dictionary. -/
def toDense (id : ℕ) : Option (Option ℕ) :=
  (B.castSlice g.dict).map fun dict => if id ∈ dict then some (dict.idxOf id) else none

def toOriginal (dense : ℕ) : Option ℕ := (B.castSlice g.dict).bind fun dict => dict[dense]?

def getNeighborsRaw (dense : ℕ) : Option (List CsrEdge) :=
  if g.numNodes ≤ dense then some []
  else do
    let offsets ← B.castSlice g.offsets
    if offsets.length ≤ dense + 1 then return []
    let edges ← B.castSlice g.edges
    let start := min (offsets.getD dense 0) edges.length
    let stop := min (offsets.getD (dense + 1) 0) edges.length
    return if stop ≤ start then [] else (edges.drop start).take (stop - start)

/-- The edges of a node with their targets and row ids. -/
def getEdges (node : ℕ) : Option (List (ℕ × ℕ)) := do
  match ← g.toDense B node with
  | some dense =>
    (← g.getNeighborsRaw B dense).mapM fun e => (g.toOriginal B e.dstId).map (·, e.rowId)
  | none => return []

def getNeighbors (node : ℕ) : Option (List ℕ) := do
  match ← g.toDense B node with
  | some dense => (← g.getNeighborsRaw B dense).mapM fun e => g.toOriginal B e.dstId
  | none => return []

def getDegree (node : ℕ) : Option ℕ := do
  match ← g.toDense B node with
  | some dense =>
    if g.numNodes ≤ dense then return 0
    let offsets ← B.castSlice g.offsets
    return (← offsets[dense + 1]?) - (← offsets[dense]?)
  | none => return 0

def allNodes : Option (List ℕ) := do
  let nodes ← (List.range g.numNodes).mapM fun dense => do
    if (← g.getNeighborsRaw B dense).isEmpty then return none
    (g.toOriginal B dense).map some
  return nodes.reduceOption.insertionSort (· ≤ ·)

end MmapCsrGraph

/-! ### Several segments -/

namespace MultiSegmentCsrGraph

def getNeighbors (B : Bytemuck) (segments : List MmapCsrGraph) (node : ℕ) : Option (List ℕ) :=
  (segments.mapM fun g => MmapCsrGraph.getNeighbors B g node).map List.flatten

def getDegree (B : Bytemuck) (segments : List MmapCsrGraph) (node : ℕ) : Option ℕ :=
  (segments.mapM fun g => MmapCsrGraph.getDegree B g node).map List.sum

end MultiSegmentCsrGraph

/-! ### What the files hold -/

/-- The edges from a node, as pairs of a target and a row id. -/
def edgesFrom (raw : List RawEdge) (id : ℕ) : List (ℕ × ℕ) :=
  (raw.filter fun e => e.srcId == id).map fun e => (e.dstId, e.rowId)

section Build

variable (S : EdgeSort) (raw : List RawEdge)

lemma mem_rawIds {id : ℕ} : id ∈ rawIds raw ↔ ∃ e ∈ raw, id = e.srcId ∨ id = e.dstId := by
  simp [rawIds, mem_uniqueIds]

lemma pairwise_rawIds : (rawIds raw).Pairwise (· < ·) := pairwise_uniqueIds _

variable {raw} in
lemma getElem?_rawIds {id : ℕ} (h : id ∈ rawIds raw) : (rawIds raw)[(rawIds raw).idxOf id]? =
    some id := by
  rw [List.getElem?_eq_getElem (List.idxOf_lt_length_of_mem h), List.getElem_idxOf]

variable {S raw} in
lemma mem_denseRawEdges {d : ℕ × CsrEdge} (h : d ∈ denseRawEdges S raw) :
    ∃ e ∈ raw, d = ((rawIds raw).idxOf e.srcId, ⟨(rawIds raw).idxOf e.dstId, e.rowId⟩) := by
  obtain ⟨e, he, rfl⟩ := List.mem_map.1 ((S.perm _).mem_iff.1 h)
  exact ⟨e, he, rfl⟩

/-- The offsets count the edges from smaller sources. -/
lemma offsets_buildCsrFiles : (buildCsrFiles S raw).offsets =
    offsetsUpTo ((denseRawEdges S raw).map Prod.fst) ((rawIds raw).length - 1 + 1) := by
  refine buildOffsets_eq (List.pairwise_map.2 (S.sorted _)) fun s hs => ?_
  obtain ⟨d, hd, rfl⟩ := List.mem_map.1 hs
  obtain ⟨e, he, rfl⟩ := mem_denseRawEdges hd
  have hlt := List.idxOf_lt_length_of_mem ((mem_rawIds raw).2 ⟨e, he, .inl rfl⟩)
  simp only
  omega

lemma length_offsets : (buildCsrFiles S raw).offsets.length = (rawIds raw).length - 1 + 2 := by
  rw [offsets_buildCsrFiles, offsetsUpTo, List.length_map, List.length_range]

lemma getElem?_offsets {d : ℕ} (hd : d ≤ (rawIds raw).length - 1 + 1) :
    (buildCsrFiles S raw).offsets[d]? =
      some ((denseRawEdges S raw).countP fun e => e.1 < d) := by
  rw [offsets_buildCsrFiles, offsetsUpTo, List.getElem?_map, List.getElem?_range (by omega),
    Option.map_some, List.countP_map]
  rfl

/-- The edges with the number of a source are the edges from it. -/
lemma perm_filter_denseRawEdges (id : ℕ) :
    ((denseRawEdges S raw).filter fun e => e.1 == (rawIds raw).idxOf id).Perm
      ((raw.filter fun e => e.srcId == id).map fun e =>
        ((rawIds raw).idxOf e.srcId, ⟨(rawIds raw).idxOf e.dstId, e.rowId⟩)) := by
  refine ((S.perm _).filter _).trans (.of_eq ?_)
  rw [List.filter_map]
  refine congrArg _ (List.filter_congr fun e he => ?_)
  rw [Function.comp_apply, Bool.eq_iff_iff, beq_iff_eq, beq_iff_eq,
    List.idxOf_inj ((mem_rawIds raw).2 ⟨e, he, .inl rfl⟩)]

end Build

/-! ### What a graph reads -/

/-- Every cast succeeds. -/
structure MmapCsrGraph.Aligned (g : MmapCsrGraph) : Prop where
  offsets : 8 ∣ g.offsets.address
  edges : 8 ∣ g.edges.address
  dict : 8 ∣ g.dict.address

def MmapCsrGraph.files (g : MmapCsrGraph) : CsrFiles :=
  ⟨g.offsets.values, g.edges.values, g.dict.values⟩

/-- The graph has the edges, the degrees and the nodes of a list of edges. -/
structure MmapCsrGraph.Represents (B : Bytemuck) (g : MmapCsrGraph) (raw : List RawEdge) :
    Prop where
  edges : ∀ id, ∃ out, g.getEdges B id = some out ∧ out.Perm (edgesFrom raw id)
  neighbors : ∀ id, ∃ out, g.getNeighbors B id = some out ∧
    out.Perm ((edgesFrom raw id).map Prod.fst)
  degree : ∀ id, g.getDegree B id = some (edgesFrom raw id).length
  dict : ∃ ids, B.castSlice g.dict = some ids ∧ ids.Pairwise (· < ·) ∧
    ∀ id, id ∈ ids ↔ ∃ e ∈ raw, id = e.srcId ∨ id = e.dstId
  allNodes : ∃ nodes, g.allNodes B = some nodes ∧ nodes.Pairwise (· < ·) ∧
    ∀ id, id ∈ nodes ↔ ∃ e ∈ raw, id = e.srcId

section Read

variable {B : Bytemuck} {S : EdgeSort} {raw : List RawEdge} {g : MmapCsrGraph}

lemma toOriginal_idxOf (hg : g.Aligned) (hfiles : g.files = buildCsrFiles S raw) {id : ℕ}
    (h : id ∈ rawIds raw) : g.toOriginal B ((rawIds raw).idxOf id) = some id := by
  rw [MmapCsrGraph.toOriginal, B.castSlice_of_dvd hg.dict, Option.bind_some,
    show g.dict.values = rawIds raw from congrArg CsrFiles.dict hfiles, getElem?_rawIds h]

lemma toDense_eq (hg : g.Aligned) (hfiles : g.files = buildCsrFiles S raw) (id : ℕ) :
    g.toDense B id = some (if id ∈ rawIds raw then some ((rawIds raw).idxOf id) else none) := by
  rw [MmapCsrGraph.toDense, B.castSlice_of_dvd hg.dict, Option.map_some,
    show g.dict.values = rawIds raw from congrArg CsrFiles.dict hfiles]

lemma numNodes_eq (hfiles : g.files = buildCsrFiles S raw) :
    g.numNodes = (rawIds raw).length - 1 + 1 := by
  rw [MmapCsrGraph.numNodes,
    show g.offsets.values = _ from congrArg CsrFiles.offsets hfiles, length_offsets]
  omega

/-- The part of the edges between two offsets has the edges of one source. -/
lemma getNeighborsRaw_eq (hg : g.Aligned) (hfiles : g.files = buildCsrFiles S raw) {dense : ℕ}
    (hdense : dense < (rawIds raw).length - 1 + 1) : g.getNeighborsRaw B dense =
      some (((denseRawEdges S raw).filter fun e => e.1 == dense).map Prod.snd) := by
  have hoffsets : g.offsets.values = (buildCsrFiles S raw).offsets :=
    congrArg CsrFiles.offsets hfiles
  have hedges : g.edges.values = (denseRawEdges S raw).map Prod.snd :=
    congrArg CsrFiles.edges hfiles
  have hoffset (d : ℕ) (hd : d ≤ (rawIds raw).length - 1 + 1) :
      g.offsets.values.getD d 0 = (denseRawEdges S raw).countP fun e => e.1 < d := by
    rw [hoffsets, List.getD_eq_getElem?_getD, getElem?_offsets S raw hd, Option.getD_some]
  have hle (d : ℕ) : ((denseRawEdges S raw).countP fun e => e.1 < d) ≤ g.edges.values.length := by
    rw [hedges, List.length_map]
    exact List.countP_le_length
  have hlen : ¬ g.offsets.values.length ≤ dense + 1 := by
    rw [hoffsets, length_offsets]
    omega
  have hpart := drop_take_of_sorted (show (denseRawEdges S raw).Pairwise _ from S.sorted _) dense
  rw [MmapCsrGraph.getNeighborsRaw, numNodes_eq hfiles, if_neg (by omega),
    B.castSlice_of_dvd hg.offsets, B.castSlice_of_dvd hg.edges]
  simp only [Option.bind_eq_bind, Option.bind_some, if_neg hlen, hoffset dense hdense.le,
    hoffset (dense + 1) hdense, min_eq_left (hle _), pure]
  rw [countP_lt_succ, Nat.add_sub_cancel_left, hedges, ← List.map_drop, ← List.map_take, hpart]
  split_ifs with hempty
  · have hzero : ((denseRawEdges S raw).countP fun e => e.1 == dense) = 0 := by omega
    rw [List.filter_eq_nil_iff.2 (List.countP_eq_zero.1 hzero), List.map_nil]
  · rfl

lemma edgesFrom_eq_nil {id : ℕ} (h : id ∉ rawIds raw) : edgesFrom raw id = [] := by
  rw [edgesFrom, List.map_eq_nil_iff, List.filter_eq_nil_iff]
  exact fun e he heq => h ((mem_rawIds raw).2 ⟨e, he, .inl (beq_iff_eq.1 heq).symm⟩)

/-- The targets are found in the dictionary. -/
lemma exists_getNeighborsRaw (hg : g.Aligned) (hfiles : g.files = buildCsrFiles S raw) {id : ℕ}
    (hid : id ∈ rawIds raw) :
    ∃ out, g.getNeighborsRaw B ((rawIds raw).idxOf id) = some out ∧
      (∀ e ∈ out, g.toOriginal B e.dstId = some ((rawIds raw).getD e.dstId 0)) ∧
      (out.map fun e => ((rawIds raw).getD e.dstId 0, e.rowId)).Perm (edgesFrom raw id) := by
  have hlt := List.idxOf_lt_length_of_mem hid
  refine ⟨_, getNeighborsRaw_eq hg hfiles (by omega), ?_, ?_⟩
  · intro e he
    obtain ⟨d, hd, rfl⟩ := List.mem_map.1 he
    obtain ⟨r, hr, rfl⟩ := mem_denseRawEdges (List.mem_of_mem_filter hd)
    have hmem : r.dstId ∈ rawIds raw := (mem_rawIds raw).2 ⟨r, hr, .inr rfl⟩
    rw [toOriginal_idxOf hg hfiles hmem, List.getD_eq_getElem?_getD, getElem?_rawIds hmem,
      Option.getD_some]
  · refine (((perm_filter_denseRawEdges S raw id).map _).map _).trans (.of_eq ?_)
    rw [edgesFrom, List.map_map, List.map_map]
    refine List.map_congr_left fun e he => ?_
    have hmem : e.dstId ∈ rawIds raw :=
      (mem_rawIds raw).2 ⟨e, List.mem_of_mem_filter he, .inr rfl⟩
    simp only [Function.comp_apply]
    rw [List.getD_eq_getElem?_getD, getElem?_rawIds hmem, Option.getD_some]

lemma exists_getEdges (hg : g.Aligned) (hfiles : g.files = buildCsrFiles S raw) (id : ℕ) :
    ∃ out, g.getEdges B id = some out ∧ g.getNeighbors B id = some (out.map Prod.fst) ∧
      out.Perm (edgesFrom raw id) := by
  rw [MmapCsrGraph.getEdges, MmapCsrGraph.getNeighbors, toDense_eq hg hfiles]
  by_cases hid : id ∈ rawIds raw
  · obtain ⟨out, hout, horiginal, hperm⟩ := exists_getNeighborsRaw (B := B) hg hfiles hid
    rw [if_pos hid]
    simp only [Option.bind_eq_bind, Option.bind_some, hout]
    refine ⟨_, Failing.mapM_eq_some_map fun e he => ?_, ?_, hperm⟩
    · rw [horiginal e he, Option.map_some]
    · rw [Failing.mapM_eq_some_map horiginal, List.map_map]
      rfl
  · rw [if_neg hid]
    exact ⟨[], rfl, rfl, .of_eq (edgesFrom_eq_nil hid).symm⟩

lemma getDegree_eq (hg : g.Aligned) (hfiles : g.files = buildCsrFiles S raw) (id : ℕ) :
    g.getDegree B id = some (edgesFrom raw id).length := by
  rw [MmapCsrGraph.getDegree, toDense_eq hg hfiles]
  by_cases hid : id ∈ rawIds raw
  · have hlt := List.idxOf_lt_length_of_mem hid
    have hcount : ((denseRawEdges S raw).countP fun e => e.1 == (rawIds raw).idxOf id) =
        (edgesFrom raw id).length := by
      rw [List.countP_eq_length_filter, (perm_filter_denseRawEdges S raw id).length_eq, edgesFrom,
        List.length_map, List.length_map]
    have hnodes : ¬ g.numNodes ≤ (rawIds raw).idxOf id := by
      rw [numNodes_eq hfiles]
      omega
    rw [if_pos hid]
    simp only [Option.bind_eq_bind, Option.bind_some, if_neg hnodes,
      B.castSlice_of_dvd hg.offsets,
      show g.offsets.values = _ from congrArg CsrFiles.offsets hfiles]
    rw [getElem?_offsets S raw (by omega), getElem?_offsets S raw (by omega)]
    simp only [Option.bind_some, pure, countP_lt_succ, Nat.add_sub_cancel_left, hcount]
  · rw [if_neg hid, edgesFrom_eq_nil hid]
    rfl

/-- The node with a number, if it has edges. -/
def sourceAt (S : EdgeSort) (raw : List RawEdge) (dense : ℕ) : Option ℕ :=
  if ((denseRawEdges S raw).filter fun e => e.1 == dense).isEmpty then none
  else some ((rawIds raw).getD dense 0)

lemma sourceAt_eq_some_iff {dense id : ℕ} : sourceAt S raw dense = some id ↔
    dense = (rawIds raw).idxOf id ∧ ∃ e ∈ raw, id = e.srcId := by
  constructor
  · intro h
    rw [sourceAt] at h
    split_ifs at h with hempty
    obtain ⟨d, hd⟩ := List.exists_mem_of_ne_nil _ (mt List.isEmpty_iff.2 hempty)
    obtain ⟨hmem, heq⟩ := List.mem_filter.1 hd
    obtain ⟨e, he, rfl⟩ := mem_denseRawEdges hmem
    obtain rfl := beq_iff_eq.1 heq
    rw [List.getD_eq_getElem?_getD, getElem?_rawIds ((mem_rawIds raw).2 ⟨e, he, .inl rfl⟩),
      Option.getD_some] at h
    cases h
    exact ⟨rfl, e, he, rfl⟩
  · rintro ⟨rfl, e, he, rfl⟩
    have hmem : e ∈ raw.filter fun e' => e'.srcId == e.srcId := List.mem_filter.2 ⟨he, by simp⟩
    have hne := (perm_filter_denseRawEdges S raw e.srcId).mem_iff.2 (List.mem_map_of_mem hmem)
    rw [sourceAt, if_neg fun hempty => List.ne_nil_of_mem hne (List.isEmpty_iff.1 hempty),
      List.getD_eq_getElem?_getD, getElem?_rawIds ((mem_rawIds raw).2 ⟨e, he, .inl rfl⟩),
      Option.getD_some]

lemma exists_allNodes (hg : g.Aligned) (hfiles : g.files = buildCsrFiles S raw) :
    ∃ nodes, g.allNodes B = some nodes ∧ nodes.Pairwise (· < ·) ∧
      ∀ id, id ∈ nodes ↔ ∃ e ∈ raw, id = e.srcId := by
  have hread : ∀ dense ∈ List.range g.numNodes, (do
      if (← g.getNeighborsRaw B dense).isEmpty then return none
      (g.toOriginal B dense).map some) = some (sourceAt S raw dense) := by
    intro dense hdense
    rw [List.mem_range, numNodes_eq hfiles] at hdense
    rw [getNeighborsRaw_eq hg hfiles hdense, sourceAt]
    simp only [Option.bind_eq_bind, Option.bind_some, List.isEmpty_map]
    split_ifs with hempty
    · rfl
    · cases hsource : sourceAt S raw dense with
      | none => simp [sourceAt, hempty] at hsource
      | some id =>
        obtain ⟨rfl, e, he, rfl⟩ := sourceAt_eq_some_iff.1 hsource
        have hmem : e.srcId ∈ rawIds raw := (mem_rawIds raw).2 ⟨e, he, .inl rfl⟩
        rw [toOriginal_idxOf hg hfiles hmem, List.getD_eq_getElem?_getD, getElem?_rawIds hmem]
        rfl
  refine ⟨(((List.range g.numNodes).map (sourceAt S raw)).reduceOption).insertionSort (· ≤ ·),
    ?_, ?_, fun id => ?_⟩
  · rw [MmapCsrGraph.allNodes, Failing.mapM_eq_some_map hread]
    rfl
  · have hnodup : (((List.range g.numNodes).map (sourceAt S raw)).reduceOption).Nodup := by
      rw [List.reduceOption, List.filterMap_map]
      refine List.Nodup.filterMap (fun a b id ha hb => ?_) List.nodup_range
      exact (sourceAt_eq_some_iff.1 ha).1.trans (sourceAt_eq_some_iff.1 hb).1.symm
    have hsorted := List.pairwise_insertionSort (· ≤ ·)
      (((List.range g.numNodes).map (sourceAt S raw)).reduceOption)
    refine (hsorted.and ((List.perm_insertionSort _ _).nodup_iff.2 hnodup)).imp fun h => ?_
    exact lt_of_le_of_ne h.1 h.2
  · rw [List.mem_insertionSort, List.reduceOption_mem_iff, List.mem_map]
    constructor
    · rintro ⟨dense, -, hdense⟩
      exact (sourceAt_eq_some_iff.1 hdense).2
    · intro hid
      refine ⟨(rawIds raw).idxOf id, ?_, sourceAt_eq_some_iff.2 ⟨rfl, hid⟩⟩
      obtain ⟨e, he, rfl⟩ := hid
      have hlt := List.idxOf_lt_length_of_mem ((mem_rawIds raw).2 ⟨e, he, .inl rfl⟩)
      rw [List.mem_range, numNodes_eq hfiles]
      omega

/-- A graph whose buffers are all aligned represents the edges that its files were built from. -/
lemma represents_of_aligned (hg : g.Aligned) (hfiles : g.files = buildCsrFiles S raw) :
    g.Represents B raw where
  edges id := by
    obtain ⟨out, hedges, -, hperm⟩ := exists_getEdges hg hfiles id
    exact ⟨out, hedges, hperm⟩
  neighbors id := by
    obtain ⟨out, -, hneighbors, hperm⟩ := exists_getEdges hg hfiles id
    exact ⟨_, hneighbors, hperm.map _⟩
  degree := getDegree_eq hg hfiles
  dict := ⟨rawIds raw,
    (B.castSlice_of_dvd hg.dict).trans (congrArg (fun f => some f.dict) hfiles),
    pairwise_rawIds raw, fun _ => mem_rawIds raw⟩
  allNodes := exists_allNodes hg hfiles

/-- Reading the edges of a node casts the offsets and the edges. -/
lemma dvd_of_getNeighborsRaw {dense : ℕ} {out : List CsrEdge} (hdense : dense < g.numNodes)
    (h : g.getNeighborsRaw B dense = some out) :
    8 ∣ g.offsets.address ∧ 8 ∣ g.edges.address := by
  rw [MmapCsrGraph.getNeighborsRaw, if_neg (by omega)] at h
  obtain ⟨offsets, hoffsets, h⟩ := Option.bind_eq_some_iff.1 h
  have hdvd := B.dvd_of_castSlice hoffsets
  rw [B.castSlice_of_dvd hdvd] at hoffsets
  cases hoffsets
  rw [MmapCsrGraph.numNodes] at hdense
  rw [if_neg (by omega)] at h
  obtain ⟨edges, hedges, -⟩ := Option.bind_eq_some_iff.1 h
  exact ⟨hdvd, B.dvd_of_castSlice hedges⟩

lemma aligned_of_represents (hfiles : g.files = buildCsrFiles S raw) (h : g.Represents B raw)
    (hraw : raw ≠ []) : g.Aligned := by
  obtain ⟨ids, hids, -, -⟩ := h.dict
  have hdict := B.dvd_of_castSlice hids
  obtain ⟨e, he⟩ := List.exists_mem_of_ne_nil raw hraw
  have hmem : e.srcId ∈ rawIds raw := (mem_rawIds raw).2 ⟨e, he, .inl rfl⟩
  have hlt := List.idxOf_lt_length_of_mem hmem
  have hdense : g.toDense B e.srcId = some (some ((rawIds raw).idxOf e.srcId)) := by
    rw [MmapCsrGraph.toDense, B.castSlice_of_dvd hdict, Option.map_some,
      show g.dict.values = rawIds raw from congrArg CsrFiles.dict hfiles, if_pos hmem]
  obtain ⟨out, hout, -⟩ := h.edges e.srcId
  rw [MmapCsrGraph.getEdges, hdense, Option.bind_eq_bind, Option.bind_some] at hout
  obtain ⟨edges, hedges, -⟩ := Option.bind_eq_some_iff.1 hout
  have hnodes : (rawIds raw).idxOf e.srcId < g.numNodes := by
    rw [numNodes_eq hfiles]
    omega
  obtain ⟨hoffsets, hedges⟩ := dvd_of_getNeighborsRaw hnodes hedges
  exact ⟨hoffsets, hedges, hdict⟩

end Read

/-! ### Loads of segments -/

/-- The edges of a segment, and how its files are loaded. -/
structure CsrSegment where
  raw : List RawEdge
  load : CsrLoad

def CsrSegment.graph (S : EdgeSort) (seg : CsrSegment) : MmapCsrGraph :=
  seg.load.graph (buildCsrFiles S seg.raw)

/-- The vectors of a segment that is read from blobs have memory, and it is aligned. -/
def CsrSegment.Readable (seg : CsrSegment) : Prop :=
  ∀ offsets edges dict, seg.load = .owned offsets edges dict →
    seg.raw ≠ [] ∧ 8 ∣ offsets ∧ 8 ∣ edges ∧ 8 ∣ dict

/-- Each segment represents its edges, and all segments together have the edges of all. -/
structure RepresentsAll (B : Bytemuck) (S : EdgeSort) (segments : List CsrSegment) : Prop where
  each : ∀ seg ∈ segments, (seg.graph S).Represents B seg.raw
  neighbors : ∀ id, ∃ out,
    MultiSegmentCsrGraph.getNeighbors B (segments.map (CsrSegment.graph S)) id = some out ∧
      out.Perm (segments.flatMap fun seg => (edgesFrom seg.raw id).map Prod.fst)
  degree : ∀ id, MultiSegmentCsrGraph.getDegree B (segments.map (CsrSegment.graph S)) id =
    some (segments.map fun seg => (edgesFrom seg.raw id).length).sum

lemma files_graph (S : EdgeSort) (seg : CsrSegment) :
    (seg.graph S).files = buildCsrFiles S seg.raw := by
  obtain ⟨raw, load⟩ := seg
  cases load <;> rfl

/-- None of the arrays of some edges is empty. -/
lemma buildCsrFiles_ne_nil {S : EdgeSort} {raw : List RawEdge} (h : raw ≠ []) :
    (buildCsrFiles S raw).offsets ≠ [] ∧ (buildCsrFiles S raw).edges ≠ [] ∧
      (buildCsrFiles S raw).dict ≠ [] := by
  obtain ⟨e, he⟩ := List.exists_mem_of_ne_nil raw h
  refine ⟨List.ne_nil_of_length_pos ?_, ?_, ?_⟩
  · rw [length_offsets]
    omega
  · have hdense := (S.perm _).mem_iff.2 (List.mem_map_of_mem (f := fun e : RawEdge =>
      ((rawIds raw).idxOf e.srcId, (⟨(rawIds raw).idxOf e.dstId, e.rowId⟩ : CsrEdge))) he)
    exact List.ne_nil_of_mem (List.mem_map_of_mem hdense)
  · exact List.ne_nil_of_mem ((mem_rawIds raw).2 ⟨e, he, .inl rfl⟩)

/-- The graph of a segment that can be read. -/
lemma CsrSegment.Readable.aligned {S : EdgeSort} {seg : CsrSegment} (h : seg.Readable) :
    (seg.graph S).Aligned := by
  obtain ⟨raw, load⟩ := seg
  cases load with
  | mmap offsets edges dict =>
    exact ⟨Nat.dvd_mul_right_of_dvd (by decide) _, Nat.dvd_mul_right_of_dvd (by decide) _,
      Nat.dvd_mul_right_of_dvd (by decide) _⟩
  | owned offsets edges dict =>
    obtain ⟨hraw, hoffsetsAt, hedgesAt, hdictAt⟩ := h offsets edges dict rfl
    obtain ⟨hoffsets, hedges, hdict⟩ := buildCsrFiles_ne_nil (S := S) hraw
    refine ⟨?_, ?_, ?_⟩
    · simpa [CsrSegment.graph, CsrLoad.graph, Buffer.owned, hoffsets] using hoffsetsAt
    · simpa [CsrSegment.graph, CsrLoad.graph, Buffer.owned, hedges] using hedgesAt
    · simpa [CsrSegment.graph, CsrLoad.graph, Buffer.owned, hdict] using hdictAt

/-- An aligned dictionary has entries, or is in a file. -/
lemma CsrSegment.raw_ne_nil {S : EdgeSort} {seg : CsrSegment} {offsets edges dict : ℕ}
    (hload : seg.load = .owned offsets edges dict) (h : 8 ∣ (seg.graph S).dict.address) :
    seg.raw ≠ [] := by
  intro hraw
  obtain ⟨raw, load⟩ := seg
  subst hload hraw
  exact absurd h (show ¬ 8 ∣ 1 by decide)

lemma CsrSegment.readable_of_aligned {S : EdgeSort} {seg : CsrSegment}
    (h : (seg.graph S).Aligned) : seg.Readable := by
  intro offsets edges dict hload
  have hraw := CsrSegment.raw_ne_nil hload h.dict
  obtain ⟨hoffsets, hedges, hdict⟩ := buildCsrFiles_ne_nil (S := S) hraw
  obtain ⟨raw, load⟩ := seg
  subst hload
  refine ⟨hraw, ?_, ?_, ?_⟩
  · simpa [CsrSegment.graph, CsrLoad.graph, Buffer.owned, hoffsets] using h.offsets
  · simpa [CsrSegment.graph, CsrLoad.graph, Buffer.owned, hedges] using h.edges
  · simpa [CsrSegment.graph, CsrLoad.graph, Buffer.owned, hdict] using h.dict

lemma represents_graph_iff (B : Bytemuck) (S : EdgeSort) (seg : CsrSegment) :
    (seg.graph S).Represents B seg.raw ↔ seg.Readable := by
  constructor
  · intro h offsets edges dict hload
    obtain ⟨ids, hids, -⟩ := h.dict
    have hraw := CsrSegment.raw_ne_nil hload (B.dvd_of_castSlice hids)
    exact CsrSegment.readable_of_aligned (aligned_of_represents (files_graph S seg) h hraw) offsets
      edges dict hload
  · exact fun h => represents_of_aligned h.aligned (files_graph S seg)

/-- The graphs represent their edges, alone and together, exactly if no graph of no edges is read
from blobs and the vectors of all others are aligned. -/
theorem representsAll_iff (B : Bytemuck) (S : EdgeSort) (segments : List CsrSegment) :
    RepresentsAll B S segments ↔ ∀ seg ∈ segments, seg.Readable := by
  constructor
  · exact fun h seg hseg => (represents_graph_iff B S seg).1 (h.each seg hseg)
  intro h
  have heach : ∀ seg ∈ segments, (seg.graph S).Represents B seg.raw := fun seg hseg =>
    (represents_graph_iff B S seg).2 (h seg hseg)
  refine ⟨heach, fun id => ?_, fun id => ?_⟩
  · have hout : ∀ g ∈ segments.map (CsrSegment.graph S),
        g.getNeighbors B id = some ((g.getNeighbors B id).getD []) := by
      intro g hg
      obtain ⟨seg, hseg, rfl⟩ := List.mem_map.1 hg
      obtain ⟨out, hout, -⟩ := (heach seg hseg).neighbors id
      rw [hout, Option.getD_some]
    refine ⟨_, by rw [MultiSegmentCsrGraph.getNeighbors, Failing.mapM_eq_some_map hout,
      Option.map_some], ?_⟩
    rw [List.map_map, ← List.flatMap_def]
    refine List.Perm.flatMap_left segments fun seg hseg => ?_
    obtain ⟨out, hout, hperm⟩ := (heach seg hseg).neighbors id
    rw [Function.comp_apply, hout, Option.getD_some]
    exact hperm
  · have hout : ∀ g ∈ segments.map (CsrSegment.graph S),
        g.getDegree B id = some ((g.getDegree B id).getD 0) := by
      intro g hg
      obtain ⟨seg, hseg, rfl⟩ := List.mem_map.1 hg
      rw [(heach seg hseg).degree id, Option.getD_some]
    rw [MultiSegmentCsrGraph.getDegree, Failing.mapM_eq_some_map hout, Option.map_some,
      List.map_map]
    refine congrArg (fun ns => some (List.sum ns)) (List.map_congr_left fun seg hseg => ?_)
    rw [Function.comp_apply, (heach seg hseg).degree id, Option.getD_some]

/-- Insertion into the order of the sources. -/
def insertionEdgeSort : EdgeSort where
  bySource := List.insertionSort fun a b => a.1 ≤ b.1
  perm := List.perm_insertionSort _
  sorted := List.pairwise_insertionSort _

/-- The cast that has the documented behaviour. -/
def alignedCast : Bytemuck where
  castSlice b := if 8 ∣ b.address then some b.values else none
  castSlice_of_dvd h := if_pos h
  castSlice_of_not_dvd h := if_neg h

/-- The graph of no edges, read from blobs, panics in every lookup. -/
theorem not_representsAll_nil :
    ¬ RepresentsAll alignedCast insertionEdgeSort [⟨[], .owned 4096 8192 12288⟩] ∧
      ∀ id, (CsrSegment.graph insertionEdgeSort ⟨[], .owned 4096 8192 12288⟩).getNeighbors
        alignedCast id = none := by
  have hnone (id : ℕ) : (CsrSegment.graph insertionEdgeSort
      ⟨[], .owned 4096 8192 12288⟩).getNeighbors alignedCast id = none := rfl
  refine ⟨fun h => ?_, hnone⟩
  obtain ⟨out, hout, -⟩ := (h.each _ List.mem_cons_self).neighbors 0
  rw [hnone] at hout
  cases hout

/-! ### The arrays of a graph

The functions of `CsrGraph` are those of `MmapCsrGraph` where all casts succeed and every node with
edges has a dictionary entry. -/

namespace MmapCsrGraph

/-- The graph reads the arrays of `c`. -/
structure Views (g : MmapCsrGraph) (c : CsrGraph) : Prop extends g.Aligned where
  offsets_eq : g.offsets.values = c.offsets
  edges_eq : g.edges.values.map CsrEdge.dstId = c.edges
  dict_eq : g.dict.values = c.dict

variable {B : Bytemuck} {g : MmapCsrGraph} {c : CsrGraph}

lemma Views.getNeighborsRaw (h : g.Views c) (dense : ℕ) :
    ∃ edges, g.getNeighborsRaw B dense = some edges ∧
      edges.map CsrEdge.dstId = c.getNeighborsRaw dense := by
  have hlength : g.edges.values.length = c.edges.length := by
    rw [← h.edges_eq, List.length_map]
  rw [MmapCsrGraph.getNeighborsRaw, CsrGraph.getNeighborsRaw, numNodes, CsrGraph.numNodes,
    h.offsets_eq, B.castSlice_of_dvd h.offsets, B.castSlice_of_dvd h.edges]
  simp only [Option.bind_eq_bind, Option.bind_some, h.offsets_eq, hlength, pure]
  split_ifs
  · exact ⟨[], rfl, rfl⟩
  · exact ⟨[], rfl, rfl⟩
  · exact ⟨[], rfl, rfl⟩
  · exact ⟨_, rfl, by rw [List.map_take, List.map_drop, h.edges_eq]⟩

lemma Views.toDense (h : g.Views c) (id : ℕ) : g.toDense B id = some (c.toDense id) := by
  rw [MmapCsrGraph.toDense, B.castSlice_of_dvd h.dict, h.dict_eq]
  rfl

lemma Views.toOriginal (h : g.Views c) {dense : ℕ} (hlt : dense < c.dict.length) :
    g.toOriginal B dense = some (c.toOriginal dense) := by
  rw [MmapCsrGraph.toOriginal, B.castSlice_of_dvd h.dict, Option.bind_some, h.dict_eq,
    CsrGraph.toOriginal, List.getD_eq_getElem?_getD, List.getElem?_eq_getElem hlt,
    Option.getD_some]

/-- The neighbours of a node are those in the arrays. -/
theorem Views.getNeighbors (h : g.Views c) (node : ℕ) :
    g.getNeighbors B node = some (c.getNeighbors node) := by
  rw [MmapCsrGraph.getNeighbors, h.toDense, CsrGraph.getNeighbors]
  cases c.toDense node with
  | none => rfl
  | some dense =>
    obtain ⟨edges, hedges, hmap⟩ := h.getNeighborsRaw (B := B) dense
    simp only [Option.bind_eq_bind, Option.bind_some, hedges]
    rw [Failing.mapM_eq_some_map (g := fun e => c.toOriginal e.dstId), ← hmap, List.map_map]
    · rfl
    · intro e he
      have hmem : e.dstId ∈ c.getNeighborsRaw dense := hmap ▸ List.mem_map_of_mem he
      exact h.toOriginal (c.edges_lt _ (c.mem_edges_of_mem_getNeighborsRaw hmem))

theorem Views.getDegree (h : g.Views c) (node : ℕ) :
    g.getDegree B node = some (c.getDegree node) := by
  have hnodes : g.numNodes = c.numNodes := congrArg (fun l => l.length - 1) h.offsets_eq
  rw [MmapCsrGraph.getDegree, h.toDense, CsrGraph.getDegree]
  cases c.toDense node with
  | none => rfl
  | some dense =>
    simp only [Option.bind_eq_bind, Option.bind_some, B.castSlice_of_dvd h.offsets, hnodes,
      h.offsets_eq]
    by_cases hge : c.numNodes ≤ dense
    · rw [if_pos hge, if_pos hge]
      rfl
    · have hlt : dense + 1 < c.offsets.length := by
        rw [CsrGraph.numNodes] at hge
        omega
      rw [if_neg hge, if_neg hge, List.getElem?_eq_getElem hlt,
        List.getElem?_eq_getElem (Nat.lt_of_succ_lt hlt), List.getD_eq_getElem _ _ hlt,
        List.getD_eq_getElem _ _ (Nat.lt_of_succ_lt hlt)]
      rfl

/-- A readable segment views the arrays that its files were built with. -/
theorem exists_views {S : EdgeSort} {seg : CsrSegment} (h : seg.Readable) :
    ∃ c, (seg.graph S).Views c := by
  have hfiles := files_graph S seg
  refine ⟨⟨(buildCsrFiles S seg.raw).offsets, (buildCsrFiles S seg.raw).edges.map CsrEdge.dstId,
    (buildCsrFiles S seg.raw).dict, pairwise_rawIds seg.raw, fun target htarget => ?_⟩, h.aligned,
    congrArg CsrFiles.offsets hfiles,
    congrArg (List.map CsrEdge.dstId) (congrArg CsrFiles.edges hfiles),
    congrArg CsrFiles.dict hfiles⟩
  obtain ⟨e, he, rfl⟩ := List.mem_map.1 htarget
  obtain ⟨d, hd, rfl⟩ := List.mem_map.1 he
  obtain ⟨r, hr, rfl⟩ := mem_denseRawEdges hd
  exact List.idxOf_lt_length_of_mem ((mem_rawIds seg.raw).2 ⟨r, hr, .inr rfl⟩)

end MmapCsrGraph

end BenoStreamDB

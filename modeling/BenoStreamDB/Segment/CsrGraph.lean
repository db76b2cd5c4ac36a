import BenoStreamDB.Foundations.Selection
import Mathlib.Data.List.Dedup
import Mathlib.Data.List.Sort

/-!
# Graph indexes

The compressed sparse rows of `index/csr_graph.rs`: a sorted dictionary of the node ids, the edges
in the order of their sources, and for each source the offset of its first edge. `getNeighbors`
gives back the targets of the edges from which a graph was built: `perm_getNeighbors_build`.

These are the arrays of a graph whose buffers can be read, without the row ids of the edges, for the
functions that only ask for neighbours. `Segment.CsrFiles` has the graph as it is loaded, where a
read can panic, and shows that it reads these arrays otherwise.
-/

namespace BenoStreamDB

/-- The arrays of an `MmapCsrGraph`; nodes are numbered by their places in the dictionary. -/
structure CsrGraph where
  offsets : List ℕ
  /-- The numbers of the targets. -/
  edges : List ℕ
  dict : List ℕ
  sorted : dict.Pairwise (· < ·)
  edges_lt : ∀ target ∈ edges, target < dict.length

namespace CsrGraph

variable (g : CsrGraph)

def numNodes : ℕ := g.offsets.length - 1

/-- The binary search in the dictionary. -/
def toDense (id : ℕ) : Option ℕ := if id ∈ g.dict then some (g.dict.idxOf id) else none

def toOriginal (dense : ℕ) : ℕ := g.dict.getD dense 0

def getNeighborsRaw (dense : ℕ) : List ℕ :=
  if g.numNodes ≤ dense then []
  else if g.offsets.length ≤ dense + 1 then []
  else
    let start := min (g.offsets.getD dense 0) g.edges.length
    let stop := min (g.offsets.getD (dense + 1) 0) g.edges.length
    if stop ≤ start then [] else (g.edges.drop start).take (stop - start)

def getNeighbors (node : ℕ) : List ℕ :=
  match g.toDense node with
  | some dense => (g.getNeighborsRaw dense).map g.toOriginal
  | none => []

def getDegree (node : ℕ) : ℕ :=
  match g.toDense node with
  | some dense =>
    if g.numNodes ≤ dense then 0 else g.offsets.getD (dense + 1) 0 - g.offsets.getD dense 0
  | none => 0

/-- The nodes with edges from them. -/
def allNodes : List ℕ :=
  (((List.range g.numNodes).filter fun dense => !(g.getNeighborsRaw dense).isEmpty).map
    g.toOriginal).insertionSort (· ≤ ·)

lemma toOriginal_idxOf {node : ℕ} (h : node ∈ g.dict) :
    g.toOriginal (g.dict.idxOf node) = node := by
  rw [toOriginal, List.getD_eq_getElem?_getD,
    List.getElem?_eq_getElem (List.idxOf_lt_length_of_mem h), List.getElem_idxOf, Option.getD_some]

lemma mem_edges_of_mem_getNeighborsRaw {dense target : ℕ} (h : target ∈ g.getNeighborsRaw dense) :
    target ∈ g.edges := by
  simp only [getNeighborsRaw] at h
  split_ifs at h
  · exact absurd h List.not_mem_nil
  · exact absurd h List.not_mem_nil
  · exact absurd h List.not_mem_nil
  · exact List.mem_of_mem_drop (List.mem_of_mem_take h)

lemma mem_dict_of_mem_getNeighbors {u v : ℕ} (h : v ∈ g.getNeighbors u) : v ∈ g.dict := by
  rw [getNeighbors] at h
  cases hdense : g.toDense u with
  | none => simp [hdense] at h
  | some dense =>
    rw [hdense] at h
    obtain ⟨target, htarget, rfl⟩ := List.mem_map.1 h
    have hlt := g.edges_lt target (g.mem_edges_of_mem_getNeighborsRaw htarget)
    rw [toOriginal, List.getD_eq_getElem?_getD, List.getElem?_eq_getElem hlt, Option.getD_some]
    exact List.getElem_mem hlt

/-- A node with neighbours is one of the nodes. -/
lemma mem_allNodes_of_mem_getNeighbors {u v : ℕ} (h : v ∈ g.getNeighbors u) : u ∈ g.allNodes := by
  rw [getNeighbors, toDense] at h
  by_cases hu : u ∈ g.dict
  · rw [if_pos hu] at h
    obtain ⟨target, htarget, -⟩ := List.mem_map.1 h
    have hlt : g.dict.idxOf u < g.numNodes := by
      by_contra hge
      rw [getNeighborsRaw, if_pos (Nat.le_of_not_lt hge)] at htarget
      exact List.not_mem_nil htarget
    rw [allNodes, List.mem_insertionSort]
    refine List.mem_map.2 ⟨_, List.mem_filter.2 ⟨List.mem_range.2 hlt, ?_⟩, g.toOriginal_idxOf hu⟩
    simpa using List.ne_nil_of_mem htarget
  · simp [hu] at h

end CsrGraph

/-! ### Building a graph -/

/-- `sort_unstable_by_key` on the sources. -/
structure UnstableSort where
  bySource : List (ℕ × ℕ) → List (ℕ × ℕ)
  perm : ∀ l, (bySource l).Perm l
  sorted : ∀ l, (bySource l).Pairwise fun a b => a.1 ≤ b.1

/-- The dictionary of the ids of some edges. -/
def uniqueIds (rawEdges : List (ℕ × ℕ)) : List ℕ :=
  ((rawEdges.flatMap fun e => [e.1, e.2]).insertionSort (· ≤ ·)).dedup

/-- The offsets so far, of the sources up to the current one, and the number of edges so far. -/
def pushOffsets (st : List ℕ × ℕ) (source : ℕ) : List ℕ × ℕ :=
  (st.1 ++ List.replicate (source - (st.1.length - 1)) st.2, st.2 + 1)

/-- The offsets of edges with the given sources, which are at most `maxSource`. -/
def buildOffsets (sources : List ℕ) (maxSource : ℕ) : List ℕ :=
  let st := sources.foldl pushOffsets ([0], 0)
  st.1 ++ List.replicate (maxSource + 1 - (st.1.length - 1)) st.2

lemma pairwise_uniqueIds (rawEdges : List (ℕ × ℕ)) : (uniqueIds rawEdges).Pairwise (· < ·) := by
  have hsorted : (uniqueIds rawEdges).Pairwise (· ≤ ·) :=
    (List.pairwise_insertionSort (· ≤ ·) _).sublist (List.dedup_sublist _)
  exact (hsorted.and (List.nodup_dedup _)).imp fun h => lt_of_le_of_ne h.1 h.2

lemma mem_uniqueIds {rawEdges : List (ℕ × ℕ)} {id : ℕ} :
    id ∈ uniqueIds rawEdges ↔ ∃ e ∈ rawEdges, id = e.1 ∨ id = e.2 := by
  simp [uniqueIds, List.mem_dedup, List.mem_insertionSort]

/-- The edges between numbers of nodes, in the order of their sources. -/
def denseEdges (S : UnstableSort) (rawEdges : List (ℕ × ℕ)) : List (ℕ × ℕ) :=
  S.bySource (rawEdges.map fun e =>
    ((uniqueIds rawEdges).idxOf e.1, (uniqueIds rawEdges).idxOf e.2))

lemma mem_denseEdges {S : UnstableSort} {rawEdges : List (ℕ × ℕ)} {d : ℕ × ℕ}
    (h : d ∈ denseEdges S rawEdges) :
    d.1 < (uniqueIds rawEdges).length ∧ d.2 < (uniqueIds rawEdges).length := by
  obtain ⟨e, he, rfl⟩ := List.mem_map.1 ((S.perm _).mem_iff.1 h)
  exact ⟨List.idxOf_lt_length_of_mem (mem_uniqueIds.2 ⟨e, he, Or.inl rfl⟩),
    List.idxOf_lt_length_of_mem (mem_uniqueIds.2 ⟨e, he, Or.inr rfl⟩)⟩

lemma snd_denseEdges_lt (S : UnstableSort) (rawEdges : List (ℕ × ℕ)) :
    ∀ target ∈ (denseEdges S rawEdges).map Prod.snd, target < (uniqueIds rawEdges).length := by
  intro target htarget
  obtain ⟨d, hd, rfl⟩ := List.mem_map.1 htarget
  exact (mem_denseEdges hd).2

/-- `build_from_file`, from the edges that the file holds. -/
def buildFromFile (S : UnstableSort) (rawEdges : List (ℕ × ℕ)) : CsrGraph where
  offsets := buildOffsets ((denseEdges S rawEdges).map Prod.fst)
    ((uniqueIds rawEdges).length - 1)
  edges := (denseEdges S rawEdges).map Prod.snd
  dict := uniqueIds rawEdges
  sorted := pairwise_uniqueIds rawEdges
  edges_lt := snd_denseEdges_lt S rawEdges

/-! ### Offsets -/

/-- The offsets of the sources up to `current`. -/
def offsetsUpTo (sources : List ℕ) (current : ℕ) : List ℕ :=
  (List.range (current + 1)).map fun d => sources.countP (· < d)

lemma offsetsUpTo_append_replicate {sources : List ℕ} {current next : ℕ} (hle : current ≤ next)
    (hbound : ∀ s ∈ sources, s ≤ current) :
    offsetsUpTo sources current ++ List.replicate (next - current) sources.length =
      offsetsUpTo sources next := by
  obtain ⟨n, rfl⟩ := Nat.exists_eq_add_of_le hle
  rw [Nat.add_sub_cancel_left]
  induction n with
  | zero => simp
  | succ n ih =>
    have hall : sources.countP (· < current + n + 1) = sources.length := by
      refine List.countP_eq_length.2 fun s hs => ?_
      have := hbound s hs
      simp
      omega
    have hnext : offsetsUpTo sources (current + n + 1) =
        offsetsUpTo sources (current + n) ++ [sources.length] := by
      rw [offsetsUpTo, List.range_succ, List.map_append, List.map_singleton, hall]
      rfl
    rw [List.replicate_succ', ← List.append_assoc, ih (Nat.le_add_right _ _)]
    exact hnext.symm

/-- The offsets after a prefix of the sorted sources. -/
lemma foldl_pushOffsets {sources : List ℕ} (hsorted : sources.Pairwise (· ≤ ·)) :
    ∃ current, (∀ s ∈ sources, s ≤ current) ∧
      (∀ n, (∀ s ∈ sources, s ≤ n) → current ≤ n) ∧
      sources.foldl pushOffsets ([0], 0) = (offsetsUpTo sources current, sources.length) := by
  induction sources using List.reverseRecOn with
  | nil => exact ⟨0, by simp, by simp, rfl⟩
  | append_singleton sources source ih =>
    obtain ⟨hbefore, -, hlast⟩ := List.pairwise_append.1 hsorted
    obtain ⟨current, hbound, hleast, hfold⟩ := ih hbefore
    have hle : current ≤ source := hleast source fun s hs => hlast s hs source List.mem_cons_self
    refine ⟨source, ?_, ?_, ?_⟩
    · intro s hs
      rcases List.mem_append.1 hs with hs | hs
      · exact (hbound s hs).trans hle
      · rw [List.mem_singleton.1 hs]
    · exact fun n hn => hn source (List.mem_append_right _ List.mem_cons_self)
    · have hlen : (offsetsUpTo sources current).length - 1 = current := by simp [offsetsUpTo]
      have hsame : offsetsUpTo sources source = offsetsUpTo (sources ++ [source]) source := by
        refine List.map_congr_left fun d hd => ?_
        have := List.mem_range.1 hd
        simp
        omega
      rw [List.foldl_append, hfold, List.foldl_cons, List.foldl_nil, pushOffsets, hlen,
        offsetsUpTo_append_replicate hle hbound, hsame, List.length_append]
      rfl

lemma buildOffsets_eq {sources : List ℕ} (hsorted : sources.Pairwise (· ≤ ·)) {maxSource : ℕ}
    (hbound : ∀ s ∈ sources, s ≤ maxSource) :
    buildOffsets sources maxSource = offsetsUpTo sources (maxSource + 1) := by
  obtain ⟨current, hcurrent, hleast, hfold⟩ := foldl_pushOffsets hsorted
  have hlen : (offsetsUpTo sources current).length - 1 = current := by simp [offsetsUpTo]
  rw [buildOffsets, hfold, hlen]
  exact offsetsUpTo_append_replicate ((hleast maxSource hbound).trans (Nat.le_succ _)) hcurrent

/-! ### Neighbours -/

/-- The part of a sorted list with a given key. -/
lemma drop_take_of_sorted {β : Type} {l : List (ℕ × β)}
    (hsorted : l.Pairwise fun a b => a.1 ≤ b.1) (d : ℕ) :
    (l.drop (l.countP fun e => e.1 < d)).take (l.countP fun e => e.1 == d) =
      l.filter fun e => e.1 == d := by
  induction l with
  | nil => rfl
  | cons e l ih =>
    obtain ⟨hhead, htail⟩ := List.pairwise_cons.1 hsorted
    rcases Nat.lt_trichotomy e.1 d with hlt | heq | hgt
    · have hne : (e.1 == d) = false := by simpa using hlt.ne
      simp only [List.countP_cons, List.filter_cons, hlt, hne, decide_true, if_true,
        Bool.false_eq_true, if_false, Nat.add_zero, List.drop_succ_cons]
      exact ih htail
    · -- no source before this one, so the part starts here
      have hnone : ∀ x ∈ l, ¬ x.1 < d := fun x hx => by
        have := hhead x hx
        omega
      have hcount : (l.countP fun x => decide (x.1 < d)) = 0 := by
        simpa [List.countP_eq_zero] using hnone
      have ih' := ih htail
      rw [hcount, List.drop_zero] at ih'
      simp [heq, hcount, ih']
    · have hnone : ∀ x ∈ e :: l, ¬ (x.1 == d) = true := by
        intro x hx
        rcases List.mem_cons.1 hx with rfl | hx
        · simpa using hgt.ne'
        · have := hhead x hx
          simp
          omega
      rw [List.countP_eq_zero.2 hnone, List.take_zero, List.filter_eq_nil_iff.2 hnone]

lemma countP_lt_succ {β : Type} (l : List (ℕ × β)) (d : ℕ) :
    (l.countP fun e => e.1 < d + 1) = (l.countP fun e => e.1 < d) + l.countP fun e => e.1 == d := by
  induction l with
  | nil => rfl
  | cons e l ih =>
    simp only [List.countP_cons, ih]
    rcases Nat.lt_trichotomy e.1 d with h | h | h
    · simp [h, h.ne, Nat.lt_succ_of_lt h]
      omega
    · simp [h]
      omega
    · have h₁ : ¬ e.1 < d := by omega
      have h₂ : ¬ e.1 < d + 1 := by omega
      simp [h₁, h₂, h.ne']

section Build

variable (S : UnstableSort) (rawEdges : List (ℕ × ℕ))

/-- The offsets count the edges from smaller sources. -/
lemma offsets_buildFromFile : (buildFromFile S rawEdges).offsets =
    offsetsUpTo ((denseEdges S rawEdges).map Prod.fst) ((uniqueIds rawEdges).length - 1 + 1) := by
  refine buildOffsets_eq (List.pairwise_map.2 (S.sorted _)) fun s hs => ?_
  obtain ⟨d, hd, rfl⟩ := List.mem_map.1 hs
  have := (mem_denseEdges hd).1
  omega

lemma getNeighborsRaw_buildFromFile {dense : ℕ} (hdense : dense < (uniqueIds rawEdges).length) :
    (buildFromFile S rawEdges).getNeighborsRaw dense =
      ((denseEdges S rawEdges).filter fun e => e.1 == dense).map Prod.snd := by
  have hsize : (uniqueIds rawEdges).length - 1 + 1 = (uniqueIds rawEdges).length := by omega
  have hlen : (buildFromFile S rawEdges).offsets.length = (uniqueIds rawEdges).length + 1 := by
    rw [offsets_buildFromFile, offsetsUpTo, List.length_map, List.length_range, hsize]
  have hoffset : ∀ d ≤ (uniqueIds rawEdges).length,
      (buildFromFile S rawEdges).offsets.getD d 0 =
        (denseEdges S rawEdges).countP fun e => e.1 < d := by
    intro d hd
    rw [offsets_buildFromFile, hsize, offsetsUpTo, List.getD_eq_getElem?_getD, List.getElem?_map,
      List.getElem?_range (by omega), Option.map_some, Option.getD_some, List.countP_map]
    rfl
  have hedges : (buildFromFile S rawEdges).edges = (denseEdges S rawEdges).map Prod.snd := rfl
  have hle (d : ℕ) : ((denseEdges S rawEdges).countP fun e => e.1 < d) ≤
      (buildFromFile S rawEdges).edges.length := by
    rw [hedges, List.length_map]
    exact List.countP_le_length
  rw [CsrGraph.getNeighborsRaw, CsrGraph.numNodes, hlen, if_neg (by omega), if_neg (by omega),
    hoffset dense hdense.le, hoffset (dense + 1) hdense, min_eq_left (hle _), min_eq_left (hle _)]
  simp only
  have hpart := drop_take_of_sorted (show (denseEdges S rawEdges).Pairwise _ from S.sorted _) dense
  rw [countP_lt_succ, Nat.add_sub_cancel_left, hedges, ← List.map_drop, ← List.map_take, hpart]
  split_ifs with hempty
  · have hzero : ((denseEdges S rawEdges).countP fun e => e.1 == dense) = 0 := by omega
    rw [List.filter_eq_nil_iff.2 (List.countP_eq_zero.1 hzero), List.map_nil]
  · rfl

/-- A graph has the edges from which it was built. -/
theorem perm_getNeighbors_build (node : ℕ) : ((buildFromFile S rawEdges).getNeighbors node).Perm
    ((rawEdges.filter fun e => e.1 == node).map Prod.snd) := by
  have hmem : ∀ e ∈ rawEdges, e.1 ∈ uniqueIds rawEdges ∧ e.2 ∈ uniqueIds rawEdges := fun e he =>
    ⟨mem_uniqueIds.2 ⟨e, he, Or.inl rfl⟩, mem_uniqueIds.2 ⟨e, he, Or.inr rfl⟩⟩
  rw [CsrGraph.getNeighbors, CsrGraph.toDense,
    show (buildFromFile S rawEdges).dict = uniqueIds rawEdges from rfl]
  by_cases hnode : node ∈ uniqueIds rawEdges
  · rw [if_pos hnode]
    simp only
    rw [getNeighborsRaw_buildFromFile S rawEdges (List.idxOf_lt_length_of_mem hnode)]
    have hperm := (S.perm (rawEdges.map fun e =>
      ((uniqueIds rawEdges).idxOf e.1, (uniqueIds rawEdges).idxOf e.2))).filter
        fun e => e.1 == (uniqueIds rawEdges).idxOf node
    refine ((hperm.map _).map _).trans (.of_eq ?_)
    rw [List.filter_map, List.map_map, List.map_map]
    have hfilter : rawEdges.filter ((fun e : ℕ × ℕ => e.1 == (uniqueIds rawEdges).idxOf node) ∘
        fun e => ((uniqueIds rawEdges).idxOf e.1, (uniqueIds rawEdges).idxOf e.2)) =
          rawEdges.filter fun e => e.1 == node := by
      refine List.filter_congr fun e he => ?_
      rw [Function.comp_apply, Bool.eq_iff_iff, beq_iff_eq, beq_iff_eq,
        List.idxOf_inj (hmem e he).1]
    rw [hfilter]
    refine List.map_congr_left fun e he => ?_
    have he₂ := (hmem e (List.mem_of_mem_filter he)).2
    exact (buildFromFile S rawEdges).toOriginal_idxOf he₂
  · rw [if_neg hnode]
    have hnone : rawEdges.filter (fun e => e.1 == node) = [] := by
      refine List.filter_eq_nil_iff.2 fun e he heq => hnode ?_
      rw [← beq_iff_eq.1 heq]
      exact (hmem e he).1
    rw [hnone, List.map_nil]

end Build

end BenoStreamDB

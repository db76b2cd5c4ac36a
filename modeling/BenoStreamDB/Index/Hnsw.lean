import BenoStreamDB.Foundations.BestFirst
import Mathlib.Algebra.Order.Ring.Nat

/-!
# The graph index

`search_layer` and `search` of `hnsw_rs/hnsw.rs`. The points have neighbours in each layer. A search
goes down to layer zero, from the entry point to the nearest neighbour of each layer, and searches
layer zero best-first.

Distances are a linear order, so that none is NaN. A NaN ends the process, and so does a negative
distance; `Index.HnswInsert` has these assertions. A `BinaryHeap` may take out any of the points
with the same distance, so heaps are left open (`Heaps`).
-/

namespace BenoStreamDB

namespace Hnsw

open BestFirst

/-- `PointId`: the layer of a point, and its rank there. -/
structure PointId where
  layer : ℕ
  rank : ℤ
deriving DecidableEq

/-- `Hnsw` and its `PointIndexation`; `neighbours` has the distances of the neighbours too. A point
is stored in its own layer only. -/
structure Graph (V δ : Type) where
  vector : PointId → V
  originId : PointId → ℕ
  neighbours : PointId → ℕ → List (PointId × δ)
  pointsByLayer : ℕ → List PointId
  entryPoint : Option PointId

/-- `BinaryHeap` of points by their distance, and of candidates by the negative distance. -/
structure Heaps (α δ : Type) [LinearOrder δ] where
  results (dist : α → δ) : Queue α dist
  candidates (dist : α → δ) : Queue α (OrderDual.toDual ∘ dist)
  /-- `into_sorted_vec` -/
  intoSortedVec (dist : α → δ) : (results dist).carrier → List α
  perm_intoSortedVec : ∀ dist q, (intoSortedVec dist q).Perm ((results dist).items q)
  ordered_intoSortedVec : ∀ dist q, TopK.Ordered dist (intoSortedVec dist q)

/-- A list in the order of a key. -/
def insertionSort {α δ : Type} [LinearOrder δ] (key : α → δ) (l : List α) : List α :=
  l.foldr (TopK.insertAfter key) []

lemma insertionSort_spec {α δ : Type} [LinearOrder δ] (key : α → δ) (l : List α) :
    (insertionSort key l).Perm l ∧ TopK.Ordered key (insertionSort key l) := by
  induction l with
  | nil => exact ⟨.refl _, .nil⟩
  | cons a l ih => exact ⟨(TopK.perm_insertAfter a _).trans (ih.1.cons a), ih.2.insertAfter a⟩

/-- Heaps as sorted lists. -/
def sortedHeaps (α δ : Type) [LinearOrder δ] : Heaps α δ where
  results := sortedQueue
  candidates dist := sortedQueue (OrderDual.toDual ∘ dist)
  intoSortedVec dist q := insertionSort dist ((sortedQueue dist).items q)
  perm_intoSortedVec dist _ := (insertionSort_spec dist _).1
  ordered_intoSortedVec dist _ := (insertionSort_spec dist _).2

/-- `Neighbour` -/
structure Neighbour (α δ : Type) where
  dId : ℕ
  distance : δ
  pId : α

/-- The data id is in the bitmap, if there is one. -/
def contains (filter : Option (List ℕ)) (id : ℕ) : Bool :=
  filter.all fun bitmap => bitmap.contains (id % 2 ^ 32)

/-- The nearest of a point and its neighbours; the first of those that are equally near. -/
def nearer {α δ : Type} [LinearOrder δ] (dist : α → δ) (pivot : α) (ns : List α) : α :=
  ns.foldl (fun best n => if dist n < dist best then n else best) pivot

/-! ### The graph that is built -/

namespace Graph

variable {V δ : Type} [LinearOrder δ] (H : Heaps PointId δ) (eval : V → V → δ) (G : Graph V δ)
  (query : V)

def dist (p : PointId) : δ := eval query (G.vector p)

def next (layer : ℕ) (p : PointId) : List PointId := (G.neighbours p layer).map Prod.fst

section Layer

variable (filter : Option (List ℕ)) (ef : ℕ)

abbrev LayerState : Type :=
  State (H.candidates (G.dist eval query)) (H.results (G.dist eval query))

variable {H eval G query}

/-- `enters_return` -/
def entersReturn (st : G.LayerState H eval query) (e : PointId) : Bool :=
  if !contains filter (G.originId e) then false
  else if (H.results _).size st.results < ef then true
  else ((H.results _).peek st.results).any fun f => G.dist eval query e < G.dist eval query f

/-- `is_promising` -/
def isPromising (st : G.LayerState H eval query) (e : PointId) : Bool :=
  if (H.results _).size st.results < ef then true
  else ((H.results _).peek st.results).all fun f => G.dist eval query e < G.dist eval query f

/-- The body of the loop over the neighbours. -/
def visitNeighbour (st : G.LayerState H eval query) (e : PointId) : G.LayerState H eval query :=
  if e ∈ st.visited then st
  else if isPromising ef st e || entersReturn filter ef st e then
    { visited := e :: st.visited
      candidates := (H.candidates _).push st.candidates e
      results :=
        if entersReturn filter ef st e then
          let results := (H.results _).push st.results e
          if ef < (H.results _).size results then
            (((H.results _).pop results).map Prod.snd).getD results
          else results
        else st.results }
  else { st with visited := e :: st.visited }

/-- The loop over the candidates. -/
def layerLoop (layer : ℕ) : ℕ → G.LayerState H eval query →
    (H.results (G.dist eval query)).carrier
  | 0, st => st.results
  | n + 1, st =>
    match (H.candidates _).pop st.candidates with
    | none => st.results
    | some (c, candidates) =>
      if ((H.results _).peek st.results).any fun f => ef ≤ (H.results _).size st.results &&
          G.dist eval query f < G.dist eval query c then st.results
      else layerLoop layer n
        ((G.next layer c).foldl (visitNeighbour filter ef) { st with candidates := candidates })

end Layer

/-- The heaps before the loop. -/
def layerStart (entry : PointId) (filter : Option (List ℕ)) : G.LayerState H eval query where
  visited := [entry]
  candidates := (H.candidates _).push (H.candidates _).empty entry
  results := if contains filter (G.originId entry) then
      (H.results _).push (H.results _).empty entry else (H.results _).empty

/-- `search_layer` -/
def searchLayer (fuel : ℕ) (entry : PointId) (ef layer : ℕ) (filter : Option (List ℕ)) :
    (H.results (G.dist eval query)).carrier :=
  if (G.pointsByLayer layer).isEmpty then (H.results _).empty
  else if entry.rank < 0 then (H.results _).empty
  else layerLoop filter ef layer fuel (G.layerStart H eval query entry filter)

/-- The loop of `search` over the layers down to the first. -/
def descend : ℕ → PointId → PointId
  | 0, pivot => pivot
  | layer + 1, pivot =>
    descend layer (nearer (G.dist eval query) pivot (G.next (layer + 1) pivot))

/-- `search` -/
def search (fuel knbn efArg : ℕ) (filter : Option (List ℕ)) : List (Neighbour PointId δ) :=
  match G.entryPoint with
  | none => []
  | some entry =>
    let ef := max efArg knbn
    let neighbours := H.intoSortedVec _
      (G.searchLayer H eval query fuel (G.descend eval query entry.layer entry) ef 0 filter)
    (neighbours.take (min knbn (min ef neighbours.length))).map fun p =>
      ⟨G.originId p, G.dist eval query p, p⟩

end Graph

/-! ### The descent -/

section Descent

variable {α δ : Type} [LinearOrder δ] {dist : α → δ}

variable (dist) in
lemma dist_nearer_le (pivot : α) (ns : List α) :
    dist (nearer dist pivot ns) ≤ dist pivot ∧ ∀ n ∈ ns, dist (nearer dist pivot ns) ≤ dist n := by
  unfold nearer
  induction ns generalizing pivot with
  | nil => exact ⟨le_rfl, List.forall_mem_nil _⟩
  | cons n ns ih =>
    rw [List.foldl_cons]
    split_ifs with hlt
    · obtain ⟨hle, hall⟩ := ih n
      refine ⟨hle.trans hlt.le, fun m hm => ?_⟩
      rcases List.mem_cons.1 hm with rfl | hm
      · exact hle
      · exact hall m hm
    · obtain ⟨hle, hall⟩ := ih pivot
      refine ⟨hle, fun m hm => ?_⟩
      rcases List.mem_cons.1 hm with rfl | hm
      · exact hle.trans (not_lt.1 hlt)
      · exact hall m hm

variable (dist) in
lemma nearer_mem (pivot : α) (ns : List α) :
    nearer dist pivot ns = pivot ∨ nearer dist pivot ns ∈ ns := by
  unfold nearer
  induction ns generalizing pivot with
  | nil => exact .inl rfl
  | cons n ns ih =>
    rw [List.foldl_cons]
    split_ifs
    · rcases ih n with heq | hmem
      · exact .inr (List.mem_cons.2 (.inl heq))
      · exact .inr (List.mem_cons_of_mem n hmem)
    · exact (ih pivot).imp_right (List.mem_cons_of_mem n)

/-- The first neighbours, of which there may be fewer. -/
lemma take_min {k ef : ℕ} (h : k ≤ ef) (l : List α) :
    l.take (min k (min ef l.length)) = l.take k := by
  rw [List.take_eq_take_iff]
  omega

end Descent

/-! ### The first points of a heap -/

section Heaps

variable {α δ : Type} [DecidableEq α] [LinearOrder δ] (H : Heaps α δ) {dist : α → δ}
  {next : α → List α} (accept : α → Bool) {ef fuel k : ℕ} {entry : α} {nodes : Finset α}

lemma exists_isFirst (hk : 0 < k) (hkef : k ≤ ef)
    (hnodes : ∀ p, Reach next entry p → p ∈ nodes) (hfuel : nodes.card ≤ fuel) :
    ∃ visited : List α, visited.Nodup ∧ entry ∈ visited ∧ (∀ p ∈ visited, Reach next entry p) ∧
      TopK.IsFirst dist k (visited.filter accept) ((H.intoSortedVec dist
        (BestFirst.search (H.candidates dist) (H.results dist) next accept ef fuel entry)).take
          k) := by
  obtain ⟨visited, hnodup, hmem, hreach, hbest⟩ := noneCloser_search (H.candidates dist)
    (H.results dist) accept (hk.trans_le hkef) hnodes hfuel
  exact ⟨visited, hnodup, hmem, hreach, hbest.isFirst (H.perm_intoSortedVec dist _)
    (H.ordered_intoSortedVec dist _) hkef⟩

lemma isFirst_of_room (hef : 0 < ef) (hnodes : ∀ p, p ∈ nodes ↔ Reach next entry p)
    (hfuel : nodes.card ≤ fuel) (hroom : (nodes.filter (accept · = true)).card ≤ ef) :
    TopK.IsFirst dist k (nodes.filter (accept · = true)).toList ((H.intoSortedVec dist
      (BestFirst.search (H.candidates dist) (H.results dist) next accept ef fuel entry)).take
        k) := by
  refine ⟨_, (H.perm_intoSortedVec dist _).trans ?_, H.ordered_intoSortedVec dist _, rfl⟩
  obtain ⟨visited, hnodup, -, -, rest, hperm, -⟩ := noneCloser_search (H.candidates dist)
    (H.results dist) accept hef (fun p => (hnodes p).2) hfuel
  have hitems := (List.nodup_append.1 (hperm.nodup_iff.1 (hnodup.filter accept))).1
  refine (List.perm_ext_iff_of_nodup hitems (Finset.nodup_toList _)).2 fun p => ?_
  rw [mem_search_iff hef hnodes hfuel hroom, Finset.mem_toList, Finset.mem_filter, hnodes]

end Heaps

namespace Graph

variable {V δ : Type} [LinearOrder δ] {H : Heaps PointId δ} {eval : V → V → δ} {G : Graph V δ}
  {query : V}

lemma dist_descend_le (layer : ℕ) (pivot : PointId) :
    G.dist eval query (G.descend eval query layer pivot) ≤ G.dist eval query pivot := by
  induction layer generalizing pivot with
  | zero => exact le_rfl
  | succ layer ih => exact (ih _).trans (dist_nearer_le _ pivot _).1

section Layer

variable {filter : Option (List ℕ)} {ef : ℕ}

lemma isPromising_eq (st : G.LayerState H eval query) (e : PointId) :
    isPromising ef st e = promising ef st e := by
  unfold isPromising promising
  by_cases hroom : (H.results _).size st.results < ef
  · simp [hroom]
  · simp [hroom]

/-- A result that is full is not empty. -/
lemma entersReturn_eq (hef : 0 < ef) (st : G.LayerState H eval query) (e : PointId) :
    entersReturn filter ef st e = (contains filter (G.originId e) && promising ef st e) := by
  unfold entersReturn promising
  cases contains filter (G.originId e) with
  | false => rfl
  | true =>
    by_cases hroom : (H.results (G.dist eval query)).size st.results < ef
    · simp [hroom]
    · cases hpeek : (H.results (G.dist eval query)).peek st.results with
      | none =>
        have hsize : (H.results (G.dist eval query)).size st.results = 0 := by
          rw [Queue.size, Queue.items_of_peek_eq_none _ hpeek, List.length_nil]
        omega
      | some f => simp [hroom]

lemma visitNeighbour_eq (hef : 0 < ef) (st : G.LayerState H eval query) (e : PointId) :
    visitNeighbour filter ef st e =
      visit (fun p => contains filter (G.originId p)) ef st e := by
  unfold visitNeighbour visit
  rw [isPromising_eq, entersReturn_eq hef]
  cases hpromising : promising ef st e with
  | true => cases hcontains : contains filter (G.originId e) <;> simp [enter, hcontains]
  | false => simp

lemma layerLoop_eq (hef : 0 < ef) (layer n : ℕ) (st : G.LayerState H eval query) :
    layerLoop filter ef layer n st =
      loop (G.next layer) (fun p => contains filter (G.originId p)) ef n st := by
  induction n generalizing st with
  | zero => rfl
  | succ n ih =>
    rw [layerLoop, loop]
    have hvisit : (visitNeighbour filter ef : G.LayerState H eval query → _ → _) =
        visit (fun p => contains filter (G.originId p)) ef := by
      funext st e
      exact visitNeighbour_eq hef st e
    cases (H.candidates _).pop st.candidates with
    | none => rfl
    | some p =>
      have hfinished : (((H.results _).peek st.results).any fun f =>
          ef ≤ (H.results _).size st.results && G.dist eval query f < G.dist eval query p.1) =
            finished ef st p.1 := by
        rw [finished]
        cases (H.results _).peek st.results <;> simp
      simp only [hfinished, hvisit, ih]

/-- A layer with points is searched best-first. -/
lemma searchLayer_eq (hef : 0 < ef) {layer : ℕ} (hlayer : G.pointsByLayer layer ≠ [])
    {entry : PointId} (hentry : 0 ≤ entry.rank) (fuel : ℕ) :
    G.searchLayer H eval query fuel entry ef layer filter =
      BestFirst.search (H.candidates _) (H.results _) (G.next layer)
        (fun p => contains filter (G.originId p)) ef fuel entry := by
  rw [searchLayer, if_neg (by simpa using hlayer), if_neg (not_lt.2 hentry), layerLoop_eq hef]
  rfl

end Layer

/-! ### Searches of the graph -/

/-- The points have ranks. -/
structure Ranked (G : Graph V δ) : Prop where
  entryPoint : ∀ entry ∈ G.entryPoint, 0 ≤ entry.rank
  next : ∀ p layer, ∀ q ∈ G.next layer p, 0 ≤ q.rank

/-- The descent follows links. -/
lemma descend_of_next {P : PointId → Prop} (h : ∀ p layer, ∀ q ∈ G.next layer p, P q)
    (eval : V → V → δ) (query : V) (layer : ℕ) {pivot : PointId} (hpivot : P pivot) :
    P (G.descend eval query layer pivot) := by
  induction layer generalizing pivot with
  | zero => exact hpivot
  | succ layer ih =>
    refine ih ?_
    rcases nearer_mem (G.dist eval query) pivot (G.next (layer + 1) pivot) with heq | hmem
    · rwa [heq]
    · exact h pivot (layer + 1) _ hmem

variable {filter : Option (List ℕ)} {fuel knbn efArg : ℕ} {entry : PointId}
  {nodes : Finset PointId}

lemma search_eq (hG : G.Ranked) (hlayer : G.pointsByLayer 0 ≠ [])
    (hentry : G.entryPoint = some entry) (hknbn : 0 < knbn) :
    G.search H eval query fuel knbn efArg filter =
      ((H.intoSortedVec _ (BestFirst.search (H.candidates _) (H.results (G.dist eval query))
        (G.next 0) (fun p => contains filter (G.originId p)) (max efArg knbn) fuel
        (G.descend eval query entry.layer entry))).take knbn).map fun p =>
          ⟨G.originId p, G.dist eval query p, p⟩ := by
  have hef : 0 < max efArg knbn := hknbn.trans_le (le_max_right _ _)
  have hrank := descend_of_next hG.next eval query entry.layer (hG.entryPoint entry hentry)
  unfold search
  rw [hentry]
  simp only [searchLayer_eq hef hlayer hrank, take_min (le_max_right efArg knbn)]

/-- The search is exact if there are at most `ef` points to find. -/
theorem search_exact (hG : G.Ranked) (hlayer : G.pointsByLayer 0 ≠ [])
    (hentry : G.entryPoint = some entry) (hknbn : 0 < knbn)
    (hnodes : ∀ p, p ∈ nodes ↔ Reach (G.next 0) (G.descend eval query entry.layer entry) p)
    (hfuel : nodes.card ≤ fuel)
    (hroom : (nodes.filter fun p => contains filter (G.originId p) = true).card ≤
      max efArg knbn) : ∃ l, TopK.IsFirst (G.dist eval query) knbn
        (nodes.filter fun p => contains filter (G.originId p) = true).toList l ∧
      G.search H eval query fuel knbn efArg filter =
        l.map fun p => ⟨G.originId p, G.dist eval query p, p⟩ :=
  ⟨_, isFirst_of_room H _ (hknbn.trans_le (le_max_right _ _)) hnodes hfuel hroom,
    search_eq hG hlayer hentry hknbn⟩

def absDist (a b : ℕ) : ℕ := (a - b) + (b - a)

/-- Two points of layer zero with links to each other. -/
def pair : Graph ℕ ℕ where
  vector p := 5 * p.rank.toNat
  originId p := p.rank.toNat
  neighbours p _ := [(if p = ⟨0, 0⟩ then ⟨0, 1⟩ else ⟨0, 0⟩, 5)]
  pointsByLayer layer := if layer = 0 then [⟨0, 0⟩, ⟨0, 1⟩] else []
  entryPoint := some ⟨0, 0⟩

lemma next_pair (layer : ℕ) (p : PointId) :
    pair.next layer p = [if p = ⟨0, 0⟩ then ⟨0, 1⟩ else ⟨0, 0⟩] := rfl

lemma ranked_pair : pair.Ranked := by
  refine ⟨?_, fun p layer q hq => ?_⟩
  · rintro entry ⟨⟩
    decide
  · rw [next_pair, List.mem_singleton] at hq
    subst hq
    split_ifs <;> decide

lemma mem_pair_iff (p : PointId) :
    p ∈ ({⟨0, 0⟩, ⟨0, 1⟩} : Finset PointId) ↔ Reach (pair.next 0) ⟨0, 0⟩ p := by
  rw [Finset.mem_insert, Finset.mem_singleton]
  constructor
  · rintro (rfl | rfl)
    · exact .refl
    · exact .single (List.mem_singleton.2 rfl)
  · intro h
    cases h with
    | refl => exact .inl rfl
    | tail _ hnext =>
      rw [next_pair, List.mem_singleton] at hnext
      subst hnext
      split_ifs
      · exact .inr rfl
      · exact .inl rfl

theorem search_exact_pair : ∃ l, TopK.IsFirst (pair.dist absDist 4) 1
      (({⟨0, 0⟩, ⟨0, 1⟩} : Finset PointId).filter fun p =>
        contains none (pair.originId p) = true).toList l ∧
    pair.search (sortedHeaps PointId ℕ) absDist 4 2 1 2 none =
      l.map fun p => ⟨pair.originId p, pair.dist absDist 4 p, p⟩ :=
  search_exact ranked_pair (by decide) rfl Nat.one_pos mem_pair_iff (by decide) (by decide)

/-- What `search_layer` gives is a local optimum: a neighbour of one of the points is among them, or
there are `ef` and it is not nearer than any. -/
theorem searchLayer_local {ef layer : ℕ} (hef : 0 < ef) (hlayer : G.pointsByLayer layer ≠ [])
    (hentry : 0 ≤ entry.rank) (hnodes : ∀ p, Reach (G.next layer) entry p → p ∈ nodes)
    (hfuel : nodes.card ≤ fuel) {p q : PointId}
    (hp : p ∈ (H.results _).items (G.searchLayer H eval query fuel entry ef layer filter))
    (hq : q ∈ G.next layer p) (hcontains : contains filter (G.originId q) = true) :
    q ∈ (H.results _).items (G.searchLayer H eval query fuel entry ef layer filter) ∨
      ((H.results _).items (G.searchLayer H eval query fuel entry ef layer filter)).length = ef ∧
        ∀ r ∈ (H.results _).items (G.searchLayer H eval query fuel entry ef layer filter),
          G.dist eval query r ≤ G.dist eval query q := by
  rw [searchLayer_eq hef hlayer hentry] at hp ⊢
  exact local_search hef hnodes hfuel hp hq hcontains

/-- The points that are found next to four. -/
def pairFound : List PointId := ((sortedHeaps PointId ℕ).results _).items
  (pair.searchLayer (sortedHeaps PointId ℕ) absDist 4 2 ⟨0, 0⟩ 2 0 none)

theorem searchLayer_local_pair : (⟨0, 1⟩ : PointId) ∈ pairFound ∨ pairFound.length = 2 ∧
    ∀ r ∈ pairFound, pair.dist absDist 4 r ≤ pair.dist absDist 4 ⟨0, 1⟩ :=
  searchLayer_local (p := ⟨0, 0⟩) Nat.two_pos (by decide) (by decide) (fun p => (mem_pair_iff p).2)
    (by decide) (by decide) (List.mem_singleton.2 rfl) rfl

end Graph

end Hnsw

end BenoStreamDB

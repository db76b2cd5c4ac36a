import Mathlib.Data.Finset.Card
import Mathlib.Data.Finset.Union
import Mathlib.Data.List.Dedup

/-!
# Breadth-first search

Two searches for the nodes within a number of steps of some seeds: by levels (`levels`) and with a
queue of nodes and depths (`queueLoop`). Without caps both find the nodes of `Within`:
`mem_levels`, `mem_queueLoop`. A search for a shortest path (`shortestPath`) keeps the node from
which each node was found; the path has one node more than the least number of steps:
`length_shortestPath`.

The loops take fuel; the theorems ask for as much as the nodes that can be reached.
-/

namespace Bfs

variable {α : Type} [DecidableEq α]

/-- Reached from the seeds in at most `n` steps. -/
def Within (succ : α → List α) (seeds : List α) : ℕ → α → Prop
  | 0, x => x ∈ seeds
  | n + 1, x => Within succ seeds n x ∨ ∃ y, Within succ seeds n y ∧ x ∈ succ y

/-- Limits of a search, on the nodes it finds and on the degree of the nodes it expands. -/
structure Caps where
  maxNodes : Option ℕ := none
  maxDegree : Option ℕ := none

def Caps.exhausted (caps : Caps) (visited : Finset α) : Bool :=
  caps.maxNodes.any fun cap => decide (cap ≤ visited.card)

/-- A neighbour is found. A loop that stops when the cap is reached finds nothing from then on. -/
def visit (caps : Caps) (st : Finset α × List α) (x : α) : Finset α × List α :=
  if caps.exhausted st.1 || decide (x ∈ st.1) then st else (insert x st.1, st.2 ++ [x])

/-- A node is expanded. -/
def expand (caps : Caps) (succ : α → List α) (degree : α → ℕ) (st : Finset α × List α) (x : α) :
    Finset α × List α :=
  if caps.exhausted st.1 || caps.maxDegree.any (fun limit => decide (limit < degree x)) then st
  else (succ x).foldl (visit caps) st

def levels (caps : Caps) (succ : α → List α) (degree : α → ℕ) :
    ℕ → Finset α → List α → Finset α
  | 0, visited, _ => visited
  | n + 1, visited, frontier =>
    let st := frontier.foldl (expand caps succ degree) (visited, [])
    if st.2.isEmpty then st.1 else levels caps succ degree n st.1 st.2

def queueLoop (caps : Caps) (succ : α → List α) (degree : α → ℕ) (hops : ℕ) :
    ℕ → Finset α → List (α × ℕ) → Finset α
  | 0, visited, _ => visited
  | _ + 1, visited, [] => visited
  | fuel + 1, visited, (x, depth) :: queue =>
    if caps.exhausted visited then visited
    else if hops ≤ depth then queueLoop caps succ degree hops fuel visited queue
    else
      let st := expand caps succ degree (visited, []) x
      queueLoop caps succ degree hops fuel st.1 (queue ++ st.2.map fun y => (y, depth + 1))

/-! ### One level -/

section Levels

variable {succ : α → List α} {degree : α → ℕ} {seeds : List α}

lemma visit_eq (st : Finset α × List α) (x : α) :
    visit {} st x = if x ∈ st.1 then st else (insert x st.1, st.2 ++ [x]) := by
  simp [visit, Caps.exhausted]

lemma expand_eq (st : Finset α × List α) (x : α) :
    expand {} succ degree st x = (succ x).foldl (visit {}) st := by
  simp [expand, Caps.exhausted]

lemma foldl_expand (st : Finset α × List α) (frontier : List α) :
    frontier.foldl (expand {} succ degree) st = (frontier.flatMap succ).foldl (visit {}) st := by
  have hexpand : expand {} succ degree = fun st x => (succ x).foldl (visit {}) st := by
    funext st x
    exact expand_eq st x
  rw [List.foldl_flatMap, hexpand]

/-- What the neighbours `xs` add to the found nodes. -/
structure Adds (st : Finset α × List α) (xs : List α) (new : List α) : Prop where
  result : xs.foldl (visit {}) st = (st.1 ∪ new.toFinset, st.2 ++ new)
  mem : ∀ y, y ∈ new ↔ y ∈ xs ∧ y ∉ st.1
  nodup : new.Nodup

lemma exists_adds (visited : Finset α) (xs : List α) :
    ∃ new, ∀ next, Adds (visited, next) xs new := by
  induction xs generalizing visited with
  | nil => exact ⟨[], fun next => ⟨by simp, by simp, List.nodup_nil⟩⟩
  | cons x xs ih =>
    by_cases hx : x ∈ visited
    · obtain ⟨new, hnew⟩ := ih visited
      refine ⟨new, fun next => ⟨?_, fun y => ?_, (hnew next).nodup⟩⟩
      · rw [List.foldl_cons, visit_eq, if_pos hx]
        exact (hnew next).result
      · rw [(hnew next).mem y, List.mem_cons]
        constructor
        · exact fun h => ⟨Or.inr h.1, h.2⟩
        · rintro ⟨rfl | h, hy⟩
          · exact absurd hx hy
          · exact ⟨h, hy⟩
    · obtain ⟨new, hnew⟩ := ih (insert x visited)
      have hmem : ∀ y, y ∈ new ↔ y ∈ xs ∧ y ∉ insert x visited := (hnew []).mem
      refine ⟨x :: new, fun next => ⟨?_, fun y => ?_, ?_⟩⟩
      · rw [List.foldl_cons, visit_eq, if_neg hx, (hnew (next ++ [x])).result]
        simp
      · rw [List.mem_cons, List.mem_cons, hmem y, Finset.mem_insert]
        by_cases hyx : y = x
        · subst hyx
          simp [hx]
        · simp [hyx]
      · refine List.nodup_cons.2 ⟨fun h => ?_, (hnew []).nodup⟩
        exact ((hmem x).1 h).2 (Finset.mem_insert_self x visited)

lemma Adds.card {visited : Finset α} {next xs new : List α} (h : Adds (visited, next) xs new) :
    (visited ∪ new.toFinset).card = visited.card + new.length := by
  rw [Finset.card_union_of_disjoint, List.toFinset_card_of_nodup h.nodup]
  refine Finset.disjoint_left.2 fun y hy hy' => ?_
  exact ((h.mem y).1 (List.mem_toFinset.1 hy')).2 hy

/-- The nodes found so far are those within `n` steps, and all but the frontier are expanded. -/
structure Layer (succ : α → List α) (seeds : List α) (n : ℕ) (visited : Finset α)
    (frontier : List α) : Prop where
  mem : ∀ x, x ∈ visited ↔ Within succ seeds n x
  found : ∀ x ∈ frontier, x ∈ visited
  expanded : ∀ x ∈ visited, x ∉ frontier → ∀ y ∈ succ x, y ∈ visited

variable {n : ℕ} {visited : Finset α} {frontier new : List α}

omit [DecidableEq α] in
lemma layer_zero (hvisited : ∀ x, x ∈ visited ↔ x ∈ seeds)
    (hfrontier : ∀ x, x ∈ frontier ↔ x ∈ seeds) :
    Layer succ seeds 0 visited frontier where
  mem := hvisited
  found x hx := (hvisited x).2 ((hfrontier x).1 hx)
  expanded x hx hnot := absurd ((hfrontier x).2 ((hvisited x).1 hx)) hnot

lemma Layer.step (h : Layer succ seeds n visited frontier)
    (hnew : ∀ y, y ∈ new ↔ y ∈ frontier.flatMap succ ∧ y ∉ visited) :
    Layer succ seeds (n + 1) (visited ∪ new.toFinset) new where
  mem x := by
    rw [Finset.mem_union, List.mem_toFinset, hnew, Within, ← h.mem, List.mem_flatMap]
    constructor
    · rintro (hx | ⟨⟨y, hy, hx⟩, -⟩)
      · exact Or.inl hx
      · exact Or.inr ⟨y, (h.mem y).1 (h.found y hy), hx⟩
    · rintro (hx | ⟨y, hy, hx⟩)
      · exact Or.inl hx
      · by_cases hx' : x ∈ visited
        · exact Or.inl hx'
        · refine Or.inr ⟨⟨y, ?_, hx⟩, hx'⟩
          by_contra hfrontier
          exact hx' (h.expanded y ((h.mem y).2 hy) hfrontier x hx)
  found x hx := Finset.mem_union_right _ (List.mem_toFinset.2 hx)
  expanded x hx hold y hy := by
    have hx : x ∈ visited := by
      rcases Finset.mem_union.1 hx with hx | hx
      · exact hx
      · exact absurd (List.mem_toFinset.1 hx) hold
    by_cases hy' : y ∈ visited
    · exact Finset.mem_union_left _ hy'
    · refine Finset.mem_union_right _ (List.mem_toFinset.2 ((hnew y).2 ⟨?_, hy'⟩))
      refine List.mem_flatMap.2 ⟨x, ?_, hy⟩
      by_contra hfrontier
      exact hy' (h.expanded x hx hfrontier y hy)

omit [DecidableEq α] in
/-- With nothing left to expand, more steps reach nothing new. -/
lemma Layer.within_add (h : Layer succ seeds n visited []) (k : ℕ) (x : α) :
    Within succ seeds (n + k) x ↔ x ∈ visited := by
  induction k generalizing x with
  | zero => exact (h.mem x).symm
  | succ k ih =>
    rw [← Nat.add_assoc, Within, ih]
    constructor
    · rintro (hx | ⟨y, hy, hx⟩)
      · exact hx
      · exact h.expanded y ((ih y).1 hy) List.not_mem_nil x hx
    · exact Or.inl

lemma Layer.mem_levels (h : Layer succ seeds n visited frontier) (k : ℕ) (x : α) :
    x ∈ levels {} succ degree k visited frontier ↔ Within succ seeds (n + k) x := by
  induction k generalizing n visited frontier with
  | zero => exact h.mem x
  | succ k ih =>
    obtain ⟨new, hnew⟩ := exists_adds visited (frontier.flatMap succ)
    have hstep := h.step (hnew []).mem
    rw [levels, foldl_expand, (hnew []).result, List.nil_append]
    have hsteps : n + (k + 1) = n + 1 + k := by omega
    rw [hsteps]
    by_cases hempty : new = []
    · subst hempty
      exact (hstep.within_add k x).symm
    · rw [if_neg (by simpa using hempty)]
      exact ih hstep

/-- The search by levels finds the nodes within the given number of steps. -/
theorem mem_levels (succ : α → List α) (degree : α → ℕ) (hops : ℕ)
    (hvisited : ∀ x, x ∈ visited ↔ x ∈ seeds) (hfrontier : ∀ x, x ∈ frontier ↔ x ∈ seeds) (x : α) :
    x ∈ levels {} succ degree hops visited frontier ↔ Within succ seeds hops x := by
  rw [(layer_zero hvisited hfrontier).mem_levels, Nat.zero_add]

/-! ### The queue -/

/-- At the last depth the queue is only emptied. -/
lemma queueLoop_of_le {hops depth : ℕ} (hdepth : hops ≤ depth) (fuel : ℕ) (visited : Finset α)
    (frontier : List α) :
    queueLoop {} succ degree hops fuel visited (frontier.map fun y => (y, depth)) = visited := by
  induction fuel generalizing frontier with
  | zero => rfl
  | succ fuel ih =>
    cases frontier with
    | nil => rfl
    | cons x frontier =>
      rw [List.map_cons, queueLoop]
      simp only [Caps.exhausted, Option.any_none, Bool.false_eq_true, if_false, hdepth, if_true]
      exact ih frontier

/-- The nodes of one depth are taken out of the queue while those of the next one are put in. -/
lemma queueLoop_drain (succ : α → List α) (degree : α → ℕ) {hops depth : ℕ} (hdepth : depth < hops)
    (fuel : ℕ) (visited : Finset α) (frontier next : List α) :
    queueLoop {} succ degree hops (frontier.length + fuel) visited
        (frontier.map (fun y => (y, depth)) ++ next.map fun y => (y, depth + 1)) =
      queueLoop {} succ degree hops fuel
        ((frontier.flatMap succ).foldl (visit {}) (visited, next)).1
        (((frontier.flatMap succ).foldl (visit {}) (visited, next)).2.map
          fun y => (y, depth + 1)) := by
  induction frontier generalizing visited next with
  | nil => simp
  | cons x frontier ih =>
    obtain ⟨new, hnew⟩ := exists_adds visited (succ x)
    have hfuel : (x :: frontier).length + fuel = frontier.length + fuel + 1 := by
      rw [List.length_cons]
      omega
    rw [hfuel, List.map_cons, List.cons_append, queueLoop]
    simp only [Caps.exhausted, Option.any_none, Bool.false_eq_true, if_false,
      Nat.not_le.2 hdepth]
    rw [expand_eq, (hnew []).result, List.flatMap_cons, List.foldl_append, (hnew next).result,
      List.nil_append, List.append_assoc, ← List.map_append]
    exact ih _ _

lemma Layer.mem_queueLoop (h : Layer succ seeds n visited frontier) (degree : α → ℕ)
    {nodes : Finset α} (hclosed : ∀ x, ∀ y ∈ succ x, y ∈ nodes) (hvisited : visited ⊆ nodes)
    (k depth : ℕ) {fuel : ℕ} (hfuel : frontier.length + (nodes.card - visited.card) ≤ fuel)
    (x : α) :
    x ∈ queueLoop {} succ degree (depth + k) fuel visited (frontier.map fun y => (y, depth)) ↔
      Within succ seeds (n + k) x := by
  induction k generalizing n visited frontier depth fuel with
  | zero =>
    rw [queueLoop_of_le (show depth + 0 ≤ depth from le_rfl)]
    exact h.mem x
  | succ k ih =>
    obtain ⟨new, hnew⟩ := exists_adds visited (frontier.flatMap succ)
    obtain ⟨rest, rfl⟩ := Nat.exists_eq_add_of_le ((Nat.le_add_right _ _).trans hfuel)
    have hdrain := queueLoop_drain succ degree (show depth < depth + (k + 1) by omega) rest visited
      frontier []
    rw [List.map_nil, List.append_nil, (hnew []).result, List.nil_append] at hdrain
    have hdepth : depth + (k + 1) = depth + 1 + k := by omega
    have hsteps : n + (k + 1) = n + 1 + k := by omega
    rw [hdrain, hdepth, hsteps]
    have hsub : visited ∪ new.toFinset ⊆ nodes := by
      refine Finset.union_subset hvisited fun y hy => ?_
      obtain ⟨z, -, hz⟩ := List.mem_flatMap.1 (((hnew []).mem y).1 (List.mem_toFinset.1 hy)).1
      exact hclosed z y hz
    have hcard := (hnew []).card
    have hle := Finset.card_le_card hsub
    exact ih (h.step (hnew []).mem) hsub (depth + 1) (by omega)

/-- The search with a queue finds the nodes within the given number of steps. -/
theorem mem_queueLoop (succ : α → List α) (degree : α → ℕ) (hops : ℕ) {nodes : Finset α}
    (hclosed : ∀ x, ∀ y ∈ succ x, y ∈ nodes) (hseeds : ∀ x ∈ seeds, x ∈ nodes)
    (hvisited : ∀ x, x ∈ visited ↔ x ∈ seeds) (hfrontier : ∀ x, x ∈ frontier ↔ x ∈ seeds)
    (hnodup : frontier.Nodup) {fuel : ℕ} (hfuel : nodes.card ≤ fuel) (x : α) :
    x ∈ queueLoop {} succ degree hops fuel visited (frontier.map fun y => (y, 0)) ↔
      Within succ seeds hops x := by
  have hsub : visited ⊆ nodes := fun y hy => hseeds y ((hvisited y).1 hy)
  have hle := Finset.card_le_card hsub
  have hsame : frontier.toFinset = visited := by
    ext y
    rw [List.mem_toFinset, hfrontier, hvisited]
  have hlen : frontier.length = visited.card := by
    rw [← hsame, List.toFinset_card_of_nodup hnodup]
  have hmem := (layer_zero hvisited hfrontier).mem_queueLoop degree hclosed hsub hops 0
    (show _ ≤ fuel by omega) x
  rwa [Nat.zero_add] at hmem

end Levels

omit [DecidableEq α] in
/-- Searches in graphs with the same edges between distinct nodes find the same nodes. -/
lemma within_congr {succ succ' : α → List α} (h : ∀ x y, x ≠ y → (y ∈ succ x ↔ y ∈ succ' x))
    (seeds : List α) (n : ℕ) (x : α) : Within succ seeds n x ↔ Within succ' seeds n x := by
  induction n generalizing x with
  | zero => exact Iff.rfl
  | succ n ih =>
    rw [Within, Within, ih]
    refine or_congr_right' fun hx => exists_congr fun y => ?_
    rw [ih]
    refine and_congr_right fun hy => h y x ?_
    rintro rfl
    exact hx hy

/-! ### Shortest paths -/

/-- A neighbour of `current` is found: the first node from which a node is found is its parent. -/
def visitFrom (current : α) (st : List (α × α) × List α) (x : α) : List (α × α) × List α :=
  if (st.1.lookup x).isSome then st else ((x, current) :: st.1, st.2 ++ [x])

/-- The search for `stop`: the parents if it was found, `none` if not, or if there are too many
nodes. -/
def pathLoop (maxNodes : ℕ) (succ : α → List α) (stop : α) :
    ℕ → List (α × α) → List α → Option (List (α × α))
  | 0, _, _ => none
  | _ + 1, _, [] => none
  | fuel + 1, parents, current :: queue =>
    if current = stop then some parents
    else if maxNodes ≤ parents.length then none
    else
      let st := (succ current).foldl (visitFrom current) (parents, [])
      pathLoop maxNodes succ stop fuel st.1 (queue ++ st.2)

/-- The nodes from a node back to `start`. -/
def trace (parents : List (α × α)) (start : α) : ℕ → α → List α
  | 0, _ => []
  | fuel + 1, current =>
    if current = start then [start]
    else current :: trace parents start fuel ((parents.lookup current).getD current)

def shortestPath (maxNodes : ℕ) (succ : α → List α) (fuel : ℕ) (start stop : α) : List α :=
  match pathLoop maxNodes succ stop fuel [(start, start)] [start] with
  | some parents => (trace parents start (parents.length + 1) stop).reverse
  | none => []

section Paths

variable {succ : α → List α} {start stop : α} {parents : List (α × α)}

/-- The number of steps from `start` by the parents. -/
inductive Depth (parents : List (α × α)) (start : α) : α → ℕ → Prop
  | start : Depth parents start start 0
  | step {x p : α} {k : ℕ} : x ≠ start → parents.lookup x = some p → Depth parents start p k →
      Depth parents start x (k + 1)

lemma Depth.length_trace {x : α} {k : ℕ} (h : Depth parents start x k) {fuel : ℕ}
    (hfuel : k < fuel) : (trace parents start fuel x).length = k + 1 := by
  induction h generalizing fuel with
  | start =>
    obtain ⟨fuel, rfl⟩ := Nat.exists_eq_add_of_lt hfuel
    simp [trace]
  | @step x p k hx hp _ ih =>
    cases fuel with
    | zero => omega
    | succ fuel =>
      rw [trace, if_neg hx, hp, Option.getD_some, List.length_cons, ih (by omega)]

lemma Depth.cons {x y c : α} {k : ℕ} (h : Depth parents start x k)
    (hy : parents.lookup y = none) : Depth ((y, c) :: parents) start x k := by
  induction h with
  | start => exact .start
  | @step x p k hx hp _ ih =>
    refine .step hx ?_ ih
    have hne : (x == y) = false := by
      rw [beq_eq_false_iff_ne]
      rintro rfl
      rw [hy] at hp
      cases hp
    rw [List.lookup_cons, hne]
    exact hp

/-- The found nodes. -/
def keys (parents : List (α × α)) : Finset α := (parents.map Prod.fst).toFinset

lemma isSome_lookup_iff {x : α} : (parents.lookup x).isSome = true ↔ x ∈ keys parents := by
  rw [keys, List.mem_toFinset]
  induction parents with
  | nil => simp
  | cons e parents ih =>
    rw [List.lookup_cons, List.map_cons, List.mem_cons]
    by_cases hx : x = e.1
    · simp [hx]
    · have hne : (x == e.1) = false := by simpa using hx
      rw [hne]
      simp only [hx, false_or]
      exact ih

/-- What is asked of the parents: every found node has one entry, and is one of `nodes`. -/
structure Sound (nodes : Finset α) (start : α) (parents : List (α × α)) : Prop where
  start_mem : start ∈ keys parents
  subset : keys parents ⊆ nodes
  length_eq : parents.length = (keys parents).card

lemma Sound.cons {nodes : Finset α} (h : Sound nodes start parents) {x : α} (c : α)
    (hx : x ∈ nodes) (hnew : x ∉ keys parents) : Sound nodes start ((x, c) :: parents) := by
  have hkeys : keys ((x, c) :: parents) = insert x (keys parents) := by
    rw [keys, List.map_cons, List.toFinset_cons]
    rfl
  refine ⟨?_, ?_, ?_⟩
  · rw [hkeys]
    exact Finset.mem_insert_of_mem h.start_mem
  · rw [hkeys]
    exact Finset.insert_subset hx h.subset
  · rw [hkeys, Finset.card_insert_of_notMem hnew, List.length_cons, h.length_eq]

/-- The parents after the neighbours `xs` of a node at depth `k`; `new` are the found ones. -/
structure Extends (nodes : Finset α) (start : α) (k : ℕ) (parents : List (α × α)) (xs : List α)
    (parents' : List (α × α)) (new : List α) : Prop where
  sound : Sound nodes start parents'
  keys_eq : keys parents' = keys parents ∪ new.toFinset
  mem : ∀ y, y ∈ new ↔ y ∈ xs ∧ y ∉ keys parents
  nodup : new.Nodup
  depth : ∀ x j, Depth parents start x j → Depth parents' start x j
  depth_new : ∀ x ∈ new, Depth parents' start x (k + 1)

lemma Extends.refl {nodes : Finset α} (h : Sound nodes start parents) (k : ℕ) :
    Extends nodes start k parents [] parents [] where
  sound := h
  keys_eq := by simp
  mem := by simp
  nodup := List.nodup_nil
  depth _ _ := id
  depth_new _ hx := absurd hx List.not_mem_nil

lemma Extends.trans {nodes : Finset α} {k : ℕ} {xs ys new new' : List α}
    {parents' parents'' : List (α × α)} (h : Extends nodes start k parents xs parents' new)
    (h' : Extends nodes start k parents' ys parents'' new') :
    Extends nodes start k parents (xs ++ ys) parents'' (new ++ new') where
  sound := h'.sound
  keys_eq := by rw [h'.keys_eq, h.keys_eq, List.toFinset_append, Finset.union_assoc]
  mem y := by
    rw [List.mem_append, List.mem_append, h'.mem, h.keys_eq, Finset.mem_union, List.mem_toFinset,
      h.mem]
    tauto
  nodup := by
    refine List.nodup_append'.2 ⟨h.nodup, h'.nodup, fun y hy hy' => ?_⟩
    refine ((h'.mem y).1 hy').2 ?_
    rw [h.keys_eq]
    exact Finset.mem_union_right _ (List.mem_toFinset.2 hy)
  depth x j hx := h'.depth x j (h.depth x j hx)
  depth_new x hx := by
    rcases List.mem_append.1 hx with hx | hx
    · exact h'.depth x _ (h.depth_new x hx)
    · exact h'.depth_new x hx

lemma exists_extends {nodes : Finset α} {k : ℕ} {current : α} (h : Sound nodes start parents)
    (hcurrent : Depth parents start current k) {xs : List α} (hxs : ∀ x ∈ xs, x ∈ nodes) :
    ∃ parents' new, Extends nodes start k parents xs parents' new ∧
      ∀ next, xs.foldl (visitFrom current) (parents, next) = (parents', next ++ new) := by
  induction xs generalizing parents with
  | nil => exact ⟨parents, [], .refl h k, fun next => by simp⟩
  | cons x xs ih =>
    have hrest : ∀ y ∈ xs, y ∈ nodes := fun y hy => hxs y (List.mem_cons_of_mem x hy)
    by_cases hx : x ∈ keys parents
    · obtain ⟨parents', new, hext, hfold⟩ := ih h hcurrent hrest
      refine ⟨parents', new, { hext with mem := fun y => ?_ }, fun next => ?_⟩
      · rw [hext.mem, List.mem_cons]
        constructor
        · exact fun hy => ⟨Or.inr hy.1, hy.2⟩
        · rintro ⟨rfl | hy, hnot⟩
          · exact absurd hx hnot
          · exact ⟨hy, hnot⟩
      · rw [List.foldl_cons, visitFrom, if_pos (isSome_lookup_iff.2 hx)]
        exact hfold next
    · have hnone : parents.lookup x = none := by
        rw [← Option.not_isSome_iff_eq_none, isSome_lookup_iff]
        exact hx
      have hone : Extends nodes start k parents [x] ((x, current) :: parents) [x] := by
        refine ⟨h.cons current (hxs x List.mem_cons_self) hx, ?_, ?_, List.nodup_singleton x, ?_,
          ?_⟩
        · rw [keys, List.map_cons, List.toFinset_cons, Finset.insert_eq, Finset.union_comm]
          rfl
        · intro y
          rw [List.mem_singleton]
          constructor
          · rintro rfl
            exact ⟨rfl, hx⟩
          · exact fun hy => hy.1
        · exact fun y j hy => hy.cons hnone
        · intro y hy
          obtain rfl := List.mem_singleton.1 hy
          refine .step ?_ (by simp) (hcurrent.cons hnone)
          rintro rfl
          exact hx h.start_mem
      obtain ⟨parents', new, hext, hfold⟩ := ih hone.sound (hcurrent.cons hnone) hrest
      refine ⟨parents', x :: new, hone.trans hext, fun next => ?_⟩
      have hsome : ¬ (parents.lookup x).isSome = true := by simp [hnone]
      rw [List.foldl_cons, visitFrom, if_neg hsome, hfold, List.append_assoc]
      rfl

/-- The nodes of one depth are taken out of the queue while those of the next one are put in, unless
`stop` is among them. -/
lemma pathLoop_drain (stop : α) {nodes : Finset α} {maxNodes : ℕ} (hcap : nodes.card < maxNodes)
    (hclosed : ∀ x, ∀ y ∈ succ x, y ∈ nodes) {k : ℕ} (fuel : ℕ) (frontier next : List α)
    (h : Sound nodes start parents) (hfrontier : ∀ x ∈ frontier, Depth parents start x k) :
    ∃ parents' new, Extends nodes start k parents (frontier.flatMap succ) parents' new ∧
      ((stop ∉ frontier ∧ pathLoop maxNodes succ stop (frontier.length + fuel) parents
          (frontier ++ next) = pathLoop maxNodes succ stop fuel parents' (next ++ new)) ∨
        (stop ∈ frontier ∧ ∃ found, pathLoop maxNodes succ stop (frontier.length + fuel) parents
          (frontier ++ next) = some found ∧ Depth found start stop k ∧
            parents.length ≤ found.length)) := by
  induction frontier generalizing parents next with
  | nil => exact ⟨parents, [], .refl h k, Or.inl ⟨List.not_mem_nil, by simp⟩⟩
  | cons x frontier ih =>
    have hfuel : (x :: frontier).length + fuel = frontier.length + fuel + 1 := by
      rw [List.length_cons]
      omega
    obtain ⟨parents₁, new₁, hext₁, hfold⟩ :=
      exists_extends h (hfrontier x List.mem_cons_self) (hclosed x)
    obtain ⟨parents₂, new₂, hext₂, hrun⟩ := ih (next ++ new₁) hext₁.sound
      fun y hy => hext₁.depth y k (hfrontier y (List.mem_cons_of_mem x hy))
    refine ⟨parents₂, new₁ ++ new₂, hext₁.trans hext₂, ?_⟩
    rw [hfuel, List.cons_append, pathLoop]
    by_cases hx : x = stop
    · subst hx
      rw [if_pos rfl]
      exact Or.inr ⟨List.mem_cons_self, parents, rfl, hfrontier x List.mem_cons_self, le_rfl⟩
    · have hlen : ¬ maxNodes ≤ parents.length := by
        have := Finset.card_le_card h.subset
        rw [h.length_eq]
        omega
      have hlen₁ : parents.length ≤ parents₁.length := by
        rw [h.length_eq, hext₁.sound.length_eq]
        refine Finset.card_le_card ?_
        rw [hext₁.keys_eq]
        exact Finset.subset_union_left
      rw [if_neg hx, if_neg hlen, hfold, List.nil_append]
      simp only [List.append_assoc] at hrun ⊢
      rcases hrun with ⟨hstop, hrun⟩ | ⟨hstop, found, hrun, hdepth, hle⟩
      · refine Or.inl ⟨?_, hrun⟩
        rw [List.mem_cons, not_or]
        exact ⟨fun heq => hx heq.symm, hstop⟩
      · exact Or.inr ⟨List.mem_cons_of_mem x hstop, found, hrun, hdepth, hlen₁.trans hle⟩

lemma Extends.card_keys {nodes : Finset α} {k : ℕ} {xs new : List α} {parents' : List (α × α)}
    (h : Extends nodes start k parents xs parents' new) :
    (keys parents').card = (keys parents).card + new.length := by
  rw [h.keys_eq, Finset.card_union_of_disjoint, List.toFinset_card_of_nodup h.nodup]
  refine Finset.disjoint_left.2 fun y hy hy' => ?_
  exact ((h.mem y).1 (List.mem_toFinset.1 hy')).2 hy

/-- The search from a level on, if `stop` was not found before it. -/
lemma pathLoop_of_layer (stop : α) {nodes : Finset α} {maxNodes : ℕ} (hcap : nodes.card < maxNodes)
    (hclosed : ∀ x, ∀ y ∈ succ x, y ∈ nodes) {k : ℕ} {fuel : ℕ} {frontier : List α}
    (h : Sound nodes start parents) (hlayer : Layer succ [start] k (keys parents) frontier)
    (hfrontier : ∀ x ∈ frontier, Depth parents start x k) (hk : k < parents.length)
    (hbefore : ∀ j < k, ¬ Within succ [start] j stop)
    (hnow : Within succ [start] k stop → stop ∈ frontier)
    (hfuel : frontier.length + (nodes.card - (keys parents).card) ≤ fuel) :
    (∃ found m, pathLoop maxNodes succ stop fuel parents frontier = some found ∧
      Depth found start stop m ∧ m < found.length ∧ Within succ [start] m stop ∧
        ∀ j < m, ¬ Within succ [start] j stop) ∨
    (pathLoop maxNodes succ stop fuel parents frontier = none ∧
      ∀ m, ¬ Within succ [start] m stop) := by
  induction hsize : nodes.card - (keys parents).card using Nat.strong_induction_on
    generalizing k fuel frontier parents with
  | _ size ih =>
  obtain ⟨rest, rfl⟩ := Nat.exists_eq_add_of_le ((Nat.le_add_right _ _).trans hfuel)
  obtain ⟨parents', new, hext, hrun⟩ :=
    pathLoop_drain stop hcap hclosed rest frontier [] h hfrontier
  rw [List.append_nil, List.nil_append] at hrun
  rcases hrun with ⟨hstop, hrun⟩ | ⟨hstop, found, hrun, hdepth, hle⟩
  · have hafter : ∀ j < k + 1, ¬ Within succ [start] j stop := by
      intro j hj
      rcases Nat.lt_succ_iff_lt_or_eq.1 hj with hj | rfl
      · exact hbefore j hj
      · exact fun hwithin => hstop (hnow hwithin)
    have hlayer' : Layer succ [start] (k + 1) (keys parents') new := by
      rw [hext.keys_eq]
      exact hlayer.step hext.mem
    rw [hrun]
    by_cases hempty : new = []
    · -- nothing new: the search ends here, and more steps reach no more nodes
      subst hempty
      refine Or.inr ⟨by cases rest <;> rfl, fun m hm => ?_⟩
      rcases Nat.lt_or_ge m (k + 1) with hlt | hge
      · exact hafter m hlt hm
      · obtain ⟨j, rfl⟩ := Nat.exists_eq_add_of_le hge
        have hlast := (hlayer'.within_add j stop).1 hm
        rw [hext.keys_eq, List.toFinset_nil, Finset.union_empty] at hlast
        exact hafter k (Nat.lt_succ_self k) ((hlayer.mem stop).1 hlast)
    · have hcard := hext.card_keys
      have hpos := List.length_pos_of_ne_nil hempty
      have hle := Finset.card_le_card hext.sound.subset
      have hlen := hext.sound.length_eq
      have hlen₀ := h.length_eq
      refine ih _ ?_ hext.sound hlayer' hext.depth_new ?_ hafter (fun hwithin => ?_) ?_ rfl
      · omega
      · omega
      · have hfound := (hlayer'.mem stop).2 hwithin
        rw [hext.keys_eq, Finset.mem_union, List.mem_toFinset] at hfound
        rcases hfound with hfound | hfound
        · exact absurd ((hlayer.mem stop).1 hfound) (hafter k (Nat.lt_succ_self k))
        · exact hfound
      · omega
  · have hmem := (hlayer.mem stop).1 (hlayer.found stop hstop)
    exact Or.inl ⟨found, k, hrun, hdepth, hk.trans_le hle, hmem, hbefore⟩

/-- The number of nodes on a shortest path, which is 0 if there is none. -/
def PathLength (succ : α → List α) (start stop : α) (length : ℕ) : Prop :=
  (∃ m, length = m + 1 ∧ Within succ [start] m stop ∧ ∀ j < m, ¬ Within succ [start] j stop) ∨
  (length = 0 ∧ ∀ m, ¬ Within succ [start] m stop)

theorem length_shortestPath {nodes : Finset α} {maxNodes : ℕ} (hcap : nodes.card < maxNodes)
    (hclosed : ∀ x, ∀ y ∈ succ x, y ∈ nodes) (hstart : start ∈ nodes) {fuel : ℕ}
    (hfuel : nodes.card ≤ fuel) (stop : α) :
    PathLength succ start stop (shortestPath maxNodes succ fuel start stop).length := by
  have hkeys : keys [(start, start)] = {start} := rfl
  have hsound : Sound nodes start [(start, start)] := by
    refine ⟨?_, ?_, rfl⟩
    · rw [hkeys]
      exact Finset.mem_singleton_self start
    · rw [hkeys]
      exact Finset.singleton_subset_iff.2 hstart
  have hpos : 0 < nodes.card := Finset.card_pos.2 ⟨start, hstart⟩
  have hlayer : Layer succ [start] 0 (keys [(start, start)]) [start] :=
    layer_zero (by simp [hkeys]) fun _ => Iff.rfl
  have hrun := pathLoop_of_layer stop hcap hclosed hsound hlayer
    (fun x hx => by
      obtain rfl := List.mem_singleton.1 hx
      exact .start)
    (by simp) (fun j hj => absurd hj (Nat.not_lt_zero j)) id
    (show _ ≤ fuel by simp [hkeys]; omega)
  rw [shortestPath]
  rcases hrun with ⟨found, m, hrun, hdepth, hm, hwithin, hleast⟩ | ⟨hrun, hnever⟩
  · rw [hrun]
    refine Or.inl ⟨m, ?_, hwithin, hleast⟩
    rw [List.length_reverse, hdepth.length_trace (by omega)]
  · rw [hrun]
    exact Or.inr ⟨rfl, hnever⟩

omit [DecidableEq α] in
lemma PathLength.eq {succ' : α → List α} {l l' : ℕ} (h : PathLength succ start stop l)
    (h' : PathLength succ' start stop l')
    (hwithin : ∀ m, Within succ [start] m stop ↔ Within succ' [start] m stop) : l = l' := by
  rcases h with ⟨m, rfl, hm, hleast⟩ | ⟨rfl, hnever⟩
  · rcases h' with ⟨m', rfl, hm', hleast'⟩ | ⟨-, hnever'⟩
    · have hle : ¬ m < m' := fun hlt => hleast' m hlt ((hwithin m).1 hm)
      have hge : ¬ m' < m := fun hlt => hleast m' hlt ((hwithin m').2 hm')
      omega
    · exact absurd ((hwithin m).1 hm) (hnever' m)
  · rcases h' with ⟨m', -, hm', -⟩ | ⟨rfl, -⟩
    · exact absurd ((hwithin m').2 hm') (hnever m')
    · rfl

omit [DecidableEq α] in
/-- A path of two nodes is an edge. -/
lemma PathLength.eq_two_iff {l : ℕ} (h : PathLength succ start stop l) (hne : start ≠ stop) :
    l = 2 ↔ stop ∈ succ start := by
  have hzero : ¬ Within succ [start] 0 stop := fun hmem => hne (List.mem_singleton.1 hmem).symm
  have hone : Within succ [start] 1 stop ↔ stop ∈ succ start := by
    rw [Within]
    simp [Within, hne.symm]
  rw [← hone]
  rcases h with ⟨m, rfl, hm, hleast⟩ | ⟨rfl, hnever⟩
  · constructor
    · intro hl
      obtain rfl : m = 1 := by omega
      exact hm
    · intro hedge
      have hle : ¬ 1 < m := fun hlt => hleast 1 hlt hedge
      have hpos : m ≠ 0 := by
        rintro rfl
        exact hzero hm
      omega
  · exact ⟨fun hl => by omega, fun hedge => absurd hedge (hnever 1)⟩

end Paths

end Bfs

import BenoStreamDB.Foundations.Labels
import BenoStreamDB.Foundations.NestedLoop

/-!
# Connected components by queries

`algorithms/connected_components.rs`. Labels and edges are tables, and each round runs five queries:
the least label at an incident edge, the labels of labels twice, a checksum, and the contraction of
the edges. When the checksum stays as it was, the loop ends.

Ids are nullable values of any linear order. A node of an edge with a NULL at the other end has a
row of its own, and NULL has a row with the label NULL. If the loop ends because of the checksum,
and this noticed every change, then the label of a node is the least node of its component:
`computeConnectedComponents_isLeast`.

The tables are written to files in between, which is left out.
-/

namespace BenoStreamDB

open Relation

variable {α : Type} [LinearOrder α]

/-- Rows of `(id, component_id)`, or of `(src, dst)`. -/
abbrev PairTable (α : Type) := List (Option α × Option α)

/-- `a = b` in a condition: NULL is equal to nothing. -/
def sqlEq (a b : Option α) : Bool := a.isSome && a == b

/-- `a <> b` in a condition -/
def sqlNe (a b : Option α) : Bool := a.isSome && b.isSome && a != b

/-- `MIN`, which skips NULL -/
def sqlMin (values : List (Option α)) : Option α := (values.filterMap id).min?

/-- The initial state: every endpoint once, with itself as the label. -/
def initLabels (table : PairTable α) : PairTable α :=
  (table.map Prod.fst ++ table.map Prod.snd).dedup.map fun id => (id, id)

/-- The working edges: in both directions, without duplicates and loops. -/
def initEdges (table : PairTable α) : PairTable α :=
  ((table ++ table.map Prod.swap).filter fun e => sqlNe e.1 e.2).dedup

/-- The labels that a node can adopt: its own and those at its edges. -/
def offeredLabels (edges state : PairTable α) : PairTable α :=
  state ++ edges.flatMap fun e =>
    (state.filter fun s => sqlEq e.1 s.1).map fun s => (e.2, s.2)

/-- `SELECT id, MIN(lab) … GROUP BY id`, with one group for NULL -/
def propagateLabels (edges state : PairTable α) : PairTable α :=
  let rows := offeredLabels edges state
  (rows.map Prod.fst).dedup.map fun id =>
    (id, sqlMin ((rows.filter fun r => r.1 = id).map Prod.snd))

/-- `COALESCE(j.component_id, s.component_id)` over the state joined with itself -/
def jumpLabels (state : PairTable α) : PairTable α :=
  (NestedLoop.leftJoin state state (fun s j => sqlEq s.2 j.1) (none, none)).map fun r =>
    (r.1.1, r.2.2 <|> r.1.2)

/-- The edges between the labels of the ends, where these differ. -/
def contractEdges (edges state : PairTable α) : PairTable α :=
  (edges.flatMap fun e =>
    (state.filter fun sl => sqlEq e.1 sl.1).flatMap fun sl =>
      (state.filter fun dl => sqlEq e.2 dl.1 && sqlNe sl.2 dl.2).map fun dl =>
        (sl.2, dl.2)).dedup

/-- The new labels of a round. -/
def roundLabels (edges state : PairTable α) : PairTable α :=
  jumpLabels (jumpLabels (propagateLabels edges state))

section Loop

variable {σ : Type} [BEq σ] (checksum : PairTable α → σ)

/-- The rounds, and whether they ended because the checksum stayed. -/
def componentsLoop : ℕ → PairTable α → PairTable α → PairTable α × Bool
  | 0, _, state => (state, false)
  | rounds + 1, edges, state =>
    let next := roundLabels edges state
    if checksum next == checksum state then (next, true)
    else componentsLoop rounds (contractEdges edges next) next

/-- `compute_connected_components` -/
def computeConnectedComponents (table : PairTable α) (maxIterations : ℕ) : PairTable α × Bool :=
  componentsLoop checksum maxIterations (initEdges table) (initLabels table)

end Loop

/-! ### Tables and functions -/

/-- The table holds the labels of the nodes `V`, and perhaps a row of two NULLs. -/
structure HoldsLabels (V : Finset α) (label : α → α) (state : PairTable α) : Prop where
  mem : ∀ v ∈ V, (some v, some (label v)) ∈ state
  eq : ∀ r ∈ state, r = (none, none) ∨ ∃ v ∈ V, r = (some v, some (label v))

/-- The table holds the edges of `E`. -/
def HoldsEdges (E : α → α → Prop) (edges : PairTable α) : Prop :=
  ∀ e, e ∈ edges ↔ ∃ u v, E u v ∧ e = (some u, some v)

variable {V : Finset α} {label : α → α} {E : α → α → Prop} {edges state : PairTable α}

@[simp] lemma sqlEq_iff {a b : Option α} : sqlEq a b = true ↔ ∃ v, a = some v ∧ b = some v := by
  cases a with
  | none => simp [sqlEq]
  | some v =>
    simp only [sqlEq, Option.isSome_some, Bool.true_and, beq_iff_eq, Option.some.injEq,
      exists_eq_left']
    exact eq_comm

@[simp] lemma sqlNe_iff {a b : Option α} :
    sqlNe a b = true ↔ ∃ u v, u ≠ v ∧ a = some u ∧ b = some v := by
  cases a <;> cases b <;> simp [sqlNe]

lemma sqlMin_eq_some_iff {values : List (Option α)} {m : α} :
    sqlMin values = some m ↔ some m ∈ values ∧ ∀ v, some v ∈ values → m ≤ v := by
  rw [sqlMin, List.min?_eq_some_iff]
  simp

omit [LinearOrder α] in
lemma HoldsLabels.mem_iff (h : HoldsLabels V label state) {v : α} {c : Option α} :
    (some v, c) ∈ state ↔ v ∈ V ∧ c = some (label v) := by
  refine ⟨fun hmem => ?_, ?_⟩
  · rcases h.eq _ hmem with heq | ⟨u, hu, heq⟩
    · simp at heq
    · obtain ⟨huv, hc⟩ := Prod.ext_iff.1 heq
      obtain rfl : v = u := Option.some.inj huv
      exact ⟨hu, hc⟩
  · rintro ⟨hv, rfl⟩
    exact h.mem v hv

lemma exists_sqlMin {values : List (Option α)} {v : α} (hv : some v ∈ values) :
    ∃ m, sqlMin values = some m := by
  refine Option.isSome_iff_exists.1 (List.isSome_min?_of_mem (a := v) ?_)
  simpa using hv

lemma mem_offeredLabels (hs : HoldsLabels V label state) (he : HoldsEdges E edges)
    (hE : ∀ u v, E u v → u ∈ V) {r : Option α × Option α} :
    r ∈ offeredLabels edges state ↔
      r ∈ state ∨ ∃ u v, E u v ∧ r = (some v, some (label u)) := by
  rw [offeredLabels, List.mem_append]
  refine or_congr_right ?_
  simp only [List.mem_flatMap, List.mem_map, List.mem_filter, sqlEq_iff]
  constructor
  · rintro ⟨e, hmem, ⟨id, c⟩, ⟨hrow, w, hw, rfl : id = some w⟩, rfl⟩
    obtain ⟨u, v, huv, rfl⟩ := (he e).1 hmem
    obtain rfl : u = w := Option.some.inj hw
    obtain ⟨-, rfl⟩ := hs.mem_iff.1 hrow
    exact ⟨u, v, huv, rfl⟩
  · rintro ⟨u, v, huv, rfl⟩
    exact ⟨_, (he _).2 ⟨u, v, huv, rfl⟩, _, ⟨hs.mem u (hE u v huv), u, rfl, rfl⟩, rfl⟩

/-- The propagation is a step of the labels. -/
lemma exists_propagateLabels (hs : HoldsLabels V label state) (he : HoldsEdges E edges)
    (hE : ∀ u v, E u v → u ∈ V ∧ v ∈ V) :
    ∃ p, HoldsLabels V p (propagateLabels edges state) ∧ Labels.IsStep V label E p := by
  have hoffer := @mem_offeredLabels _ _ _ _ _ _ _ hs he fun u v huv => (hE u v huv).1
  set values : Option α → List (Option α) := fun id =>
    ((offeredLabels edges state).filter fun r => r.1 = id).map Prod.snd with hvalues
  have hmem : ∀ v ∈ V, ∀ m, some m ∈ values (some v) ↔
      m = label v ∨ ∃ u, E u v ∧ m = label u := by
    intro v hv m
    simp only [hvalues, List.mem_map, List.mem_filter, hoffer, decide_eq_true_eq]
    constructor
    · rintro ⟨⟨id, c⟩, ⟨hr | ⟨u, w, huw, hr⟩, rfl⟩, rfl⟩
      · exact .inl (Option.some.inj (hs.mem_iff.1 hr).2)
      · obtain ⟨hid, hc⟩ := Prod.ext_iff.1 hr
        obtain rfl : v = w := Option.some.inj hid
        exact .inr ⟨u, huw, Option.some.inj hc⟩
    · rintro (rfl | ⟨u, huv, rfl⟩)
      · exact ⟨_, ⟨.inl (hs.mem v hv), rfl⟩, rfl⟩
      · exact ⟨_, ⟨.inr ⟨u, v, huv, rfl⟩, rfl⟩, rfl⟩
  have hnode : ∀ r ∈ offeredLabels edges state, r = (none, none) ∨ ∃ v ∈ V, r.1 = some v := by
    intro r hr
    rcases hoffer.1 hr with hr | ⟨u, v, huv, rfl⟩
    · rcases hs.eq r hr with rfl | ⟨v, hv, rfl⟩
      · exact .inl rfl
      · exact .inr ⟨v, hv, rfl⟩
    · exact .inr ⟨v, (hE u v huv).2, rfl⟩
  have hnull : sqlMin (values none) = none := by
    refine Option.eq_none_iff_forall_ne_some.2 fun m hm => ?_
    have hmem' := (sqlMin_eq_some_iff.1 hm).1
    simp only [hvalues, List.mem_map, List.mem_filter, decide_eq_true_eq] at hmem'
    obtain ⟨r, ⟨hr, hid⟩, hc⟩ := hmem'
    rcases hnode r hr with rfl | ⟨v, -, hv⟩
    · simp at hc
    · simp [hid] at hv
  have hmin : ∀ v, ∃ m, v ∈ V → sqlMin (values (some v)) = some m := by
    intro v
    by_cases hv : v ∈ V
    · obtain ⟨m, hm⟩ := exists_sqlMin ((hmem v hv _).2 (.inl rfl))
      exact ⟨m, fun _ => hm⟩
    · exact ⟨v, fun h => absurd h hv⟩
  choose p hp using hmin
  refine ⟨p, ⟨fun v hv => ?_, fun r hr => ?_⟩, ⟨fun v hv => ?_, fun v hv => ?_, fun u v huv => ?_⟩⟩
  · rw [propagateLabels, List.mem_map]
    refine ⟨some v, ?_, by rw [← hp v hv]⟩
    rw [List.mem_dedup, List.mem_map]
    exact ⟨_, hoffer.2 (.inl (hs.mem v hv)), rfl⟩
  · rw [propagateLabels, List.mem_map] at hr
    obtain ⟨id, hid, rfl⟩ := hr
    rw [List.mem_dedup, List.mem_map] at hid
    obtain ⟨row, hrow, hid⟩ := hid
    rcases hnode row hrow with rfl | ⟨v, hv, hrv⟩
    · obtain rfl : none = id := hid
      exact .inl (congrArg (Prod.mk none) hnull)
    · obtain rfl : some v = id := hrv.symm.trans hid
      exact .inr ⟨v, hv, congrArg (Prod.mk (some v)) (hp v hv)⟩
  · exact (hmem v hv _).1 (sqlMin_eq_some_iff.1 (hp v hv)).1
  · exact (sqlMin_eq_some_iff.1 (hp v hv)).2 _ ((hmem v hv _).2 (.inl rfl))
  · have hv := (hE u v huv).2
    exact (sqlMin_eq_some_iff.1 (hp v hv)).2 _ ((hmem v hv _).2 (.inr ⟨u, huv, rfl⟩))

/-- A jump composes the labels with themselves. -/
lemma HoldsLabels.jumpLabels (hs : HoldsLabels V label state) (hV : ∀ v ∈ V, label v ∈ V) :
    HoldsLabels V (label ∘ label) (jumpLabels state) := by
  -- the row of a label joins with that of a node, and a row without one with nothing
  have hmatch : ∀ {v : α}, v ∈ V → ((some (label v), some (label (label v))) ∈ state ∧
      sqlEq (some (label v)) (some (label v)) = true) :=
    fun hv => ⟨hs.mem _ (hV _ hv), by simp⟩
  refine ⟨fun v hv => ?_, fun r hr => ?_⟩
  · rw [BenoStreamDB.jumpLabels, List.mem_map]
    exact ⟨((some v, some (label v)), (some (label v), some (label (label v)))),
      NestedLoop.mem_leftJoin.2 ⟨hs.mem v hv, .inl (hmatch hv)⟩, rfl⟩
  · rw [BenoStreamDB.jumpLabels, List.mem_map] at hr
    obtain ⟨⟨row, id, c⟩, hx, rfl⟩ := hr
    obtain ⟨hrow, hjoin⟩ := NestedLoop.mem_leftJoin.1 hx
    rcases hs.eq row hrow with rfl | ⟨v, hv, rfl⟩
    · rcases hjoin with ⟨-, hon⟩ | ⟨hnull, -⟩
      · simp at hon
      · obtain ⟨rfl, rfl⟩ := Prod.mk.inj hnull
        exact .inl rfl
    · rcases hjoin with ⟨hj, hon⟩ | ⟨-, hnone⟩
      · obtain ⟨w, hw, rfl : id = some w⟩ := sqlEq_iff.1 hon
        obtain rfl : label v = w := Option.some.inj hw
        exact .inr ⟨v, hv, by simp [(hs.mem_iff.1 hj).2]⟩
      · exact absurd (hmatch hv).2 (by simp [hnone _ (hmatch hv).1])

/-- The contraction of the table is that of the edges. -/
lemma HoldsEdges.contractEdges (hs : HoldsLabels V label state) (he : HoldsEdges E edges)
    (hE : ∀ u v, E u v → u ∈ V ∧ v ∈ V) :
    HoldsEdges (Labels.Contracted label E) (contractEdges edges state) := by
  intro e
  simp only [BenoStreamDB.contractEdges, List.mem_dedup, List.mem_flatMap, List.mem_map,
    List.mem_filter, Bool.and_eq_true, sqlEq_iff, sqlNe_iff]
  constructor
  · rintro ⟨e, hmem, ⟨_, c⟩, ⟨hsrc, u', hu, rfl⟩, ⟨_, d⟩, ⟨hdst, ⟨v', hv, rfl⟩, hne⟩, rfl⟩
    obtain ⟨u, v, huv, rfl⟩ := (he e).1 hmem
    obtain rfl : u = u' := Option.some.inj hu
    obtain rfl : v = v' := Option.some.inj hv
    obtain ⟨-, rfl⟩ := hs.mem_iff.1 hsrc
    obtain ⟨-, rfl⟩ := hs.mem_iff.1 hdst
    obtain ⟨a, b, hab, ha, hb⟩ := hne
    obtain rfl : label u = a := Option.some.inj ha
    obtain rfl : label v = b := Option.some.inj hb
    exact ⟨_, _, ⟨hab, u, v, huv, rfl, rfl⟩, rfl⟩
  · rintro ⟨a, b, ⟨hab, u, v, huv, rfl, rfl⟩, rfl⟩
    obtain ⟨hu, hv⟩ := hE u v huv
    exact ⟨_, (he _).2 ⟨u, v, huv, rfl⟩, _, ⟨hs.mem u hu, u, rfl, rfl⟩, _,
      ⟨hs.mem v hv, ⟨v, rfl, rfl⟩, _, _, hab, rfl, rfl⟩, rfl⟩

/-! ### Runs -/

/-- The ids in the table. -/
def tableNodes (table : PairTable α) : Finset α :=
  ((table.map Prod.fst ++ table.map Prod.snd).filterMap id).toFinset

/-- An edge of the table. -/
def TableEdge (table : PairTable α) (u v : α) : Prop := (some u, some v) ∈ table

lemma mem_tableNodes {table : PairTable α} {v : α} :
    v ∈ tableNodes table ↔ some v ∈ table.map Prod.fst ++ table.map Prod.snd := by
  simp only [tableNodes, List.mem_toFinset, List.mem_filterMap, id, exists_eq_right]

lemma TableEdge.mem {table : PairTable α} {u v : α} (h : TableEdge table u v) :
    u ∈ tableNodes table ∧ v ∈ tableNodes table := by
  rw [mem_tableNodes, mem_tableNodes, List.mem_append, List.mem_append]
  exact ⟨.inl (List.mem_map_of_mem h), .inr (List.mem_map_of_mem h)⟩

lemma holdsLabels_initLabels (table : PairTable α) :
    HoldsLabels (tableNodes table) id (initLabels table) := by
  refine ⟨fun v hv => ?_, fun r hr => ?_⟩
  · rw [initLabels, List.mem_map]
    exact ⟨some v, List.mem_dedup.2 (mem_tableNodes.1 hv), rfl⟩
  · rw [initLabels, List.mem_map] at hr
    obtain ⟨a, ha, rfl⟩ := hr
    cases a with
    | none => exact .inl rfl
    | some v => exact .inr ⟨v, mem_tableNodes.2 (List.mem_dedup.1 ha), rfl⟩

lemma holdsEdges_initEdges (table : PairTable α) :
    HoldsEdges (fun u v => u ≠ v ∧ (TableEdge table u v ∨ TableEdge table v u))
      (initEdges table) := by
  rintro ⟨a, b⟩
  simp only [initEdges, List.mem_dedup, List.mem_filter, List.mem_append, List.mem_map,
    sqlNe_iff, TableEdge]
  constructor
  · rintro ⟨hmem | ⟨r, hmem, hr⟩, u, v, huv, rfl, rfl⟩
    · exact ⟨u, v, ⟨huv, .inl hmem⟩, rfl⟩
    · obtain rfl : r = (some v, some u) := Prod.swap_inj.1 hr
      exact ⟨u, v, ⟨huv, .inr hmem⟩, rfl⟩
  · rintro ⟨u, v, ⟨huv, hmem | hmem⟩, heq⟩
    all_goals obtain ⟨rfl, rfl⟩ := Prod.ext_iff.1 heq
    · exact ⟨.inl hmem, u, v, huv, rfl, rfl⟩
    · exact ⟨.inr ⟨_, hmem, rfl⟩, u, v, huv, rfl, rfl⟩

lemma labels_inv_init (table : PairTable α) :
    Labels.Inv (TableEdge table) (tableNodes table) id
      (fun u v => u ≠ v ∧ (TableEdge table u v ∨ TableEdge table v u)) where
  label_mem _ hv := hv
  label_le _ _ := le_rfl
  label_connected _ _ := .refl _
  symm _ _ huv := ⟨huv.1.symm, huv.2.symm⟩
  mem _ _ huv := huv.2.elim (fun h => h.mem.1) fun h => h.mem.2
  edge_connected _ _ huv := huv.2.elim (fun h => .rel _ _ h) fun h => (EqvGen.rel _ _ h).symm
  label_edges _ _ _ := .refl _
  complete u v huv := by
    by_cases heq : u = v
    · rw [heq]
      exact .refl _
    · exact .rel u v (.inl ⟨heq, .inl huv⟩)

/-- A round of the tables is a round of the labels. -/
lemma exists_round {R : α → α → Prop} (h : Labels.Inv R V label E)
    (hs : HoldsLabels V label state) (he : HoldsEdges E edges) :
    ∃ p, Labels.IsStep V label E p ∧ HoldsLabels V (Labels.jumps p) (roundLabels edges state) ∧
      HoldsEdges (Labels.Contracted (Labels.jumps p) E)
        (contractEdges edges (roundLabels edges state)) := by
  have hE : ∀ u v, E u v → u ∈ V ∧ v ∈ V := fun u v huv =>
    ⟨h.mem u v huv, h.mem v u (h.symm u v huv)⟩
  obtain ⟨p, hp, hstep⟩ := exists_propagateLabels hs he hE
  have hmem := h.step_mem hstep
  have hlabels : HoldsLabels V (Labels.jumps p) (roundLabels edges state) :=
    (hp.jumpLabels hmem).jumpLabels fun v hv => hmem _ (hmem v hv)
  exact ⟨p, hstep, hlabels, he.contractEdges hlabels hE⟩

section Loop

variable {σ : Type} [BEq σ] {checksum : PairTable α → σ}

/-- The edges and labels after one more round. -/
def componentsStep (t : PairTable α × PairTable α) : PairTable α × PairTable α :=
  (contractEdges t.1 (roundLabels t.1 t.2), roundLabels t.1 t.2)

/-- The checksum notices if the round changes the labels. -/
def Detects (checksum : PairTable α → σ) (t : PairTable α × PairTable α) : Prop :=
  (checksum (roundLabels t.1 t.2) == checksum t.2) = true →
    ∀ r, r ∈ roundLabels t.1 t.2 ↔ r ∈ t.2

lemma componentsLoop_isLeast
    (hdetect : ∀ k, Detects checksum (componentsStep^[k] (edges, state)))
    {R : α → α → Prop} (rounds : ℕ) (h : Labels.Inv R V label E)
    (hs : HoldsLabels V label state) (he : HoldsEdges E edges)
    (hstop : (componentsLoop checksum rounds edges state).2 = true) {v : α} (hv : v ∈ V) :
    ∃ m, IsLeast {u | u ∈ V ∧ EqvGen R v u} m ∧
      ∀ c, (some v, c) ∈ (componentsLoop checksum rounds edges state).1 ↔ c = some m := by
  induction rounds generalizing label E edges state with
  | zero => simp [componentsLoop] at hstop
  | succ rounds ih =>
    obtain ⟨p, hp, hlabels, hedges⟩ := exists_round h hs he
    rw [componentsLoop] at hstop ⊢
    by_cases hsum : (checksum (roundLabels edges state) == checksum state) = true
    · simp only [if_pos hsum]
      have hsame : ∀ u ∈ V, Labels.jumps p u = label u := by
        intro u hu
        have hrow := (hdetect 0 hsum _).1 (hlabels.mem u hu)
        exact Option.some.inj (hs.mem_iff.1 hrow).2
      refine ⟨label v, h.isLeast_of_unchanged hp hsame hv, fun c => ?_⟩
      rw [hlabels.mem_iff, hsame v hv]
      exact and_iff_right hv
    · simp only [if_neg hsum] at hstop ⊢
      refine ih (fun k => ?_) (h.round hp) hlabels hedges hstop
      exact hdetect (k + 1)

/-- If the loop ends because the checksum of the labels stays, and the checksum notices every change
in this run, then each node has one label, the least node of its component. -/
theorem computeConnectedComponents_isLeast
    (table : PairTable α) (maxIterations : ℕ)
    (hdetect : ∀ k, Detects checksum (componentsStep^[k] (initEdges table, initLabels table)))
    (hstop : (computeConnectedComponents checksum table maxIterations).2 = true)
    (v : α) (hv : v ∈ tableNodes table) :
    ∃ m, IsLeast {u | u ∈ tableNodes table ∧ EqvGen (TableEdge table) v u} m ∧
      ∀ c, (some v, c) ∈ (computeConnectedComponents checksum table maxIterations).1 ↔
        c = some m :=
  componentsLoop_isLeast hdetect maxIterations (labels_inv_init table)
    (holdsLabels_initLabels table) (holdsEdges_initEdges table) hstop hv

end Loop

/-- A path from 4 to 1, an edge with a NULL, and a loop. -/
def pathTable : PairTable ℕ :=
  [(some 4, some 3), (some 2, some 3), (some 1, some 2), (some 7, none), (some 9, some 9)]

lemma detects_toFinset (t : PairTable ℕ × PairTable ℕ) : Detects List.toFinset t := by
  intro h r
  rw [← List.mem_toFinset, ← List.mem_toFinset, eq_of_beq h]

theorem computeConnectedComponents_isLeast_pathTable :
    ∃ m, IsLeast {u | u ∈ tableNodes pathTable ∧ EqvGen (TableEdge pathTable) 3 u} m ∧
      ∀ c, (some 3, c) ∈ (computeConnectedComponents List.toFinset pathTable 5).1 ↔ c = some m :=
  computeConnectedComponents_isLeast pathTable 5 (fun _ => detects_toFinset _)
    (by decide +kernel) 3 (by decide)

end BenoStreamDB

import BenoStreamDB.Foundations.Dfs
import BenoStreamDB.Sql.GraphView

/-!
# Refining communities

`refine_communities` of `algorithms/communities.rs` splits each community into its connected pieces
by a search with a stack. The first piece keeps the id of the community, the others get fresh ids.
In the result two nodes have the same id exactly if they were in the same community and are
connected inside it: `CsrAdj.refineCommunities_spec`.

Vectors with one entry per node are functions on `Fin n`, the vector `seen` is a set. The degrees
of `CsrAdj` are not read here and are left out.
-/

namespace BenoStreamDB

/-- `CsrAdj`; its `node_map` is the index of `originals`. -/
structure CsrAdj where
  forward : MultiGraph
  reverse : Option MultiGraph
  originals : List ℕ
  nodup : originals.Nodup

namespace CsrAdj

variable (adj : CsrAdj)

abbrev Node := Fin adj.originals.length

def neighbors (u : adj.Node) : List adj.Node :=
  (GraphTable.indexNeighbors adj.forward adj.reverse (adj.originals.get u)).filterMap
    (nodeIndex adj.originals)

/-- The results so far, and whether a piece of the present community was found. -/
structure Refining where
  refined : adj.Node → ℕ
  seen : Finset adj.Node
  nextId : ℕ
  firstComponent : Bool

variable (community : adj.Node → ℕ)

def members (c : ℕ) : List adj.Node := (List.finRange _).filter fun u => community u = c

/-- The id of a new piece, and the next fresh id; `none` is an overflow of `next_id`. -/
def pickId (c : ℕ) (st : adj.Refining) : Option (ℕ × ℕ) :=
  if st.firstComponent then some (c, st.nextId)
  else if st.nextId + 1 < 2 ^ 32 then some (st.nextId, st.nextId + 1)
  else none

/-- The piece of `start`, if it was not seen before. -/
def refineFrom (c fuel : ℕ) (st : adj.Refining) (start : adj.Node) : Option adj.Refining :=
  if start ∈ st.seen then some st
  else
    (adj.pickId c st).bind fun p =>
      (Dfs.loop (fun refined x => Function.update refined x p.1)
        (fun x => (adj.neighbors x).filter fun v => v ∈ adj.members community c) fuel
        (insert start st.seen) [start] st.refined).map fun r => ⟨r.2, r.1, p.2, false⟩

def refineCommunity (fuel : ℕ) (st : adj.Refining) (c : ℕ) : Option adj.Refining :=
  (adj.members community c).foldlM (adj.refineFrom community c fuel)
    { st with firstComponent := true }

/-- `refine_communities`, with the order in which the hash map of the communities is iterated. -/
def refineCommunities (order : List ℕ) (fuel nextId : ℕ) : Option (adj.Node → ℕ) :=
  (order.foldlM (adj.refineCommunity community fuel) ⟨community, ∅, nextId, true⟩).map
    Refining.refined

/-- There is an edge from `u` to `v`. -/
def Joined (u v : adj.Node) : Prop :=
  adj.originals.get v ∈ MultiGraph.getNeighbors adj.forward (adj.originals.get u)

/-- There is an edge inside a community. -/
def Inside (u v : adj.Node) : Prop := adj.Joined u v ∧ community u = community v

/-- The second graph has the edges of the first one turned round. -/
def IsReverse (forward reverse : MultiGraph) : Prop :=
  ∀ a b, b ∈ MultiGraph.getNeighbors reverse a ↔ a ∈ MultiGraph.getNeighbors forward b

variable {adj community}

lemma isReverse_reverseGraphs (S : UnstableSort) (segments : List (List (ℕ × ℕ))) :
    IsReverse (segmentGraphs S segments) (reverseGraphs S segments) := fun _ _ =>
  mem_getNeighbors_reverseGraphs.trans mem_getNeighbors_segmentGraphs.symm

lemma mem_members {c : ℕ} {u : adj.Node} : u ∈ adj.members community c ↔ community u = c := by
  simp [members]

/-- With the reverse graph, the neighbours are at both ends of the edges. -/
lemma mem_neighbors {reverse : MultiGraph} (hreverse : adj.reverse = some reverse)
    (hexact : IsReverse adj.forward reverse) {u v : adj.Node} :
    v ∈ adj.neighbors u ↔ Relation.SymmGen adj.Joined u v := by
  have hback : ∀ a b, b ∈ MultiGraph.getNeighbors reverse a ↔
    a ∈ MultiGraph.getNeighbors adj.forward b := hexact
  rw [neighbors, List.mem_filterMap]
  simp only [nodeIndex_eq_some_iff adj.nodup, exists_eq_right, GraphTable.mem_indexNeighbors,
    hreverse, Option.mem_some_iff, exists_eq_left', hback]
  rfl

/-- Inside a community, the nodes that the search can reach are the connected ones. -/
lemma reflTransGen_iff_eqvGen {reverse : MultiGraph} (hreverse : adj.reverse = some reverse)
    (hexact : IsReverse adj.forward reverse) {start x : adj.Node} :
    Relation.ReflTransGen (fun a b => b ∈ (adj.neighbors a).filter fun v =>
        v ∈ adj.members community (community start)) start x ↔
      Relation.EqvGen (adj.Inside community) start x := by
  rw [← Relation.EqvGen.reflTransGen_symmGen]
  constructor
  · intro h
    suffices hsuff : Relation.ReflTransGen (Relation.SymmGen (adj.Inside community)) start x ∧
        community x = community start from hsuff.1
    induction h with
    | refl => exact ⟨.refl, rfl⟩
    | @tail y z _ hz ih =>
      obtain ⟨hz, hmem⟩ := List.mem_filter.1 hz
      have hsame : community z = community start := mem_members.1 (of_decide_eq_true hmem)
      refine ⟨ih.1.tail ?_, hsame⟩
      rcases (mem_neighbors hreverse hexact).1 hz with hjoin | hjoin
      · exact Or.inl ⟨hjoin, ih.2.trans hsame.symm⟩
      · exact Or.inr ⟨hjoin, hsame.trans ih.2.symm⟩
  · intro h
    suffices hsuff : Relation.ReflTransGen (fun a b => b ∈ (adj.neighbors a).filter fun v =>
        v ∈ adj.members community (community start)) start x ∧
          community x = community start from hsuff.1
    induction h with
    | refl => exact ⟨.refl, rfl⟩
    | @tail y z _ hz ih =>
      have hsame : community z = community start := by
        rcases hz with hz | hz
        · exact hz.2.symm.trans ih.2
        · exact hz.2.trans ih.2
      refine ⟨ih.1.tail (List.mem_filter.2 ⟨?_, decide_eq_true (mem_members.2 hsame)⟩), hsame⟩
      exact (mem_neighbors hreverse hexact).2 (hz.imp And.left And.left)

lemma community_eq_of_eqvGen {u v : adj.Node}
    (h : Relation.EqvGen (adj.Inside community) u v) : community u = community v := by
  induction h with
  | rel _ _ h => exact h.2
  | refl => rfl
  | symm _ _ _ ih => exact ih.symm
  | trans _ _ _ _ _ ih ih' => exact ih.trans ih'

lemma foldl_update (order : List adj.Node) (id : ℕ) (f : adj.Node → ℕ) (u : adj.Node) :
    order.foldl (fun f x => Function.update f x id) f u = if u ∈ order then id else f u := by
  induction order generalizing f with
  | nil => simp
  | cons x order ih =>
    rw [List.foldl_cons, ih, Function.update_apply]
    by_cases hu : u ∈ order <;> by_cases hx : u = x <;> simp [hu, hx]

/-! ### Pieces -/

section Pieces

variable {first : ℕ} {st st' : adj.Refining}

/-- The seen nodes are whole pieces, which have different ids. Every id is that of the community or
one of the fresh ids from `first` on, of which fewer are used than nodes are seen. -/
structure Inv (community : adj.Node → ℕ) (first : ℕ) (st : adj.Refining) : Prop where
  lower : first ≤ st.nextId
  upper : st.nextId ≤ first + st.seen.card
  used : st.seen.Nonempty → st.nextId + 1 ≤ first + st.seen.card
  lt : ∀ u ∈ st.seen, st.refined u < st.nextId
  old : ∀ u ∈ st.seen, st.refined u = community u ∨ first ≤ st.refined u
  closed : ∀ u v, Relation.EqvGen (adj.Inside community) u v → u ∈ st.seen → v ∈ st.seen
  refined_iff : ∀ u ∈ st.seen, ∀ v ∈ st.seen,
    st.refined u = st.refined v ↔ Relation.EqvGen (adj.Inside community) u v

/-- What a step inside the community `c` does: it sees only nodes of `c`. -/
structure Step (community : adj.Node → ℕ) (c : ℕ) (st st' : adj.Refining) : Prop where
  subset : st.seen ⊆ st'.seen
  only : ∀ u ∈ st'.seen, u ∉ st.seen → community u = c

/-- Before the first piece of a community, none of its nodes is seen; after it, some are. -/
def Flag (community : adj.Node → ℕ) (c : ℕ) (st : adj.Refining) : Prop :=
  (st.firstComponent = true → ∀ u ∈ st.seen, community u ≠ c) ∧
    (st.firstComponent = false → st.seen.Nonempty)

/-- A new piece with an id that no seen node has. -/
lemma Inv.addPiece (h : Inv community first st) {start : adj.Node} (hstart : start ∉ st.seen)
    {order : List adj.Node} {id nextId : ℕ}
    (horder : ∀ x, x ∈ order ↔ Relation.EqvGen (adj.Inside community) start x)
    (hnext : st.nextId ≤ nextId) (hid : id < nextId)
    (hupper : nextId + 1 ≤ first + (st.seen.card + 1))
    (hold : id = community start ∨ first ≤ id) (hfresh : ∀ u ∈ st.seen, st.refined u ≠ id) :
    Inv community first ⟨order.foldl (fun f x => Function.update f x id) st.refined,
      st.seen ∪ order.toFinset, nextId, false⟩ := by
  have hdisj : ∀ u ∈ st.seen, u ∉ order := fun u hu hmem =>
    hstart (h.closed u start (((horder u).1 hmem).symm) hu)
  have hcard : st.seen.card + 1 ≤ (st.seen ∪ order.toFinset).card := by
    rw [← Finset.card_insert_of_notMem hstart]
    refine Finset.card_le_card (Finset.insert_subset ?_ Finset.subset_union_left)
    exact Finset.mem_union_right _ (List.mem_toFinset.2 ((horder start).2 (.refl start)))
  have hval : ∀ u, order.foldl (fun f x => Function.update f x id) st.refined u =
      if u ∈ order then id else st.refined u := foldl_update order id st.refined
  -- a seen node is in the new piece or was seen before
  have hcases : ∀ u ∈ st.seen ∪ order.toFinset, u ∈ order ∨ u ∈ st.seen ∧ u ∉ order := by
    intro u hu
    rcases Finset.mem_union.1 hu with hu | hu
    · exact Or.inr ⟨hu, hdisj u hu⟩
    · exact Or.inl (List.mem_toFinset.1 hu)
  refine ⟨h.lower.trans hnext, by simp only; omega, fun _ => by simp only; omega, ?_, ?_, ?_, ?_⟩
  · intro u hu
    simp only [hval]
    rcases hcases u hu with hu | ⟨hu, hnot⟩
    · rwa [if_pos hu]
    · rw [if_neg hnot]
      exact (h.lt u hu).trans_le hnext
  · intro u hu
    simp only [hval]
    rcases hcases u hu with hu | ⟨hu, hnot⟩
    · rw [if_pos hu, ← community_eq_of_eqvGen ((horder u).1 hu)]
      exact hold
    · rw [if_neg hnot]
      exact h.old u hu
  · intro u v huv hu
    rcases hcases u hu with hu | ⟨hu, -⟩
    · refine Finset.mem_union_right _ (List.mem_toFinset.2 ((horder v).2 ?_))
      exact ((horder u).1 hu).trans _ _ _ huv
    · exact Finset.mem_union_left _ (h.closed u v huv hu)
  · intro u hu v hv
    simp only [hval]
    rcases hcases u hu with hu | ⟨hu, hunot⟩
    · rcases hcases v hv with hv | ⟨hv, hvnot⟩
      · rw [if_pos hu, if_pos hv]
        exact iff_of_true rfl ((((horder u).1 hu).symm).trans _ _ _ ((horder v).1 hv))
      · rw [if_pos hu, if_neg hvnot]
        refine iff_of_false (hfresh v hv).symm fun huv => hvnot ((horder v).2 ?_)
        exact ((horder u).1 hu).trans _ _ _ huv
    · rcases hcases v hv with hv | ⟨hv, hvnot⟩
      · rw [if_neg hunot, if_pos hv]
        refine iff_of_false (hfresh u hu) fun huv => hunot ((horder u).2 ?_)
        exact ((horder v).1 hv).trans _ _ _ huv.symm
      · rw [if_neg hunot, if_neg hvnot]
        exact h.refined_iff u hu v hv

/-! ### Runs -/

variable {reverse : MultiGraph} {c fuel : ℕ}

/-- The id of a new piece is fresh, or that of a community without seen nodes. -/
lemma Inv.exists_pickId (h : Inv community first st) (hflag : Flag community c st)
    {start : adj.Node} (hstart : start ∉ st.seen) (hc : community start = c)
    (hlt : ∀ u, community u < first) (hroom : first + adj.originals.length ≤ 2 ^ 32) :
    ∃ id nextId, adj.pickId c st = some (id, nextId) ∧ st.nextId ≤ nextId ∧ id < nextId ∧
      nextId + 1 ≤ first + (st.seen.card + 1) ∧ (id = community start ∨ first ≤ id) ∧
        ∀ u ∈ st.seen, st.refined u ≠ id := by
  have hlower := h.lower
  have hcommunity := hlt start
  cases hfirst : st.firstComponent with
  | true =>
    refine ⟨c, st.nextId, by rw [pickId, if_pos hfirst], le_rfl, by omega, ?_, Or.inl hc.symm, ?_⟩
    · have := h.upper
      omega
    · intro u hu heq
      rcases h.old u hu with hold | hold
      · exact hflag.1 hfirst u hu (hold.symm.trans heq)
      · omega
  | false =>
    have hused := h.used (hflag.2 hfirst)
    have hcard : st.seen.card + 1 ≤ adj.originals.length := by
      rw [← Finset.card_insert_of_notMem hstart]
      exact (Finset.card_le_univ _).trans (Fintype.card_fin _).le
    refine ⟨st.nextId, st.nextId + 1, ?_, Nat.le_succ _, Nat.lt_succ_self _, by omega,
      Or.inr hlower, fun u hu => (h.lt u hu).ne⟩
    rw [pickId, if_neg (by simp [hfirst]), if_pos (by omega)]

variable (hreverse : adj.reverse = some reverse) (hexact : IsReverse adj.forward reverse)
  (hlt : ∀ u, community u < first) (hroom : first + adj.originals.length ≤ 2 ^ 32)
  (hfuel : adj.originals.length < fuel)

include hreverse hexact hlt hroom hfuel

lemma Inv.exists_refineFrom (h : Inv community first st) (hflag : Flag community c st)
    {start : adj.Node} (hc : community start = c) :
    ∃ st', adj.refineFrom community c fuel st start = some st' ∧ Inv community first st' ∧
      Flag community c st' ∧ Step community c st st' ∧ start ∈ st'.seen := by
  by_cases hstart : start ∈ st.seen
  · exact ⟨st, if_pos hstart, h, hflag, ⟨Finset.Subset.refl _, fun u hu hnot => absurd hu hnot⟩,
      hstart⟩
  obtain ⟨id, nextId, hpick, hnext, hid, hupper, hold, hfresh⟩ :=
    h.exists_pickId hflag hstart hc hlt hroom
  subst hc
  have hreach {x : adj.Node} : _ ↔ Relation.EqvGen (adj.Inside community) start x :=
    reflTransGen_iff_eqvGen hreverse hexact
  obtain ⟨order, hloop, -, horder⟩ := Dfs.exists_loop
    (fun refined x => Function.update refined x id) (fun _ y _ => Finset.mem_univ y)
    (Finset.subset_univ st.seen) (Finset.mem_univ start) hstart
    (fun x y hx hy hseen => h.closed y x
      ((hreach.1 (hx.tail hy)).symm.trans _ _ _ (hreach.1 hx)) hseen)
    (show _ < fuel by rwa [Finset.card_univ, Fintype.card_fin]) st.refined
  have horder' : ∀ x, x ∈ order ↔ Relation.EqvGen (adj.Inside community) start x := fun x =>
    (horder x).trans hreach
  have hmem : start ∈ st.seen ∪ order.toFinset :=
    Finset.mem_union_right _ (List.mem_toFinset.2 ((horder' start).2 (.refl start)))
  refine ⟨_, ?_, h.addPiece hstart horder' hnext hid hupper hold hfresh, ⟨fun hfalse => ?_, fun _ =>
    ⟨start, hmem⟩⟩, ⟨Finset.subset_union_left, fun u hu hnot => ?_⟩, hmem⟩
  · rw [refineFrom, if_neg hstart, hpick, Option.bind_some, hloop]
    rfl
  · cases hfalse
  · have hu' : u ∈ order := List.mem_toFinset.1 ((Finset.mem_union.1 hu).resolve_left hnot)
    exact (community_eq_of_eqvGen ((horder' u).1 hu')).symm

/-- Some nodes of a community, one after the other. -/
lemma Inv.exists_foldlM (h : Inv community first st) (hflag : Flag community c st)
    {nodes : List adj.Node} (hnodes : ∀ u ∈ nodes, community u = c) :
    ∃ st', nodes.foldlM (adj.refineFrom community c fuel) st = some st' ∧
      Inv community first st' ∧ Step community c st st' ∧ ∀ u ∈ nodes, u ∈ st'.seen := by
  induction nodes generalizing st with
  | nil =>
    exact ⟨st, rfl, h, ⟨Finset.Subset.refl _, fun u hu hnot => absurd hu hnot⟩, by simp⟩
  | cons start nodes ih =>
    obtain ⟨st₁, hrun₁, hinv₁, hflag₁, hstep₁, hseen₁⟩ := h.exists_refineFrom hreverse hexact hlt
      hroom hfuel hflag (hnodes start List.mem_cons_self)
    obtain ⟨st₂, hrun₂, hinv₂, hstep₂, hseen₂⟩ := ih hinv₁ hflag₁ fun u hu =>
      hnodes u (List.mem_cons_of_mem start hu)
    refine ⟨st₂, ?_, hinv₂, ⟨hstep₁.subset.trans hstep₂.subset, fun u hu hnot => ?_⟩, ?_⟩
    · rw [List.foldlM_cons, hrun₁]
      exact hrun₂
    · by_cases hu₁ : u ∈ st₁.seen
      · exact hstep₁.only u hu₁ hnot
      · exact hstep₂.only u hu hu₁
    · intro u hu
      rcases List.mem_cons.1 hu with rfl | hu
      · exact hstep₂.subset hseen₁
      · exact hseen₂ u hu

/-- The communities in `order`, of which no node is seen yet. -/
lemma Inv.exists_communities (h : Inv community first st) {order : List ℕ} (hnodup : order.Nodup)
    (hnew : ∀ u ∈ st.seen, community u ∉ order) :
    ∃ st', order.foldlM (adj.refineCommunity community fuel) st = some st' ∧
      Inv community first st' ∧ st.seen ⊆ st'.seen ∧
        ∀ u, community u ∈ order → u ∈ st'.seen := by
  induction order generalizing st with
  | nil => exact ⟨st, rfl, h, Finset.Subset.refl _, by simp⟩
  | cons c order ih =>
    obtain ⟨hc, hnodup⟩ := List.nodup_cons.1 hnodup
    have hinv : Inv community first { st with firstComponent := true } :=
      ⟨h.lower, h.upper, h.used, h.lt, h.old, h.closed, h.refined_iff⟩
    have hflag : Flag community c { st with firstComponent := true } :=
      ⟨fun _ u hu heq => hnew u hu (heq ▸ List.mem_cons_self), fun hfalse => by cases hfalse⟩
    obtain ⟨st₁, hrun₁, hinv₁, hstep₁, hseen₁⟩ := hinv.exists_foldlM hreverse hexact hlt hroom hfuel
      hflag fun u => mem_members.1
    obtain ⟨st₂, hrun₂, hinv₂, hsub₂, hseen₂⟩ := ih hinv₁ hnodup fun u hu hmem => by
      by_cases hold : u ∈ st.seen
      · exact hnew u hold (List.mem_cons_of_mem c hmem)
      · exact hc (hstep₁.only u hu hold ▸ hmem)
    refine ⟨st₂, ?_, hinv₂, hstep₁.subset.trans hsub₂, fun u hu => ?_⟩
    · rw [List.foldlM_cons, refineCommunity, hrun₁]
      exact hrun₂
    · rcases List.mem_cons.1 hu with hu | hu
      · exact hsub₂ (hseen₁ u (mem_members.2 hu))
      · exact hseen₂ u hu

end Pieces

/-- Two nodes get the same id exactly if they were in one community and are connected inside it,
whatever the order of the communities is. -/
theorem refineCommunities_spec (adj : CsrAdj) (reverse : MultiGraph)
    (hreverse : adj.reverse = some reverse) (hexact : IsReverse adj.forward reverse)
    (community : adj.Node → ℕ) (nextId : ℕ) (hlt : ∀ u, community u < nextId)
    (hroom : nextId + adj.originals.length ≤ 2 ^ 32) (order : List ℕ) (hnodup : order.Nodup)
    (horder : ∀ c, c ∈ order ↔ ∃ u, community u = c) (fuel : ℕ)
    (hfuel : adj.originals.length < fuel) :
    ∃ refined, adj.refineCommunities community order fuel nextId = some refined ∧
      ∀ u v, refined u = refined v ↔
        community u = community v ∧ Relation.EqvGen (adj.Inside community) u v := by
  have hinit : Inv community nextId (⟨community, ∅, nextId, true⟩ : adj.Refining) := by
    refine ⟨le_rfl, by simp, fun h => ?_, by simp, by simp, by simp, by simp⟩
    exact absurd h Finset.not_nonempty_empty
  obtain ⟨st, hrun, hinv, -, hseen⟩ :=
    hinit.exists_communities hreverse hexact hlt hroom hfuel hnodup (by simp)
  refine ⟨st.refined, by rw [refineCommunities, hrun, Option.map_some], fun u v => ?_⟩
  rw [hinv.refined_iff u (hseen u ((horder _).2 ⟨u, rfl⟩)) v (hseen v ((horder _).2 ⟨v, rfl⟩))]
  exact ⟨fun h => ⟨community_eq_of_eqvGen h, h⟩, And.right⟩

lemma nodup_twoPieces : [1, 2, 3].Nodup := by decide

/-- The edge from 1 to 2, and 3 on its own. -/
def twoPieces : CsrAdj where
  forward := segmentGraphs sortBySource [[(1, 2), (3, 3)]]
  reverse := some (reverseGraphs sortBySource [[(1, 2), (3, 3)]])
  originals := [1, 2, 3]
  nodup := nodup_twoPieces

theorem refineCommunities_twoPieces :
    ∃ refined, twoPieces.refineCommunities (fun _ => 5) [5] 4 6 = some refined ∧
      ∀ u v, refined u = refined v ↔
        5 = 5 ∧ Relation.EqvGen (twoPieces.Inside fun _ => 5) u v :=
  refineCommunities_spec twoPieces _ rfl (isReverse_reverseGraphs sortBySource _) (fun _ => 5) 6
    (by simp) (by decide) [5] (List.nodup_singleton 5)
    (fun c => List.mem_singleton.trans ⟨fun h => ⟨⟨0, by decide⟩, h.symm⟩, fun ⟨_, h⟩ => h.symm⟩) 4
    (by decide)

end CsrAdj

end BenoStreamDB

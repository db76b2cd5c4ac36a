import BenoStreamDB.Foundations.UnionFind
import BenoStreamDB.Segment.CsrFiles
import BenoStreamDB.Sql.GraphView

/-!
# Connected components of graph indexes

`connected_components_csr` of `algorithms/connected_components.rs` joins the endpoints of all edges
in a union-find structure over the nodes of all dictionaries. It casts the dictionary of every
index, which panics for the index of no edges that is read from blobs, and it reads the dictionary
at every number below `num_nodes`, where an index of no edges has `num_nodes = 1` and an empty
dictionary. So the components are right exactly if all indexes can be read and either all of them
have edges or none has: `componentsCorrect_iff`.
-/

namespace BenoStreamDB

/-- The ids in the order of their first occurrences, as they fill `idx_to_node`. -/
def collectIds (ids : List ℕ) : List ℕ :=
  ids.foldl (fun acc id => if id ∈ acc then acc else acc ++ [id]) []

section Components

variable (B : Bytemuck) (nodes : List ℕ) (fuel : ℕ)

/-- The edges from the node with the number `d`; `none` is a panic, also for a rank over 255. -/
def unionEdges (seg : MmapCsrGraph) (dict : List ℕ) (st : UnionFind.State (Fin nodes.length))
    (d : ℕ) : Option (UnionFind.State (Fin nodes.length)) :=
  (dict[d]?).bind fun u =>
    match nodeIndex nodes u with
    | none => some st
    | some i => (seg.getNeighborsRaw B d).bind fun edges => edges.foldlM (fun st e =>
        (dict[e.dstId]?).bind fun v =>
          match nodeIndex nodes v with
          | none => some st
          | some j => UnionFind.union 255 fuel i j st) st

def unionSegment (st : UnionFind.State (Fin nodes.length)) (seg : MmapCsrGraph) :
    Option (UnionFind.State (Fin nodes.length)) :=
  (B.castSlice seg.dict).bind fun dict =>
    (List.range seg.numNodes).foldlM (unionEdges B nodes fuel seg dict) st

/-- The parents and the least ids of the components so far. -/
def minStep (st : (Fin nodes.length → Fin nodes.length) × (Fin nodes.length → ℕ))
    (i : Fin nodes.length) :
    Option ((Fin nodes.length → Fin nodes.length) × (Fin nodes.length → ℕ)) :=
  (UnionFind.find fuel st.1 i).map fun a =>
    (a.2, if nodes.get i < st.2 a.1 then Function.update st.2 a.1 (nodes.get i) else st.2)

/-- The parents and the components so far. -/
def outStep (compMin : Fin nodes.length → ℕ)
    (st : (Fin nodes.length → Fin nodes.length) × List ℕ) (i : Fin nodes.length) :
    Option ((Fin nodes.length → Fin nodes.length) × List ℕ) :=
  (UnionFind.find fuel st.1 i).map fun a => (a.2, st.2 ++ [compMin a.1])

/-- The components of the nodes after the edges were joined. -/
def componentIds (st : UnionFind.State (Fin nodes.length)) : Option (List ℕ) :=
  ((List.finRange _).foldlM (minStep nodes fuel) (st.parent, nodes.get)).bind fun a =>
    ((List.finRange _).foldlM (outStep nodes fuel a.2) (a.1, [])).map Prod.snd

/-- `connected_components_csr` -/
def connectedComponentsCsr (forward : List MmapCsrGraph) (reverse : Option (List MmapCsrGraph)) :
    Option (List ℕ × List ℕ) :=
  let segments := forward ++ reverse.getD []
  (segments.mapM fun seg => B.castSlice seg.dict).bind fun dicts =>
    let nodes := collectIds dicts.flatten
    if nodes.length = 0 then some ([], [])
    else
      (segments.foldlM (unionSegment B nodes fuel) UnionFind.State.init).bind fun st =>
        (componentIds nodes fuel st).map fun components => (nodes, components)

end Components

/-- An edge of one of the segments. -/
def SegmentEdge (segments : List CsrSegment) (u v : ℕ) : Prop :=
  ∃ seg ∈ segments, ∃ e ∈ seg.raw, u = e.srcId ∧ v = e.dstId

/-- The loops end without a panic, every endpoint of an edge is listed once, and two nodes have the
same component exactly if they are connected. -/
def ComponentsCorrect (B : Bytemuck) (S : EdgeSort) (forward : List CsrSegment)
    (reverse : Option (List CsrSegment)) : Prop :=
  ∃ bound, ∀ fuel ≥ bound, ∃ nodes components,
    connectedComponentsCsr B fuel (forward.map (CsrSegment.graph S))
        (reverse.map (List.map (CsrSegment.graph S))) = some (nodes, components) ∧
      components.length = nodes.length ∧ nodes.Nodup ∧
      (∀ u v, SegmentEdge (forward ++ reverse.getD []) u v → u ∈ nodes ∧ v ∈ nodes) ∧
      ∀ e ∈ nodes.zip components, ∀ e' ∈ nodes.zip components, e.2 = e'.2 ↔
        Relation.EqvGen (SegmentEdge (forward ++ reverse.getD [])) e.1 e'.1

/-! ### Nodes and edges -/

lemma nodup_collectIds (ids : List ℕ) : (collectIds ids).Nodup := by
  rw [collectIds]
  induction ids using List.reverseRecOn with
  | nil => exact List.nodup_nil
  | append_singleton ids id ih =>
    rw [List.foldl_append, List.foldl_cons, List.foldl_nil]
    split_ifs with hid
    · exact ih
    · exact List.nodup_append'.2 ⟨ih, List.nodup_singleton id, by simpa using hid⟩

lemma mem_collectIds {ids : List ℕ} {x : ℕ} : x ∈ collectIds ids ↔ x ∈ ids := by
  rw [collectIds]
  induction ids using List.reverseRecOn with
  | nil => exact Iff.rfl
  | append_singleton ids id ih =>
    rw [List.foldl_append, List.foldl_cons, List.foldl_nil, List.mem_append, List.mem_singleton,
      ← ih]
    split_ifs with hid
    · refine ⟨Or.inl, ?_⟩
      rintro (h | rfl)
      · exact h
      · exact hid
    · rw [List.mem_append, List.mem_singleton]

/-- The edges of the files, by the places in the dictionary. -/
lemma exists_rawEdge_iff {S : EdgeSort} {raw : List RawEdge} {u v : ℕ} :
    (∃ e ∈ raw, u = e.srcId ∧ v = e.dstId) ↔
      ∃ d ∈ List.range ((rawIds raw).length - 1 + 1),
        ∃ e ∈ ((denseRawEdges S raw).filter fun e => e.1 == d).map Prod.snd,
          (rawIds raw)[d]? = some u ∧ (rawIds raw)[e.dstId]? = some v := by
  constructor
  · rintro ⟨e, he, rfl, rfl⟩
    have hsrc : e.srcId ∈ rawIds raw := (mem_rawIds raw).2 ⟨e, he, .inl rfl⟩
    have hdst : e.dstId ∈ rawIds raw := (mem_rawIds raw).2 ⟨e, he, .inr rfl⟩
    have hlt := List.idxOf_lt_length_of_mem hsrc
    have hmem : ((rawIds raw).idxOf e.srcId, (⟨(rawIds raw).idxOf e.dstId, e.rowId⟩ : CsrEdge)) ∈
        denseRawEdges S raw := (S.perm _).mem_iff.2 (List.mem_map.2 ⟨e, he, rfl⟩)
    exact ⟨(rawIds raw).idxOf e.srcId, List.mem_range.2 (by omega), _,
      List.mem_map_of_mem (List.mem_filter.2 ⟨hmem, beq_self_eq_true _⟩),
      getElem?_rawIds hsrc, getElem?_rawIds hdst⟩
  · rintro ⟨d, -, e, he, hu, hv⟩
    obtain ⟨x, hx, rfl⟩ := List.mem_map.1 he
    obtain ⟨hx, heq⟩ := List.mem_filter.1 hx
    obtain ⟨r, hr, rfl⟩ := mem_denseRawEdges hx
    obtain rfl := beq_iff_eq.1 heq
    simp only [getElem?_rawIds ((mem_rawIds raw).2 ⟨r, hr, .inl rfl⟩), Option.some.injEq] at hu
    simp only [getElem?_rawIds ((mem_rawIds raw).2 ⟨r, hr, .inr rfl⟩), Option.some.injEq] at hv
    exact ⟨r, hr, hu.symm, hv.symm⟩

/-! ### Joining the edges -/

section Joining

variable {nodes : List ℕ} {fuel : ℕ} {R : Fin nodes.length → Fin nodes.length → Prop}

/-- The structure has the classes of the joined pairs. -/
def Joins (R : Fin nodes.length → Fin nodes.length → Prop)
    (st : UnionFind.State (Fin nodes.length)) : Prop := ∃ rep, UnionFind.Inv R st rep

lemma Joins.congr (R R' : Fin nodes.length → Fin nodes.length → Prop)
    (st : UnionFind.State (Fin nodes.length)) (hR : ∀ a b, R a b ↔ R' a b) (h : Joins R st) :
    Joins R' st := by
  obtain ⟨rep, hinv⟩ := h
  exact ⟨rep, hinv.congr hR⟩

variable {B : Bytemuck} {S : EdgeSort}

lemma exists_nodeIndex (hnodup : nodes.Nodup) {id : ℕ} (hid : id ∈ nodes) :
    ∃ i, nodeIndex nodes id = some i ∧ id = nodes.get i := by
  obtain ⟨i, hi⟩ := List.get_of_mem hid
  exact ⟨i, (nodeIndex_eq_some_iff hnodup).2 hi.symm, hi.symm⟩

/-- The edges from a node, whose ids are all known. -/
lemma Joins.exists_unionEdges {g : MmapCsrGraph} {raw : List RawEdge} (hg : g.Aligned)
    (hfiles : g.files = buildCsrFiles S raw) (hnodup : nodes.Nodup)
    (hdict : ∀ id ∈ rawIds raw, id ∈ nodes) (hmax : nodes.length < 2 ^ 256)
    (hfuel : nodes.length ≤ fuel) {d : ℕ} (hd : d < (rawIds raw).length)
    {st : UnionFind.State (Fin nodes.length)} (h : Joins R st) :
    ∃ st', unionEdges B nodes fuel g (rawIds raw) st d = some st' ∧
      Joins (fun a b => R a b ∨
        ∃ e ∈ ((denseRawEdges S raw).filter fun e => e.1 == d).map Prod.snd,
          (rawIds raw)[d]? = some (nodes.get a) ∧
            (rawIds raw)[e.dstId]? = some (nodes.get b)) st' := by
  have hinj : ∀ i k, nodes.get i = nodes.get k → i = k := fun i k =>
    (List.nodup_iff_injective_get.1 hnodup).eq_iff.1
  obtain ⟨i, hi, hu⟩ := exists_nodeIndex hnodup (hdict _ (List.getElem_mem hd))
  rw [unionEdges, List.getElem?_eq_getElem hd, Option.bind_some, hi]
  have hneighbors : g.getNeighborsRaw B d = _ := getNeighborsRaw_eq hg hfiles (by omega)
  simp only [hneighbors, Option.bind_some]
  refine Failing.exists_foldlM_of_step Joins.congr (fun e he R st hst => ?_) h
  obtain ⟨x, hx, rfl⟩ := List.mem_map.1 he
  obtain ⟨r, hr, rfl⟩ := mem_denseRawEdges (List.mem_of_mem_filter hx)
  have hdst : r.dstId ∈ rawIds raw := (mem_rawIds raw).2 ⟨r, hr, .inr rfl⟩
  obtain ⟨j, hj, hv⟩ := exists_nodeIndex hnodup (hdict _ hdst)
  obtain ⟨rep, hinv⟩ := hst
  obtain ⟨st', rep', hunion, hinv'⟩ := hinv.exists_union
    (show _ < 2 ^ (255 + 1) by rwa [Fintype.card_fin])
    (show _ ≤ fuel by rwa [Fintype.card_fin]) i j
  refine ⟨st', ?_, rep', hinv'.congr fun a b => or_congr_right ?_⟩
  · simp only [getElem?_rawIds hdst, Option.bind_some, hj]
    exact hunion
  · simp only [getElem?_rawIds hdst]
    rw [hu, hv, Option.some.injEq, Option.some.injEq]
    constructor
    · rintro ⟨rfl, rfl⟩
      exact ⟨rfl, rfl⟩
    · exact fun hab => ⟨hinj _ _ hab.1.symm, hinj _ _ hab.2.symm⟩

/-- All edges of segments that can be read and have edges. -/
lemma exists_unionSegments {segments : List CsrSegment} (hnodup : nodes.Nodup)
    (hdict : ∀ seg ∈ segments, ∀ id ∈ rawIds seg.raw, id ∈ nodes)
    (hread : ∀ seg ∈ segments, seg.Readable) (hne : ∀ seg ∈ segments, seg.raw ≠ [])
    (hmax : nodes.length < 2 ^ 256) (hfuel : nodes.length ≤ fuel) :
    ∃ st, (segments.map (CsrSegment.graph S)).foldlM (unionSegment B nodes fuel)
        UnionFind.State.init = some st ∧
      Joins (fun a b => SegmentEdge segments (nodes.get a) (nodes.get b)) st := by
  have hstep : ∀ seg ∈ segments, ∀ (R : Fin nodes.length → Fin nodes.length → Prop) st,
      Joins R st → ∃ st', unionSegment B nodes fuel st (seg.graph S) = some st' ∧
        Joins (fun a b => R a b ∨
          ∃ e ∈ seg.raw, nodes.get a = e.srcId ∧ nodes.get b = e.dstId) st' := by
    intro seg hseg R st hst
    have hg := (hread seg hseg).aligned (S := S)
    have hfiles := files_graph S seg
    have hlen : (rawIds seg.raw).length - 1 + 1 = (rawIds seg.raw).length := by
      have := List.length_pos_of_ne_nil (buildCsrFiles_ne_nil (S := S) (hne seg hseg)).2.2
      rw [show (buildCsrFiles S seg.raw).dict = rawIds seg.raw from rfl] at this
      omega
    have hedges : ∀ d ∈ List.range ((rawIds seg.raw).length - 1 + 1), ∀ R st, Joins R st →
        ∃ st', unionEdges B nodes fuel (seg.graph S) (rawIds seg.raw) st d = some st' ∧
          Joins (fun a b => R a b ∨
            ∃ e ∈ ((denseRawEdges S seg.raw).filter fun e => e.1 == d).map Prod.snd,
              (rawIds seg.raw)[d]? = some (nodes.get a) ∧
                (rawIds seg.raw)[e.dstId]? = some (nodes.get b)) st' := by
      intro d hd R st hst
      rw [hlen, List.mem_range] at hd
      exact Joins.exists_unionEdges hg hfiles hnodup (hdict seg hseg) hmax hfuel hd hst
    obtain ⟨st', hrun, hst'⟩ := Failing.exists_foldlM_of_step Joins.congr hedges hst
    refine ⟨st', ?_, hst'.congr _ _ _ fun a b => or_congr_right exists_rawEdge_iff.symm⟩
    rw [unionSegment, B.castSlice_of_dvd hg.dict, Option.bind_some, numNodes_eq hfiles,
      show (seg.graph S).dict.values = rawIds seg.raw from congrArg CsrFiles.dict hfiles]
    exact hrun
  have hinit : Joins (fun _ _ : Fin nodes.length => False) UnionFind.State.init :=
    ⟨id, UnionFind.inv_init⟩
  obtain ⟨st, hrun, hst⟩ := Failing.exists_foldlM_of_step Joins.congr hstep hinit
  refine ⟨st, by rwa [List.foldlM_map], hst.congr _ _ _ fun a b => ?_⟩
  rw [SegmentEdge, false_or]

/-! ### Ids of components -/

variable {st : UnionFind.State (Fin nodes.length)} {rep : Fin nodes.length → Fin nodes.length}

/-- The least ids are ids of nodes of their components. -/
lemma exists_foldlM_minStep (h : UnionFind.Inv R st rep) (hfuel : nodes.length ≤ fuel)
    {compMin : Fin nodes.length → ℕ}
    (hmin : ∀ r, rep r = r → ∃ k, rep k = r ∧ compMin r = nodes.get k)
    (l : List (Fin nodes.length)) : ∃ parent compMin',
      l.foldlM (minStep nodes fuel) (st.parent, compMin) = some (parent, compMin') ∧
        UnionFind.Inv R ⟨parent, st.rank⟩ rep ∧
          ∀ r, rep r = r → ∃ k, rep k = r ∧ compMin' r = nodes.get k := by
  induction l generalizing st compMin with
  | nil => exact ⟨st.parent, compMin, rfl, h, hmin⟩
  | cons i l ih =>
    obtain ⟨parent, hfind, hinv⟩ := h.exists_find (show _ ≤ fuel by rwa [Fintype.card_fin]) i
    have hnext : ∀ r, rep r = r → ∃ k, rep k = r ∧
        (if nodes.get i < compMin (rep i) then Function.update compMin (rep i) (nodes.get i)
          else compMin) r = nodes.get k := by
      intro r hr
      split_ifs
      · by_cases hri : r = rep i
        · exact ⟨i, hri.symm, by rw [hri, Function.update_self]⟩
        · rw [Function.update_of_ne hri]
          exact hmin r hr
      · exact hmin r hr
    obtain ⟨parent', compMin', hrun, hinv', hmin'⟩ := ih hinv hnext
    refine ⟨parent', compMin', ?_, hinv', hmin'⟩
    rw [List.foldlM_cons, minStep, hfind]
    exact hrun

lemma exists_foldlM_outStep (h : UnionFind.Inv R st rep) (hfuel : nodes.length ≤ fuel)
    (compMin : Fin nodes.length → ℕ) (out : List ℕ) (l : List (Fin nodes.length)) :
    ∃ parent, l.foldlM (outStep nodes fuel compMin) (st.parent, out) =
      some (parent, out ++ l.map fun i => compMin (rep i)) := by
  induction l generalizing st out with
  | nil => exact ⟨st.parent, by simp⟩
  | cons i l ih =>
    obtain ⟨parent, hfind, hinv⟩ := h.exists_find (show _ ≤ fuel by rwa [Fintype.card_fin]) i
    obtain ⟨parent', hrun⟩ := ih hinv (out ++ [compMin (rep i)])
    refine ⟨parent', ?_⟩
    rw [List.foldlM_cons, outStep, hfind, List.map_cons, List.append_cons]
    exact hrun

end Joining

/-! ### All edges -/

section Correct

variable {B : Bytemuck} {S : EdgeSort} {forward : List CsrSegment}
  {reverse : Option (List CsrSegment)} {fuel : ℕ}

lemma exists_componentIds {nodes : List ℕ} (hnodup : nodes.Nodup)
    {R : Fin nodes.length → Fin nodes.length → Prop}
    {st : UnionFind.State (Fin nodes.length)} (h : Joins R st) (hfuel : nodes.length ≤ fuel) :
    ∃ f : Fin nodes.length → ℕ, componentIds nodes fuel st = some ((List.finRange _).map f) ∧
      ∀ i j, f i = f j ↔ Relation.EqvGen R i j := by
  obtain ⟨rep, hinv⟩ := h
  obtain ⟨parent, compMin, hrun, hinv', hmin⟩ := exists_foldlM_minStep hinv hfuel
    (fun r hr => ⟨r, hr, rfl⟩) (List.finRange _)
  obtain ⟨parent', hrun'⟩ := exists_foldlM_outStep hinv' hfuel compMin [] (List.finRange _)
  refine ⟨fun i => compMin (rep i), ?_, fun i j => ?_⟩
  · rw [componentIds, hrun, Option.bind_some, hrun', Option.map_some]
    rfl
  · -- the id of a component is that of one of its nodes
    rw [← hinv.rep_eq_iff]
    refine ⟨fun heq => ?_, congrArg compMin⟩
    obtain ⟨k, hk, hki⟩ := hmin (rep i) (hinv.rep_rep i)
    obtain ⟨k', hk', hkj⟩ := hmin (rep j) (hinv.rep_rep j)
    have hsame : k = k' := (List.nodup_iff_injective_get.1 hnodup) (hki.symm.trans (heq.trans hkj))
    rw [← hk, ← hk', hsame]

/-- Connected nodes have connected numbers, as all nodes on the way have one. -/
lemma eqvGen_get_iff {nodes : List ℕ} {E : ℕ → ℕ → Prop}
    (hends : ∀ u v, E u v → u ∈ nodes ∧ v ∈ nodes) (hnodup : nodes.Nodup)
    {i j : Fin nodes.length} :
    Relation.EqvGen (fun a b => E (nodes.get a) (nodes.get b)) i j ↔
      Relation.EqvGen E (nodes.get i) (nodes.get j) := by
  constructor
  · intro h
    induction h with
    | rel _ _ h => exact .rel _ _ h
    | refl => exact .refl _
    | symm _ _ _ ih => exact ih.symm
    | trans _ _ _ _ _ ih ih' => exact ih.trans _ _ _ ih'
  · intro h
    rw [← Relation.EqvGen.reflTransGen_symmGen] at h
    have hwalk : ∀ v, Relation.ReflTransGen (Relation.SymmGen E) (nodes.get i) v →
        ∃ k, nodes.get k = v ∧
          Relation.EqvGen (fun a b => E (nodes.get a) (nodes.get b)) i k := by
      intro v hv
      induction hv with
      | refl => exact ⟨i, rfl, .refl i⟩
      | @tail x y _ hxy ih =>
        obtain ⟨k, rfl, hk⟩ := ih
        have hy : y ∈ nodes := hxy.elim (fun h => (hends _ _ h).2) fun h => (hends _ _ h).1
        obtain ⟨k', rfl⟩ := List.get_of_mem hy
        refine ⟨k', rfl, hk.trans _ _ _ ?_⟩
        rcases hxy with hxy | hxy
        · exact .rel _ _ hxy
        · exact .symm _ _ (.rel k' k hxy)
    obtain ⟨k, hk, hik⟩ := hwalk _ h
    rwa [← List.nodup_iff_injective_get.1 hnodup hk]

/-- The nodes of all dictionaries. -/
def segmentNodes (segments : List CsrSegment) : List ℕ :=
  collectIds (segments.flatMap fun seg => rawIds seg.raw)

lemma mem_segmentNodes {segments : List CsrSegment} {x : ℕ} :
    x ∈ segmentNodes segments ↔ ∃ seg ∈ segments, x ∈ rawIds seg.raw := by
  rw [segmentNodes, mem_collectIds, List.mem_flatMap]

lemma graphs_eq (S : EdgeSort) (forward : List CsrSegment) (reverse : Option (List CsrSegment)) :
    forward.map (CsrSegment.graph S) ++ (reverse.map (List.map (CsrSegment.graph S))).getD [] =
      (forward ++ reverse.getD []).map (CsrSegment.graph S) := by
  cases reverse <;> simp

lemma rawIds_eq_nil_iff {raw : List RawEdge} : rawIds raw = [] ↔ raw = [] := by
  constructor
  · intro h
    by_contra hne
    obtain ⟨e, he⟩ := List.exists_mem_of_ne_nil raw hne
    exact List.ne_nil_of_mem ((mem_rawIds raw).2 ⟨e, he, .inl rfl⟩) h
  · rintro rfl
    rfl

/-- If all dictionaries can be cast then the nodes are those of the segments. -/
lemma connectedComponentsCsr_eq
    (hcast : ∀ seg ∈ forward ++ reverse.getD [], 8 ∣ (seg.graph S).dict.address) :
    connectedComponentsCsr B fuel (forward.map (CsrSegment.graph S))
        (reverse.map (List.map (CsrSegment.graph S))) =
      if (segmentNodes (forward ++ reverse.getD [])).length = 0 then some ([], [])
      else
        (((forward ++ reverse.getD []).map (CsrSegment.graph S)).foldlM
          (unionSegment B (segmentNodes (forward ++ reverse.getD [])) fuel)
          UnionFind.State.init).bind fun st =>
            (componentIds (segmentNodes (forward ++ reverse.getD [])) fuel st).map
              fun components => (segmentNodes (forward ++ reverse.getD []), components) := by
  have hdicts : ((forward ++ reverse.getD []).map (CsrSegment.graph S)).mapM
      (fun seg => B.castSlice seg.dict) =
        some ((forward ++ reverse.getD []).map fun seg => rawIds seg.raw) := by
    rw [List.mapM_map]
    refine Failing.mapM_eq_some_map fun seg hseg => ?_
    rw [Function.comp_apply, B.castSlice_of_dvd (hcast seg hseg)]
    exact congrArg (fun f => some f.dict) (files_graph S seg)
  simp only [connectedComponentsCsr, graphs_eq, hdicts, Option.bind_some]
  rfl

/-- If there are no edges then there are no nodes. -/
lemma componentsCorrect_of_nil (hread : ∀ seg ∈ forward ++ reverse.getD [], seg.Readable)
    (hnil : ∀ seg ∈ forward ++ reverse.getD [], seg.raw = []) :
    ComponentsCorrect B S forward reverse := by
  have hnodes : segmentNodes (forward ++ reverse.getD []) = [] := by
    refine List.eq_nil_iff_forall_not_mem.2 fun x hx => ?_
    obtain ⟨seg, hseg, hx⟩ := mem_segmentNodes.1 hx
    rw [rawIds_eq_nil_iff.2 (hnil seg hseg)] at hx
    cases hx
  refine ⟨0, fun fuel _ => ⟨[], [], ?_, rfl, List.nodup_nil, ?_, by simp⟩⟩
  · rw [connectedComponentsCsr_eq fun seg hseg => (hread seg hseg).aligned.dict, hnodes]
    rfl
  · rintro u v ⟨seg, hseg, e, he, -⟩
    rw [hnil seg hseg] at he
    cases he

/-- If every segment can be read and has edges then the components are right. -/
lemma componentsCorrect_of_ne
    (hids : ∀ seg ∈ forward ++ reverse.getD [], ∀ e ∈ seg.raw, e.srcId < 2 ^ 64 ∧ e.dstId < 2 ^ 64)
    (hread : ∀ seg ∈ forward ++ reverse.getD [], seg.Readable)
    (hne : ∀ seg ∈ forward ++ reverse.getD [], seg.raw ≠ []) :
    ComponentsCorrect B S forward reverse := by
  refine ⟨(segmentNodes (forward ++ reverse.getD [])).length, fun fuel hfuel => ?_⟩
  rw [connectedComponentsCsr_eq fun seg hseg => (hread seg hseg).aligned.dict]
  generalize forward ++ reverse.getD [] = segments at *
  have hnodup : (segmentNodes segments).Nodup := nodup_collectIds _
  have hends : ∀ u v, SegmentEdge segments u v →
      u ∈ segmentNodes segments ∧ v ∈ segmentNodes segments := by
    rintro u v ⟨seg, hseg, e, he, rfl, rfl⟩
    exact ⟨mem_segmentNodes.2 ⟨seg, hseg, (mem_rawIds _).2 ⟨e, he, .inl rfl⟩⟩,
      mem_segmentNodes.2 ⟨seg, hseg, (mem_rawIds _).2 ⟨e, he, .inr rfl⟩⟩⟩
  have hlen : (segmentNodes segments).length < 2 ^ 256 := by
    have hsub : (segmentNodes segments).toFinset ⊆ Finset.range (2 ^ 64) := by
      intro x hx
      obtain ⟨seg, hseg, hx⟩ := mem_segmentNodes.1 (List.mem_toFinset.1 hx)
      obtain ⟨e, he, rfl | rfl⟩ := (mem_rawIds _).1 hx
      · exact Finset.mem_range.2 (hids seg hseg e he).1
      · exact Finset.mem_range.2 (hids seg hseg e he).2
    have hle := Finset.card_le_card hsub
    rw [List.toFinset_card_of_nodup hnodup, Finset.card_range] at hle
    exact hle.trans_lt (by decide)
  by_cases hempty : (segmentNodes segments).length = 0
  · have hnil : segmentNodes segments = [] := List.length_eq_zero_iff.1 hempty
    rw [if_pos hempty]
    exact ⟨[], [], rfl, rfl, List.nodup_nil, by rwa [hnil] at hends, by simp⟩
  obtain ⟨st, hrun, hst⟩ := exists_unionSegments (B := B) (S := S) hnodup
    (fun seg hseg id hid => mem_segmentNodes.2 ⟨seg, hseg, hid⟩) hread hne hlen hfuel
  obtain ⟨f, hf, hiff⟩ := exists_componentIds hnodup hst hfuel
  refine ⟨segmentNodes segments, (List.finRange _).map f, ?_, by simp, hnodup, hends, ?_⟩
  · rw [if_neg hempty, hrun, Option.bind_some, hf, Option.map_some]
  · have hzip : (segmentNodes segments).zip ((List.finRange _).map f) =
        (List.finRange (segmentNodes segments).length).map
          fun i => ((segmentNodes segments).get i, f i) := by
      refine List.ext_getElem (by simp) fun i hi hi' => ?_
      simp
    rw [hzip]
    intro e he e' he'
    obtain ⟨i, -, rfl⟩ := List.mem_map.1 he
    obtain ⟨j, -, rfl⟩ := List.mem_map.1 he'
    rw [hiff, eqvGen_get_iff hends hnodup]

/-! ### Panics -/

/-- A run that does not panic has cast all dictionaries. -/
lemma dvd_of_connectedComponentsCsr {out : List ℕ × List ℕ}
    (h : connectedComponentsCsr B fuel (forward.map (CsrSegment.graph S))
      (reverse.map (List.map (CsrSegment.graph S))) = some out) :
    ∀ seg ∈ forward ++ reverse.getD [], 8 ∣ (seg.graph S).dict.address := by
  intro seg hseg
  obtain ⟨dicts, hdicts, -⟩ := Option.bind_eq_some_iff.1 h
  rw [graphs_eq] at hdicts
  obtain ⟨dict, hdict⟩ := Failing.exists_of_mapM_eq_some hdicts (List.mem_map_of_mem hseg)
  exact B.dvd_of_castSlice hdict

/-- With a node, a run that does not panic has read the edges of every segment. -/
lemma aligned_of_unionSegment {nodes : List ℕ} (hnodup : nodes.Nodup) {seg : CsrSegment}
    (hdict : ∀ id ∈ rawIds seg.raw, id ∈ nodes) {st st' : UnionFind.State (Fin nodes.length)}
    (h : unionSegment B nodes fuel st (seg.graph S) = some st') :
    (seg.graph S).Aligned ∧ seg.raw ≠ [] := by
  have hfiles := files_graph S seg
  obtain ⟨dict, hcast, hrun⟩ := Option.bind_eq_some_iff.1 h
  have hdvd := B.dvd_of_castSlice hcast
  have hdict' : dict = rawIds seg.raw := by
    rw [B.castSlice_of_dvd hdvd] at hcast
    exact (Option.some.inj hcast).symm.trans (congrArg CsrFiles.dict hfiles)
  subst hdict'
  have hnodes : 0 < (seg.graph S).numNodes := by
    rw [numNodes_eq hfiles]
    omega
  -- the dictionary is read at zero
  obtain ⟨s, s', hstep⟩ := Failing.exists_of_foldlM_eq_some hrun (List.mem_range.2 hnodes)
  obtain ⟨u, hu, hstep⟩ := Option.bind_eq_some_iff.1 hstep
  obtain ⟨i, hi, -⟩ := exists_nodeIndex hnodup (hdict u (List.mem_of_getElem? hu))
  simp only [hi] at hstep
  obtain ⟨edges, hedges, -⟩ := Option.bind_eq_some_iff.1 hstep
  obtain ⟨hoffsetsAt, hedgesAt⟩ := dvd_of_getNeighborsRaw hnodes hedges
  refine ⟨⟨hoffsetsAt, hedgesAt, hdvd⟩, fun hraw => ?_⟩
  rw [rawIds_eq_nil_iff.2 hraw] at hu
  cases hu

/-- The components are right exactly if all segments can be read, and either none of them has edges
or all have. -/
theorem componentsCorrect_iff (B : Bytemuck) (S : EdgeSort) (forward : List CsrSegment)
    (reverse : Option (List CsrSegment))
    (hids : ∀ seg ∈ forward ++ reverse.getD [], ∀ e ∈ seg.raw,
      e.srcId < 2 ^ 64 ∧ e.dstId < 2 ^ 64) :
    ComponentsCorrect B S forward reverse ↔
      (∀ seg ∈ forward ++ reverse.getD [], seg.Readable) ∧
        ((∀ seg ∈ forward ++ reverse.getD [], seg.raw = []) ∨
          ∀ seg ∈ forward ++ reverse.getD [], seg.raw ≠ []) := by
  constructor
  · rintro ⟨bound, hbound⟩
    obtain ⟨nodes, components, hrun, -⟩ := hbound bound le_rfl
    have hcast := dvd_of_connectedComponentsCsr hrun
    by_cases hnil : ∀ seg ∈ forward ++ reverse.getD [], seg.raw = []
    · refine ⟨fun seg hseg offsets edges dict hload => ?_, .inl hnil⟩
      exact absurd (hnil seg hseg) (CsrSegment.raw_ne_nil hload (hcast seg hseg))
    · push Not at hnil
      obtain ⟨seg₀, hseg₀, hraw₀⟩ := hnil
      obtain ⟨e, he⟩ := List.exists_mem_of_ne_nil _ hraw₀
      have hne : (segmentNodes (forward ++ reverse.getD [])).length ≠ 0 :=
        (List.length_pos_of_mem (mem_segmentNodes.2
          ⟨seg₀, hseg₀, (mem_rawIds _).2 ⟨e, he, .inl rfl⟩⟩)).ne'
      rw [connectedComponentsCsr_eq hcast, if_neg hne] at hrun
      obtain ⟨st, hst, -⟩ := Option.bind_eq_some_iff.1 hrun
      have hall : ∀ seg ∈ forward ++ reverse.getD [],
          (seg.graph S).Aligned ∧ seg.raw ≠ [] := by
        intro seg hseg
        obtain ⟨s, s', hstep⟩ := Failing.exists_of_foldlM_eq_some hst
          (List.mem_map_of_mem (f := CsrSegment.graph S) hseg)
        exact aligned_of_unionSegment (nodup_collectIds _)
          (fun id hid => mem_segmentNodes.2 ⟨seg, hseg, hid⟩) hstep
      exact ⟨fun seg hseg => CsrSegment.readable_of_aligned (hall seg hseg).1,
        .inr fun seg hseg => (hall seg hseg).2⟩
  · rintro ⟨hread, hnil | hne⟩
    · exact componentsCorrect_of_nil hread hnil
    · exact componentsCorrect_of_ne hids hread hne

end Correct

/-- Two segments with a node in common, one mapped and one read from blobs, and a third apart from
them in the reverse graph. -/
def chainSegments : List CsrSegment :=
  [⟨[⟨1, 2, 0⟩, ⟨2, 3, 1⟩], .mmap 1 2 3⟩, ⟨[⟨5, 3, 0⟩], .owned 4096 8192 12288⟩]

def apartSegments : List CsrSegment := [⟨[⟨8, 7, 0⟩], .mmap 4 5 6⟩]

theorem componentsCorrect_chain :
    (∀ seg ∈ chainSegments ++ apartSegments, ∀ e ∈ seg.raw,
      e.srcId < 2 ^ 64 ∧ e.dstId < 2 ^ 64) ∧
    ComponentsCorrect alignedCast insertionEdgeSort chainSegments (some apartSegments) := by
  have hids : ∀ seg ∈ chainSegments ++ apartSegments, ∀ e ∈ seg.raw,
      e.srcId < 2 ^ 64 ∧ e.dstId < 2 ^ 64 := by
    simp [chainSegments, apartSegments]
  refine ⟨hids, (componentsCorrect_iff alignedCast insertionEdgeSort chainSegments
    (some apartSegments) hids).2 ⟨fun seg hseg offsets edges dict hload => ?_, .inr ?_⟩⟩
  · obtain rfl | rfl | rfl : seg = ⟨[⟨1, 2, 0⟩, ⟨2, 3, 1⟩], .mmap 1 2 3⟩ ∨
        seg = ⟨[⟨5, 3, 0⟩], .owned 4096 8192 12288⟩ ∨ seg = ⟨[⟨8, 7, 0⟩], .mmap 4 5 6⟩ := by
      simpa [chainSegments, apartSegments] using hseg
    · cases hload
    · cases hload
      exact ⟨by simp, by decide, by decide, by decide⟩
    · cases hload
  · simp [chainSegments, apartSegments]

/-- A segment without edges beside one with an edge makes the function panic. -/
theorem not_componentsCorrect_emptySegment :
    ¬ ComponentsCorrect alignedCast insertionEdgeSort
      [⟨[⟨1, 2, 0⟩], .mmap 1 2 3⟩, ⟨[], .mmap 4 5 6⟩] none := by
  rintro ⟨bound, hbound⟩
  obtain ⟨nodes, components, hrun, -⟩ := hbound bound le_rfl
  rw [connectedComponentsCsr_eq (dvd_of_connectedComponentsCsr hrun), if_neg (by decide)] at hrun
  obtain ⟨st, hst, -⟩ := Option.bind_eq_some_iff.1 hrun
  obtain ⟨s, s', hstep⟩ := Failing.exists_of_foldlM_eq_some hst
    (List.mem_map_of_mem (f := CsrSegment.graph insertionEdgeSort)
      (List.mem_cons_of_mem _ List.mem_cons_self))
  exact (aligned_of_unionSegment (nodup_collectIds _) (fun id hid => absurd hid List.not_mem_nil)
    hstep).2 rfl

end BenoStreamDB

import BenoStreamDB.Index.Hnsw

/-!
# Building the graph index

`insert_slice`, `select_neighbours` and `reverse_update_neighborhood_simple` of `hnsw_rs/hnsw.rs`,
one insertion after the other, with their assertions that no distance is negative. The level of a
new point is drawn at random, so it is an argument here.

If no distance is negative then any run of insertions goes through, and keeps the links sound
(`Sound`, `insertAll_sound`): none dangles, none comes twice, none leads from a point to itself, and
no point has more than it may. But a link back to the new point goes into the layer of the new point
and into no other. So a point above layer zero has no link to it in layer zero at first
(`not_reach_insert`), and as long as there are only such points a search finds nothing
(`search_insertAll_eq_nil`).
-/

namespace BenoStreamDB

namespace Hnsw

open BestFirst

/-- The fields of `Hnsw` that are settings. -/
structure Config where
  efConstruction : ℕ
  maxNbConnection : ℕ
  extendCandidates : Bool
  keepPruned : Bool

/-- What the standard library leaves open: the order of equal distances and of a `HashMap`. -/
structure Orders (δ : Type) [LinearOrder δ] extends Heaps PointId δ where
  sortUnstable : List (PointId × δ) → List (PointId × δ)
  perm_sortUnstable : ∀ l, (sortUnstable l).Perm l
  ordered_sortUnstable : ∀ l, TopK.Ordered Prod.snd (sortUnstable l)
  hashOrder : List PointId → List PointId
  perm_hashOrder : ∀ l, (hashOrder l).Perm l

/-- The first `n` elements that are taken out. -/
def popN {α δ : Type} [LE δ] {key : α → δ} (Q : Queue α key) : ℕ → Q.carrier → List α
  | 0, _ => []
  | n + 1, q =>
    match Q.pop q with
    | none => []
    | some (a, q') => a :: popN Q n q'

def pushAll {α δ : Type} [LE δ] {key : α → δ} (Q : Queue α key) (q : Q.carrier) (l : List α) :
    Q.carrier :=
  l.foldl Q.push q

namespace Graph

variable {V δ : Type} [LinearOrder δ]

/-- `Hnsw::new` -/
def empty [Inhabited V] : Graph V δ :=
  ⟨fun _ => default, fun _ => 0, fun _ _ => [], fun _ => [], none⟩

/-- The id of a new point. -/
def newId (G : Graph V δ) (level : ℕ) : PointId := ⟨level, (G.pointsByLayer level).length⟩

/-- `generate_new_point` -/
def addPoint (G : Graph V δ) (data : V) (originId level : ℕ) : Graph V δ :=
  { G with
    vector := Function.update G.vector (G.newId level) data
    originId := Function.update G.originId (G.newId level) originId
    neighbours := Function.update G.neighbours (G.newId level) fun _ => []
    pointsByLayer :=
      Function.update G.pointsByLayer level (G.pointsByLayer level ++ [G.newId level]) }

def setNeighbours (G : Graph V δ) (p : PointId) (layer : ℕ) (ns : List (PointId × δ)) :
    Graph V δ :=
  { G with neighbours :=
      Function.update G.neighbours p (Function.update (G.neighbours p) layer ns) }

/-- `check_entry_point` -/
def checkEntryPoint (G : Graph V δ) (new : PointId) : Graph V δ :=
  match G.entryPoint with
  | some entry => if entry.layer < new.layer then { G with entryPoint := some new } else G
  | none => { G with entryPoint := some new }

variable (S : Orders δ) (cfg : Config) (eval : V → V → δ) (data : V)

section Select

variable (G : Graph V δ)

/-- The loop over the candidates: a point enters if it is nearer to the new point than to all that
entered before. -/
def selectLoop (asked : ℕ) : ℕ → (S.candidates (G.dist eval data)).carrier → List PointId →
    (S.candidates (G.dist eval data)).carrier →
    List PointId × (S.candidates (G.dist eval data)).carrier
  | 0, _, chosen, discarded => (chosen, discarded)
  | n + 1, q, chosen, discarded =>
    if chosen.length < asked then
      match (S.candidates _).pop q with
      | none => (chosen, discarded)
      | some (e, q) =>
        if chosen.any fun d => eval (G.vector e) (G.vector d) ≤ G.dist eval data e then
          selectLoop asked n q chosen
            (if cfg.keepPruned then (S.candidates _).push discarded e else discarded)
        else selectLoop asked n q (chosen ++ [e]) discarded
    else (chosen, discarded)

/-- The neighbours of the candidates that are not candidates. -/
def extension (layer : ℕ) (candidates : List PointId) : List PointId :=
  (((S.hashOrder candidates).flatMap (G.next layer)).filter (· ∉ candidates)).dedup

/-- `select_neighbours` -/
def selectNeighbours (q : (S.candidates (G.dist eval data)).carrier) (asked : ℕ)
    (extendAsked : Bool) (layer : ℕ) : List PointId :=
  if (S.candidates _).size q ≤ asked ∧ extendAsked = false then
    popN _ ((S.candidates _).size q) q
  else
    let q := if (S.candidates _).size q ≤ asked then
        pushAll _ q (S.hashOrder (G.extension S layer ((S.candidates _).items q))) else q
    let r := selectLoop S cfg eval data G asked ((S.candidates _).size q) q []
      (S.candidates _).empty
    if cfg.keepPruned then r.1 ++ popN _ (asked - r.1.length) r.2 else r.1

end Select

/-- The points with their distances. -/
def withDist (G : Graph V δ) (l : List PointId) : List (PointId × δ) :=
  l.map fun p => (p, G.dist eval data p)

section Asserts

variable [Zero δ] (G : Graph V δ)

/-- The assertions in the loop of `search_layer`. -/
def layerAsserts (ef layer : ℕ) : ℕ → G.LayerState S.toHeaps eval data → Bool
  | 0, _ => true
  | n + 1, st =>
    match (S.candidates _).pop st.candidates with
    | none => true
    | some (c, candidates) =>
      (((S.results _).peek st.results).all fun f =>
          decide (0 ≤ G.dist eval data f) && decide (0 ≤ G.dist eval data c)) &&
        (((S.results _).peek st.results).any (fun f => ef ≤ (S.results _).size st.results &&
            G.dist eval data f < G.dist eval data c) ||
          layerAsserts ef layer n
            ((G.next layer c).foldl (visitNeighbour none ef) { st with candidates := candidates }))

/-- The assertions of `search_layer` as insertions call it. -/
def searchAsserts (fuel : ℕ) (entry : PointId) (ef layer : ℕ) : Bool :=
  (G.pointsByLayer layer).isEmpty || decide (entry.rank < 0) ||
    layerAsserts S eval data G ef layer fuel (G.layerStart S.toHeaps eval data entry none)

/-- The assertions in the loop of `select_neighbours`. What is discarded has passed them. -/
def loopAsserts (asked : ℕ) : ℕ → (S.candidates (G.dist eval data)).carrier → List PointId → Bool
  | 0, _, _ => true
  | n + 1, q, chosen =>
    if chosen.length < asked then
      match (S.candidates _).pop q with
      | none => true
      | some (e, q) =>
        decide (0 ≤ G.dist eval data e) &&
          loopAsserts asked n q
            (if chosen.any fun d => eval (G.vector e) (G.vector d) ≤ G.dist eval data e then chosen
              else chosen ++ [e])
    else true

/-- The assertions of `select_neighbours`; the candidates themselves have passed theirs before. -/
def selectAsserts (q : (S.candidates (G.dist eval data)).carrier) (asked : ℕ)
    (extendAsked : Bool) (layer : ℕ) : Bool :=
  if (S.candidates _).size q ≤ asked ∧ extendAsked = false then true
  else
    let q := if (S.candidates _).size q ≤ asked then
        pushAll _ q (S.hashOrder (G.extension S layer ((S.candidates _).items q))) else q
    loopAsserts S eval data G asked ((S.candidates _).size q) q []

end Asserts

/-- One layer above that of the new point; `none` stands for the panic. -/
def upperLayer (fuel : ℕ) (new : PointId) (layer : ℕ) (st : Graph V δ × PointId) :
    Option (Graph V δ × PointId) :=
  let G := st.1
  let found := G.searchLayer S.toHeaps eval data fuel st.2 1 layer none
  if 1 < (S.results _).size found then none
  else
    match (S.results _).pop found with
    | none => some (G, st.2)
    | some (p, _) =>
      let G' := if (G.neighbours new layer).length < cfg.maxNbConnection % 256 then
          G.setNeighbours new layer (G.neighbours new layer ++ G.withDist eval data [p]) else G
      some (G', if G.dist eval data p < G.dist eval data st.2 then p else st.2)

/-- The layers above, from `level + n` on downwards. -/
def upperLayers (fuel : ℕ) (new : PointId) (level : ℕ) : ℕ → Graph V δ × PointId →
    Option (Graph V δ × PointId)
  | 0, st => some st
  | n + 1, st =>
    (upperLayer S cfg eval data fuel new (level + n + 1) st).bind (upperLayers fuel new level n)

/-- The assertions in the layers above. -/
def upperAsserts [Zero δ] (fuel : ℕ) (new : PointId) (level : ℕ) : ℕ → Graph V δ × PointId → Bool
  | 0, _ => true
  | n + 1, st =>
    searchAsserts S eval data st.1 fuel st.2 1 (level + n + 1) &&
      (upperLayer S cfg eval data fuel new (level + n + 1) st).all
        (upperAsserts fuel new level n)

/-- The number of links that are asked for in a layer. -/
def nbConn (layer : ℕ) : ℕ := if layer = 0 then 2 * cfg.maxNbConnection else cfg.maxNbConnection

/-- One layer of the new point. -/
def lowerLayer (fuel : ℕ) (new : PointId) (layer : ℕ) (st : Graph V δ × PointId) :
    Graph V δ × PointId :=
  let G := st.1
  let found := (S.results _).items
    (G.searchLayer S.toHeaps eval data fuel st.2 cfg.efConstruction layer none)
  if found.isEmpty then st
  else
    let chosen := S.sortUnstable (G.withDist eval data (selectNeighbours S cfg eval data G
      (pushAll _ (S.candidates _).empty found) (nbConn cfg layer)
      (if layer = 0 then cfg.extendCandidates else false) layer))
    (G.setNeighbours new layer chosen, (chosen.head?.map Prod.fst).getD st.2)

/-- The layers from `n` on downwards. -/
def lowerLayers (fuel : ℕ) (new : PointId) : ℕ → Graph V δ × PointId → Graph V δ × PointId
  | 0, st => lowerLayer S cfg eval data fuel new 0 st
  | n + 1, st => lowerLayers fuel new n (lowerLayer S cfg eval data fuel new (n + 1) st)

/-- The assertions in one layer of the new point: of the search, of
`from_positive_binaryheap_to_negative_binary_heap` and of `select_neighbours`. -/
def lowerLayerAsserts [Zero δ] (fuel layer : ℕ) (st : Graph V δ × PointId) : Bool :=
  let G := st.1
  let found := (S.results _).items
    (G.searchLayer S.toHeaps eval data fuel st.2 cfg.efConstruction layer none)
  searchAsserts S eval data G fuel st.2 cfg.efConstruction layer &&
    found.all (fun p => 0 ≤ G.dist eval data p) &&
    (found.isEmpty || selectAsserts S eval data G (pushAll _ (S.candidates _).empty found)
      (nbConn cfg layer) (if layer = 0 then cfg.extendCandidates else false) layer)

def lowerAsserts [Zero δ] (fuel : ℕ) (new : PointId) : ℕ → Graph V δ × PointId → Bool
  | 0, st => lowerLayerAsserts S cfg eval data fuel 0 st
  | n + 1, st => lowerLayerAsserts S cfg eval data fuel (n + 1) st &&
      lowerAsserts fuel new n (lowerLayer S cfg eval data fuel new (n + 1) st)

/-- One link back, to the new point; it goes into the layer of the new point. -/
def linkBack (new : PointId) (G : Graph V δ) (q : PointId × δ) : Graph V δ :=
  if new = q.1 then G
  else if new ∈ G.next new.layer q.1 then G
  else G.setNeighbours q.1 new.layer
    ((S.sortUnstable (G.neighbours q.1 new.layer ++ [(new, q.2)])).take (nbConn cfg new.layer))

/-- `reverse_update_neighborhood_simple` -/
def reverseUpdate (new : PointId) (G : Graph V δ) : Graph V δ :=
  ((List.range (new.layer + 1)).reverse.flatMap (G.neighbours new)).foldl (linkBack S cfg new) G

/-- `insert_slice`, with the level of the new point; `none` stands for a panic. -/
def insert [Zero δ] (fuel : ℕ) (G : Graph V δ) (originId level : ℕ) : Option (Graph V δ) :=
  let new := G.newId level
  let G₁ := G.addPoint data originId level
  match G.entryPoint with
  | none => some (G₁.checkEntryPoint new)
  | some entry =>
    if upperAsserts S cfg eval data fuel new level (entry.layer - level) (G₁, entry) then
      (upperLayers S cfg eval data fuel new level (entry.layer - level) (G₁, entry)).bind fun st =>
        if lowerAsserts S cfg eval data fuel new level st then
          let G₂ := (lowerLayers S cfg eval data fuel new level st).1
          some ((reverseUpdate S cfg new G₂).checkEntryPoint new)
        else none
    else none

/-- Insertions one after the other: of data with its id and the level that is drawn for it. -/
def insertAll [Zero δ] (fuel : ℕ) (G : Graph V δ) (items : List (V × ℕ × ℕ)) : Option (Graph V δ) :=
  items.foldlM (fun G x => insert S cfg eval x.1 fuel G x.2.1 x.2.2) G

end Graph

/-! ### Queues -/

lemma nodup_of_subperm {α : Type} {l l' : List α} (h : l.Subperm l') (h' : l'.Nodup) :
    l.Nodup := by
  obtain ⟨s, hperm, hsub⟩ := h
  exact hperm.nodup_iff.1 (h'.sublist hsub)

section Queues

variable {α δ : Type} [LE δ] {key : α → δ} {Q : Queue α key}

lemma perm_pushAll (q : Q.carrier) (l : List α) :
    (Q.items (pushAll Q q l)).Perm (l ++ Q.items q) := by
  unfold pushAll
  induction l generalizing q with
  | nil => exact .refl _
  | cons a l ih =>
    exact (ih (Q.push q a)).trans (((Q.items_push q a).append_left l).trans List.perm_middle)

lemma subperm_popN (n : ℕ) (q : Q.carrier) :
    (popN Q n q).length ≤ n ∧ (popN Q n q).Subperm (Q.items q) := by
  induction n generalizing q with
  | zero => exact ⟨le_rfl, List.nil_subperm⟩
  | succ n ih =>
    rw [popN]
    split
    · exact ⟨Nat.zero_le _, List.nil_subperm⟩
    · next a q' hpop =>
      obtain ⟨hlength, hsub⟩ := ih q'
      exact ⟨Nat.succ_le_succ hlength,
        ((List.subperm_cons a).2 hsub).trans (Q.perm_of_pop hpop).symm.subperm⟩

end Queues

namespace Graph

variable {V δ : Type} [LinearOrder δ] {S : Orders δ} {cfg : Config} {eval : V → V → δ} {data : V}
  {G : Graph V δ}

/-! ### The neighbours that are chosen -/

section Select

variable (eval data) in
lemma searchLayer_sound {ef : ℕ} (hef : 0 < ef) (fuel : ℕ) (entry : PointId) (layer : ℕ)
    (filter : Option (List ℕ)) :
    ((S.results _).items (G.searchLayer S.toHeaps eval data fuel entry ef layer filter)).Nodup ∧
      (∀ p ∈ (S.results _).items
        (G.searchLayer S.toHeaps eval data fuel entry ef layer filter),
          Reach (G.next layer) entry p) ∧
      (S.results _).size (G.searchLayer S.toHeaps eval data fuel entry ef layer filter) ≤ ef := by
  have hempty : ∀ q, q = (S.results (G.dist eval data)).empty →
      ((S.results _).items q).Nodup ∧
        (∀ p ∈ (S.results _).items q, Reach (G.next layer) entry p) ∧
        (S.results _).size q ≤ ef := by
    rintro q rfl
    rw [Queue.size, Queue.items_empty]
    exact ⟨List.nodup_nil, List.forall_mem_nil _, Nat.zero_le _⟩
  by_cases hlayer : G.pointsByLayer layer = []
  · exact hempty _ (by rw [searchLayer, if_pos (by simp [hlayer])])
  · by_cases hentry : entry.rank < 0
    · exact hempty _ (by rw [searchLayer, if_neg (by simpa using hlayer), if_pos hentry])
    · rw [searchLayer_eq hef hlayer (not_lt.1 hentry)]
      exact search_sound _ _ _ _ hef fuel entry

/-- A point may be moved from the candidates to those that are discarded. -/
lemma perm_move {α : Type} (a b c : List α) (e : α) :
    (a ++ (e :: b) ++ c).Perm (a ++ b ++ (e :: c)) := by
  rw [List.append_assoc, List.append_assoc, List.cons_append]
  exact List.perm_middle.symm.append_left a

variable (cfg) in
/-- What enters or is discarded comes from the candidates. -/
lemma subperm_selectLoop (asked n : ℕ) (q : (S.candidates (G.dist eval data)).carrier)
    (chosen : List PointId) (hchosen : chosen.length ≤ asked)
    (discarded : (S.candidates (G.dist eval data)).carrier) :
    (selectLoop S cfg eval data G asked n q chosen discarded).1.length ≤ asked ∧
      ((selectLoop S cfg eval data G asked n q chosen discarded).1 ++ (S.candidates _).items
          (selectLoop S cfg eval data G asked n q chosen discarded).2).Subperm
        (chosen ++ (S.candidates _).items discarded ++ (S.candidates _).items q) := by
  have hend : (chosen ++ (S.candidates _).items discarded).Subperm
      (chosen ++ (S.candidates _).items discarded ++ (S.candidates _).items q) :=
    (List.sublist_append_left _ _).subperm
  induction n generalizing q chosen discarded with
  | zero => exact ⟨hchosen, hend⟩
  | succ n ih =>
    rw [selectLoop]
    split
    · next hlt =>
      split
      · exact ⟨hchosen, hend⟩
      · next e q' hpop =>
        have hitems := ((S.candidates _).perm_of_pop hpop).symm.append_left
          (chosen ++ (S.candidates _).items discarded)
        split
        · -- the point is discarded
          have hlast := ih q' chosen hchosen
            (if cfg.keepPruned then (S.candidates _).push discarded e else discarded)
            (List.sublist_append_left _ _).subperm
          refine ⟨hlast.1, hlast.2.trans (List.Subperm.trans ?_ hitems.subperm)⟩
          split_ifs
          · have hpush := (S.candidates _).items_push discarded e
            exact (((hpush.append_left chosen).append_right _).trans (perm_move ..)).subperm
          · exact ((List.sublist_cons_self e _).append_left _).subperm
        · have hlast := ih q' (chosen ++ [e]) (by simpa [Nat.add_one_le_iff] using hlt) discarded
            (List.sublist_append_left _ _).subperm
          refine ⟨hlast.1, hlast.2.trans (List.Subperm.trans ?_ hitems.subperm)⟩
          rw [List.append_assoc chosen]
          exact (perm_move chosen _ _ e).subperm
    · exact ⟨hchosen, hend⟩

lemma nodup_extension (layer : ℕ) (candidates : List PointId) :
    (G.extension S layer candidates).Nodup ∧ ∀ p ∈ G.extension S layer candidates,
      p ∉ candidates ∧ ∃ c, p ∈ G.next layer c := by
  refine ⟨List.nodup_dedup _, fun p hp => ?_⟩
  obtain ⟨hnext, hnew⟩ := List.mem_filter.1 (List.mem_dedup.1 hp)
  obtain ⟨c, -, hc⟩ := List.mem_flatMap.1 hnext
  exact ⟨of_decide_eq_true hnew, c, hc⟩

/-- The candidates with the extension are distinct. -/
lemma nodup_extended {q : (S.candidates (G.dist eval data)).carrier}
    (hq : ((S.candidates _).items q).Nodup) (layer : ℕ) :
    ((S.candidates _).items (pushAll _ q
        (S.hashOrder (G.extension S layer ((S.candidates _).items q))))).Nodup ∧
      ∀ p ∈ (S.candidates _).items (pushAll _ q
          (S.hashOrder (G.extension S layer ((S.candidates _).items q)))),
        p ∈ (S.candidates _).items q ∨ ∃ c, p ∈ G.next layer c := by
  obtain ⟨hnodup, hext⟩ := nodup_extension (S := S) (G := G) layer ((S.candidates _).items q)
  have hperm := (perm_pushAll q (S.hashOrder (G.extension S layer
    ((S.candidates _).items q)))).trans ((S.perm_hashOrder _).append_right _)
  constructor
  · refine hperm.nodup_iff.2 (hnodup.append hq fun p hp hmem => (hext p hp).1 hmem)
  · intro p hp
    rcases List.mem_append.1 (hperm.mem_iff.1 hp) with hp | hp
    · exact .inr (hext p hp).2
    · exact .inl hp

variable (cfg) in
/-- The chosen points are distinct, at most as many as asked for, and were candidates or neighbours
of candidates. -/
lemma selectNeighbours_spec {q : (S.candidates (G.dist eval data)).carrier}
    (hq : ((S.candidates _).items q).Nodup) (asked : ℕ) (extendAsked : Bool) (layer : ℕ) :
    (selectNeighbours S cfg eval data G q asked extendAsked layer).Nodup ∧
      (∀ p ∈ selectNeighbours S cfg eval data G q asked extendAsked layer,
        p ∈ (S.candidates _).items q ∨ ∃ c, p ∈ G.next layer c) ∧
      (selectNeighbours S cfg eval data G q asked extendAsked layer).length ≤ asked := by
  unfold selectNeighbours
  split
  · next hfew =>
    obtain ⟨hlength, hsub⟩ := subperm_popN ((S.candidates _).size q) q
    exact ⟨nodup_of_subperm hsub hq, fun p hp => .inl (hsub.subset hp), hlength.trans hfew.1⟩
  · simp only
    generalize hq' : (if (S.candidates _).size q ≤ asked then
      pushAll _ q (S.hashOrder (G.extension S layer ((S.candidates _).items q))) else q) = q'
    obtain ⟨hnodup, hmem⟩ : ((S.candidates _).items q').Nodup ∧
        ∀ p ∈ (S.candidates _).items q',
          p ∈ (S.candidates _).items q ∨ ∃ c, p ∈ G.next layer c := by
      subst hq'
      split
      · exact nodup_extended hq layer
      · exact ⟨hq, fun p hp => .inl hp⟩
    obtain ⟨hlength, hsub⟩ := subperm_selectLoop cfg asked ((S.candidates _).size q') q' []
      (Nat.zero_le asked) (S.candidates _).empty
    rw [(S.candidates _).items_empty, List.append_nil, List.nil_append] at hsub
    split
    · obtain ⟨hpopped, hpop⟩ := subperm_popN (asked - (selectLoop S cfg eval data G asked
        ((S.candidates _).size q') q' [] (S.candidates _).empty).1.length)
        (selectLoop S cfg eval data G asked ((S.candidates _).size q') q' []
          (S.candidates _).empty).2
      have hall := ((List.subperm_append_left _).2 hpop).trans hsub
      refine ⟨nodup_of_subperm hall hnodup, fun p hp => hmem p (hall.subset hp), ?_⟩
      rw [List.length_append]
      omega
    · have hall := (List.sublist_append_left _ _).subperm.trans hsub
      exact ⟨nodup_of_subperm hall hnodup, fun p hp => hmem p (hall.subset hp), hlength⟩

end Select

end Graph

/-! ### Links -/

namespace Graph

variable {V δ : Type} {cfg : Config} {G : Graph V δ}

/-- The links lead to points of `P`, never back to their own point, never twice to one point, and
there are not too many. -/
structure Links (cfg : Config) (P : PointId → Prop) (G : Graph V δ) : Prop where
  mem : ∀ p layer, ∀ q ∈ G.next layer p, P q
  nodup : ∀ p layer, (G.next layer p).Nodup
  irrefl : ∀ p layer, p ∉ G.next layer p
  bounded : ∀ p layer, (G.neighbours p layer).length ≤ nbConn cfg layer

section Links

variable {P : PointId → Prop} {new : PointId}

lemma neighbours_setNeighbours (p : PointId) (layer : ℕ) (ns : List (PointId × δ))
    (p' : PointId) (layer' : ℕ) : (G.setNeighbours p layer ns).neighbours p' layer' =
      if p' = p ∧ layer' = layer then ns else G.neighbours p' layer' := by
  unfold setNeighbours
  by_cases hp : p' = p
  · subst hp
    by_cases hlayer : layer' = layer
    · subst hlayer
      simp
    · simp [hlayer]
  · simp [hp]

lemma Links.setNeighbours (h : Links cfg P G) {p : PointId} {layer : ℕ}
    {ns : List (PointId × δ)} (hmem : ∀ q ∈ ns.map Prod.fst, P q)
    (hnodup : (ns.map Prod.fst).Nodup) (hirrefl : p ∉ ns.map Prod.fst)
    (hbounded : ns.length ≤ nbConn cfg layer) : Links cfg P (G.setNeighbours p layer ns) := by
  constructor
  all_goals
    intro p' layer'
    simp only [next, neighbours_setNeighbours]
    split_ifs with heq
  · exact hmem
  · exact h.mem p' layer'
  · exact hnodup
  · exact h.nodup p' layer'
  · exact heq.1 ▸ hirrefl
  · exact h.irrefl p' layer'
  · exact heq.2 ▸ hbounded
  · exact h.bounded p' layer'

lemma Links.mono {P' : PointId → Prop} (h : Links cfg P G) (hP : ∀ p, P p → P' p) :
    Links cfg P' G :=
  ⟨fun p layer q hq => hP q (h.mem p layer q hq), h.nodup, h.irrefl, h.bounded⟩

lemma Links.reach (h : Links cfg P G) {layer : ℕ} {p q : PointId} (hp : P p)
    (hq : Reach (G.next layer) p q) : P q := by
  cases hq with
  | refl => exact hp
  | tail _ hnext => exact h.mem _ layer q hnext

/-- The graph while the links of a new point are built: only those change. -/
structure Building (cfg : Config) (P : PointId → Prop) (new : PointId) (G₁ G : Graph V δ) :
    Prop where
  links : Links cfg P G
  frame : ∃ ns, G = { G₁ with neighbours := Function.update G₁.neighbours new ns }

lemma Building.setNeighbours {G₁ : Graph V δ} (h : Building cfg P new G₁ G) (hnew : ¬P new)
    {layer : ℕ} {ns : List (PointId × δ)} (hmem : ∀ q ∈ ns.map Prod.fst, P q)
    (hnodup : (ns.map Prod.fst).Nodup) (hbounded : ns.length ≤ nbConn cfg layer) :
    Building cfg P new G₁ (G.setNeighbours new layer ns) := by
  refine ⟨h.links.setNeighbours hmem hnodup (fun hself => hnew (hmem new hself)) hbounded, ?_⟩
  obtain ⟨old, rfl⟩ := h.frame
  refine ⟨Function.update old layer ns, ?_⟩
  simp [Graph.setNeighbours]

end Links

/-! ### Points -/

def Stored (G : Graph V δ) (p : PointId) : Prop := p ∈ G.pointsByLayer p.layer

/-- The invariant of the index: the ranks are positions, the links lead to stored points, and the
entry point is one of the highest layer. -/
structure Sound (cfg : Config) (G : Graph V δ) : Prop where
  ranks : ∀ layer, ∀ p ∈ G.pointsByLayer layer,
    p.layer = layer ∧ 0 ≤ p.rank ∧ p.rank < (G.pointsByLayer layer).length
  links : Links cfg G.Stored G
  entry : ∀ e ∈ G.entryPoint, G.Stored e ∧ ∀ p, G.Stored p → p.layer ≤ e.layer
  isSome : ∀ p, G.Stored p → G.entryPoint.isSome = true

lemma Sound.exists_stored (h : Sound cfg G) {layer : ℕ} (hlayer : G.pointsByLayer layer ≠ []) :
    ∃ p, G.Stored p := by
  obtain ⟨p, hp⟩ := List.exists_mem_of_ne_nil _ hlayer
  exact ⟨p, by rwa [Stored, (h.ranks layer p hp).1]⟩

section Points

variable (data : V) (originId : ℕ)

lemma Sound.not_stored_newId (h : Sound cfg G) (level : ℕ) : ¬G.Stored (G.newId level) := by
  intro hstored
  exact absurd (h.ranks level _ hstored).2.2 (lt_irrefl _)

lemma pointsByLayer_addPoint (G : Graph V δ) (level layer : ℕ) :
    (G.addPoint data originId level).pointsByLayer layer =
      if layer = level then G.pointsByLayer level ++ [G.newId level]
      else G.pointsByLayer layer := by
  by_cases hlayer : layer = level <;> simp [addPoint, hlayer]

lemma stored_addPoint (G : Graph V δ) (level : ℕ) (p : PointId) :
    (G.addPoint data originId level).Stored p ↔ G.Stored p ∨ p = G.newId level := by
  rw [Stored, pointsByLayer_addPoint, Stored]
  split_ifs with hlayer
  · rw [hlayer, List.mem_append, List.mem_singleton]
  · refine ⟨.inl, fun h => h.elim id ?_⟩
    rintro rfl
    exact absurd rfl hlayer

lemma ranks_addPoint (h : Sound cfg G) (level : ℕ) : ∀ layer,
    ∀ p ∈ (G.addPoint data originId level).pointsByLayer layer, p.layer = layer ∧ 0 ≤ p.rank ∧
      p.rank < ((G.addPoint data originId level).pointsByLayer layer).length := by
  intro layer p
  rw [pointsByLayer_addPoint]
  split_ifs with hlayer
  · subst hlayer
    rw [List.mem_append, List.mem_singleton, List.length_append, List.length_singleton]
    rintro (hp | rfl)
    · obtain ⟨hlayer, hrank, hlt⟩ := h.ranks layer p hp
      exact ⟨hlayer, hrank, by omega⟩
    · exact ⟨rfl, Int.natCast_nonneg _, by simp [newId]⟩
  · exact h.ranks layer p

/-- The new point has no links at first, and there are none to it. -/
lemma building_addPoint (h : Sound cfg G) (level : ℕ) :
    Building cfg G.Stored (G.newId level) (G.addPoint data originId level)
      (G.addPoint data originId level) := by
  refine ⟨?_, fun _ => [], by simp [addPoint]⟩
  have hneighbours : ∀ p layer, (G.addPoint data originId level).neighbours p layer =
      if p = G.newId level then [] else G.neighbours p layer := by
    intro p layer
    by_cases hp : p = G.newId level <;> simp [addPoint, hp]
  constructor
  all_goals
    intro p layer
    simp only [next, hneighbours]
    split_ifs
  · exact List.forall_mem_nil _
  · exact h.links.mem p layer
  · exact List.nodup_nil
  · exact h.links.nodup p layer
  · exact List.not_mem_nil
  · exact h.links.irrefl p layer
  · exact Nat.zero_le _
  · exact h.links.bounded p layer

lemma checkEntryPoint_frame (G : Graph V δ) (new : PointId) :
    (G.checkEntryPoint new).pointsByLayer = G.pointsByLayer ∧
      (G.checkEntryPoint new).neighbours = G.neighbours := by
  unfold checkEntryPoint
  split
  · split_ifs <;> exact ⟨rfl, rfl⟩
  · exact ⟨rfl, rfl⟩

/-- The entry point is of the highest layer again. -/
lemma entry_checkEntryPoint (h : Sound cfg G) {G₂ : Graph V δ}
    (hentry : G₂.entryPoint = G.entryPoint) (level : ℕ) :
    ∃ e, (G₂.checkEntryPoint (G.newId level)).entryPoint = some e ∧
      (G.Stored e ∨ e = G.newId level) ∧ level ≤ e.layer ∧
      ∀ p, G.Stored p → p.layer ≤ e.layer := by
  unfold checkEntryPoint
  rw [hentry]
  cases he : G.entryPoint with
  | none =>
    refine ⟨G.newId level, rfl, .inr rfl, le_rfl, fun p hp => ?_⟩
    have hsome := h.isSome p hp
    rw [he] at hsome
    cases hsome
  | some e =>
    obtain ⟨hstored, hmax⟩ := h.entry e he
    simp only
    split_ifs with hlt
    · exact ⟨G.newId level, rfl, .inr rfl, le_rfl, fun p hp => (hmax p hp).trans hlt.le⟩
    · exact ⟨e, hentry.trans he, .inl hstored, not_lt.1 hlt, hmax⟩

/-- The end of an insertion. -/
lemma Sound.finish (h : Sound cfg G) {level : ℕ} {G₂ : Graph V δ}
    (hlinks : Links cfg (G.addPoint data originId level).Stored G₂)
    (hpoints : G₂.pointsByLayer = (G.addPoint data originId level).pointsByLayer)
    (hentry : G₂.entryPoint = G.entryPoint) :
    Sound cfg (G₂.checkEntryPoint (G.newId level)) := by
  obtain ⟨hframe, hneighbours⟩ := checkEntryPoint_frame G₂ (G.newId level)
  have hstored : ∀ p, (G₂.checkEntryPoint (G.newId level)).Stored p ↔
      (G.addPoint data originId level).Stored p := by
    intro p
    rw [Stored, Stored, hframe, hpoints]
  obtain ⟨e, he, hmem, hlevel, hmax⟩ := entry_checkEntryPoint h hentry level
  refine ⟨?_, ?_, fun e' he' => ?_, fun _ _ => by rw [he]; rfl⟩
  · rw [hframe, hpoints]
    exact ranks_addPoint data originId h level
  · refine (Links.mono ?_ fun p hp => (hstored p).2 hp)
    obtain ⟨hmem, hnodup, hirrefl, hbounded⟩ := hlinks
    unfold next at hmem hnodup hirrefl
    rw [← hneighbours] at hmem hnodup hirrefl hbounded
    exact ⟨hmem, hnodup, hirrefl, hbounded⟩
  · obtain rfl : e = e' := Option.some.inj (he.symm.trans he')
    refine ⟨(hstored e).2 ((stored_addPoint data originId G level e).2 hmem), fun p hp => ?_⟩
    rcases (stored_addPoint data originId G level p).1 ((hstored p).1 hp) with hp | rfl
    · exact hmax p hp
    · exact hlevel

/-- The links lead to points that have ranks. -/
lemma Sound.ranked (h : Sound cfg G) : G.Ranked := by
  have hrank : ∀ p, G.Stored p → 0 ≤ p.rank := fun p hp => (h.ranks p.layer p hp).2.1
  refine ⟨fun e he => hrank e (h.entry e he).1, fun p layer q hq => ?_⟩
  exact hrank q (h.links.mem p layer q hq)

lemma sound_empty [Inhabited V] (cfg : Config) : Sound cfg (Graph.empty : Graph V δ) := by
  have hlinks : Links cfg (Graph.empty : Graph V δ).Stored (Graph.empty : Graph V δ) :=
    ⟨fun _ _ => List.forall_mem_nil _, fun _ _ => List.nodup_nil, fun _ _ => List.not_mem_nil,
      fun _ _ => Nat.zero_le _⟩
  refine ⟨fun _ => List.forall_mem_nil _, hlinks, fun e he => ?_, fun p hp => ?_⟩
  · cases he
  · exact absurd hp List.not_mem_nil

end Points

lemma map_fst_withDist (eval : V → V → δ) (data : V) (l : List PointId) :
    (G.withDist eval data l).map Prod.fst = l := by
  rw [withDist, List.map_map]
  exact List.map_id l

variable [LinearOrder δ] {S : Orders δ} {eval : V → V → δ} {data : V}

/-! ### The layers of a new point -/

section Layers

variable {P : PointId → Prop} {new : PointId} {G₁ : Graph V δ} {fuel level : ℕ}

variable (S eval data fuel) in
/-- A layer above the new point: the search gives one point at most, so there is no panic. -/
lemma exists_upperLayer {layer : ℕ} (hlayer : 0 < layer) {st : Graph V δ × PointId}
    (h : Building cfg P new G₁ st.1) (hnew : ¬P new) (hentry : P st.2)
    (hempty : st.1.neighbours new layer = []) :
    ∃ st', upperLayer S cfg eval data fuel new layer st = some st' ∧
      Building cfg P new G₁ st'.1 ∧ P st'.2 ∧
      ∀ layer' ≠ layer, st'.1.neighbours new layer' = st.1.neighbours new layer' := by
  obtain ⟨-, hreach, hsize⟩ := searchLayer_sound (S := S) eval data (G := st.1) zero_lt_one fuel
    st.2 layer none
  unfold upperLayer
  simp only
  rw [if_neg (not_lt.2 hsize)]
  split
  · exact ⟨st, rfl, h, hentry, fun _ _ => rfl⟩
  · next p q hpop =>
    have hp : P p := h.links.reach hentry
      (hreach p (((S.results _).perm_of_pop hpop).mem_iff.2 List.mem_cons_self))
    refine ⟨_, rfl, ?_, ?_, fun layer' hne => ?_⟩
    · simp only
      split_ifs with hroom
      · rw [hempty, List.nil_append]
        refine h.setNeighbours hnew ?_ ?_ ?_
        · rw [map_fst_withDist]
          simpa using hp
        · rw [map_fst_withDist]
          exact List.nodup_singleton p
        · rw [hempty, List.length_nil] at hroom
          rw [nbConn, if_neg hlayer.ne']
          have := Nat.mod_le cfg.maxNbConnection 256
          simp only [withDist, List.map_cons, List.map_nil, List.length_singleton]
          omega
      · exact h
    · simp only
      split_ifs
      · exact hp
      · exact hentry
    · simp only
      split_ifs
      · rw [neighbours_setNeighbours, if_neg (fun heq => hne heq.2)]
      · rfl

variable (S eval data fuel level) in
lemma exists_upperLayers (hnew : ¬P new) (n : ℕ) (st : Graph V δ × PointId)
    (h : Building cfg P new G₁ st.1) (hentry : P st.2)
    (hempty : ∀ layer ≤ level + n, st.1.neighbours new layer = []) :
    ∃ st', upperLayers S cfg eval data fuel new level n st = some st' ∧
      Building cfg P new G₁ st'.1 ∧ P st'.2 := by
  induction n generalizing st with
  | zero => exact ⟨st, rfl, h, hentry⟩
  | succ n ih =>
    obtain ⟨st', hst', hbuilding, hentry', hsame⟩ := exists_upperLayer S eval data fuel
      (Nat.succ_pos (level + n)) h hnew hentry (hempty _ le_rfl)
    rw [upperLayers, hst', Option.bind_some]
    refine ih st' hbuilding hentry' fun layer hle => ?_
    rw [hsame layer (by omega), hempty layer (by omega)]

variable (S eval data fuel) in
lemma building_lowerLayer (hef : 0 < cfg.efConstruction) (hnew : ¬P new) (layer : ℕ)
    {st : Graph V δ × PointId} (h : Building cfg P new G₁ st.1) (hentry : P st.2) :
    Building cfg P new G₁ (lowerLayer S cfg eval data fuel new layer st).1 ∧
      P (lowerLayer S cfg eval data fuel new layer st).2 := by
  obtain ⟨hnodup, hreach, -⟩ := searchLayer_sound (S := S) eval data (G := st.1) hef fuel st.2
    layer none
  unfold lowerLayer
  simp only
  split
  · exact ⟨h, hentry⟩
  generalize (S.results _).items
    (st.1.searchLayer S.toHeaps eval data fuel st.2 cfg.efConstruction layer none) = found
    at hnodup hreach ⊢
  have hpushed : ((S.candidates (st.1.dist eval data)).items
      (pushAll _ (S.candidates _).empty found)).Perm found := by
    have hperm := perm_pushAll (Q := S.candidates (st.1.dist eval data)) (S.candidates _).empty
      found
    rwa [(S.candidates _).items_empty, List.append_nil] at hperm
  obtain ⟨hchosen, hmem, hlength⟩ := selectNeighbours_spec cfg
    (hpushed.nodup_iff.2 hnodup) (nbConn cfg layer)
    (if layer = 0 then cfg.extendCandidates else false) layer
  generalize selectNeighbours S cfg eval data st.1 (pushAll _ (S.candidates _).empty found)
    (nbConn cfg layer) (if layer = 0 then cfg.extendCandidates else false) layer = chosen
    at hchosen hmem hlength ⊢
  have hP : ∀ p ∈ chosen, P p := by
    intro p hp
    rcases hmem p hp with hp | ⟨c, hc⟩
    · exact h.links.reach hentry (hreach p (hpushed.mem_iff.1 hp))
    · exact h.links.mem c layer p hc
  have hsorted := S.perm_sortUnstable (st.1.withDist eval data chosen)
  have hfst : ((S.sortUnstable (st.1.withDist eval data chosen)).map Prod.fst).Perm chosen := by
    have hmap := hsorted.map Prod.fst
    rwa [map_fst_withDist] at hmap
  refine ⟨h.setNeighbours hnew (fun q hq => hP q (hfst.mem_iff.1 hq)) (hfst.nodup_iff.2 hchosen) ?_,
    ?_⟩
  · have := hfst.length_eq
    rw [List.length_map] at this
    omega
  · cases hhead : (S.sortUnstable (st.1.withDist eval data chosen)).head? with
    | none => exact hentry
    | some p =>
      have hp := List.mem_map_of_mem (f := Prod.fst) (List.mem_of_head? hhead)
      exact hP p.1 (hfst.mem_iff.1 hp)

variable (S eval data fuel) in
lemma building_lowerLayers (hef : 0 < cfg.efConstruction) (hnew : ¬P new) (n : ℕ)
    {st : Graph V δ × PointId} (h : Building cfg P new G₁ st.1) (hentry : P st.2) :
    Building cfg P new G₁ (lowerLayers S cfg eval data fuel new n st).1 := by
  induction n generalizing st with
  | zero => exact (building_lowerLayer S eval data fuel hef hnew 0 h hentry).1
  | succ n ih =>
    obtain ⟨hbuilding, hentry'⟩ := building_lowerLayer S eval data fuel hef hnew (n + 1) h hentry
    exact ih hbuilding hentry'

end Layers

/-! ### Links back -/

section LinksBack

variable {P : PointId → Prop} {new : PointId}

/-- Links back are made in the layer of the new point only. -/
lemma neighbours_linkBack (q : PointId × δ) (p : PointId) {layer : ℕ} (h : layer ≠ new.layer) :
    (linkBack S cfg new G q).neighbours p layer = G.neighbours p layer := by
  unfold linkBack
  split_ifs
  · rfl
  · rfl
  · rw [neighbours_setNeighbours, if_neg fun heq => h heq.2]

lemma Links.linkBack (h : Links cfg P G) (hnew : P new) (q : PointId × δ) :
    Links cfg P (linkBack S cfg new G q) := by
  unfold Graph.linkBack
  split_ifs with hself hlinked
  · exact h
  · exact h
  have hsorted := S.perm_sortUnstable (G.neighbours q.1 new.layer ++ [(new, q.2)])
  have hfst := hsorted.map Prod.fst
  rw [List.map_append, List.map_singleton] at hfst
  have hsub := (List.take_sublist (nbConn cfg new.layer)
    (S.sortUnstable (G.neighbours q.1 new.layer ++ [(new, q.2)]))).map Prod.fst
  have hnodup : (G.next new.layer q.1 ++ [new]).Nodup := by
    refine (h.nodup q.1 new.layer).append (List.nodup_singleton new) fun p hp hp' => ?_
    exact hlinked (List.mem_singleton.1 hp' ▸ hp)
  refine h.setNeighbours (fun p hp => ?_) ((hfst.nodup_iff.2 hnodup).sublist hsub)
    (fun hp => ?_) (List.length_take_le _ _)
  · rcases List.mem_append.1 (hfst.mem_iff.1 (hsub.subset hp)) with hp | hp
    · exact h.mem q.1 new.layer p hp
    · exact List.mem_singleton.1 hp ▸ hnew
  · rcases List.mem_append.1 (hfst.mem_iff.1 (hsub.subset hp)) with hp | hp
    · exact h.irrefl q.1 new.layer hp
    · exact hself (List.mem_singleton.1 hp).symm

variable (S) in
lemma reverseUpdate_spec (h : Links cfg P G) (hnew : P new) :
    Links cfg P (reverseUpdate S cfg new G) ∧
      (reverseUpdate S cfg new G).pointsByLayer = G.pointsByLayer ∧
      (reverseUpdate S cfg new G).entryPoint = G.entryPoint ∧
      ∀ p, ∀ layer ≠ new.layer,
        (reverseUpdate S cfg new G).neighbours p layer = G.neighbours p layer := by
  unfold reverseUpdate
  generalize (List.range (new.layer + 1)).reverse.flatMap (G.neighbours new) = qs
  induction qs generalizing G with
  | nil => exact ⟨h, rfl, rfl, fun _ _ _ => rfl⟩
  | cons q qs ih =>
    have hfields : (linkBack S cfg new G q).pointsByLayer = G.pointsByLayer ∧
        (linkBack S cfg new G q).entryPoint = G.entryPoint := by
      unfold linkBack
      split_ifs <;> exact ⟨rfl, rfl⟩
    obtain ⟨hlinks, hpoints, hentry, hframe⟩ := ih (h.linkBack hnew q)
    refine ⟨hlinks, hpoints.trans hfields.1, hentry.trans hfields.2, fun p layer hne => ?_⟩
    exact (hframe p layer hne).trans (neighbours_linkBack q p hne)

end LinksBack

/-! ### Assertions

If no distance is negative then all of them hold. -/

section Asserts

variable [Zero δ]

lemma layerAsserts_eq_true (hdist : ∀ a b, 0 ≤ eval a b) (ef layer n : ℕ)
    (st : G.LayerState S.toHeaps eval data) :
    layerAsserts S eval data G ef layer n st = true := by
  induction n generalizing st with
  | zero => rfl
  | succ n ih =>
    rw [layerAsserts]
    cases (S.candidates _).pop st.candidates with
    | none => rfl
    | some p => cases (S.results _).peek st.results <;> simp [ih, dist, hdist]

lemma searchAsserts_eq_true (hdist : ∀ a b, 0 ≤ eval a b) (fuel : ℕ) (entry : PointId)
    (ef layer : ℕ) : searchAsserts S eval data G fuel entry ef layer = true := by
  rw [searchAsserts, layerAsserts_eq_true hdist, Bool.or_true]

lemma loopAsserts_eq_true (hdist : ∀ a b, 0 ≤ eval a b) (asked n : ℕ)
    (q : (S.candidates (G.dist eval data)).carrier) (chosen : List PointId) :
    loopAsserts S eval data G asked n q chosen = true := by
  induction n generalizing q chosen with
  | zero => rfl
  | succ n ih =>
    rw [loopAsserts]
    split_ifs
    · cases (S.candidates _).pop q with
      | none => rfl
      | some p => simp [ih, dist, hdist]
    · rfl

lemma upperAsserts_eq_true (hdist : ∀ a b, 0 ≤ eval a b) (fuel : ℕ) (new : PointId) (level n : ℕ)
    (st : Graph V δ × PointId) : upperAsserts S cfg eval data fuel new level n st = true := by
  induction n generalizing st with
  | zero => rfl
  | succ n ih =>
    rw [upperAsserts, searchAsserts_eq_true hdist, Bool.true_and]
    cases upperLayer S cfg eval data fuel new (level + n + 1) st with
    | none => rfl
    | some st' => exact ih st'

lemma lowerLayerAsserts_eq_true (hdist : ∀ a b, 0 ≤ eval a b) (fuel layer : ℕ)
    (st : Graph V δ × PointId) : lowerLayerAsserts S cfg eval data fuel layer st = true := by
  simp [lowerLayerAsserts, searchAsserts_eq_true hdist, selectAsserts, loopAsserts_eq_true hdist,
    dist, hdist]

lemma lowerAsserts_eq_true (hdist : ∀ a b, 0 ≤ eval a b) (fuel : ℕ) (new : PointId) (n : ℕ)
    (st : Graph V δ × PointId) : lowerAsserts S cfg eval data fuel new n st = true := by
  induction n generalizing st with
  | zero => exact lowerLayerAsserts_eq_true hdist fuel 0 st
  | succ n ih => rw [lowerAsserts, lowerLayerAsserts_eq_true hdist, ih, Bool.true_and]

end Asserts

/-! ### Insertions -/

section Insert

variable [Zero δ] {fuel originId level : ℕ}

variable (S eval data fuel originId level) in
/-- What an insertion that goes through does, and that it does if no distance is negative. Other
points keep their links in all layers but that of the new one. -/
lemma insert_eq (hef : 0 < cfg.efConstruction) (h : Sound cfg G) :
    ∃ G₂, (∀ G', insert S cfg eval data fuel G originId level = some G' →
        G' = G₂.checkEntryPoint (G.newId level)) ∧
      ((∀ a b, 0 ≤ eval a b) → insert S cfg eval data fuel G originId level =
        some (G₂.checkEntryPoint (G.newId level))) ∧
      Links cfg (G.addPoint data originId level).Stored G₂ ∧
      G₂.pointsByLayer = (G.addPoint data originId level).pointsByLayer ∧
      G₂.entryPoint = G.entryPoint ∧
      ∀ p ≠ G.newId level, ∀ layer ≠ level, G₂.neighbours p layer = G.neighbours p layer := by
  have hstored : ∀ p, G.Stored p → (G.addPoint data originId level).Stored p := fun p hp =>
    (stored_addPoint data originId G level p).2 (.inl hp)
  have hstart := building_addPoint data originId h level
  have hnew := h.not_stored_newId level
  have hframe : ∀ p ≠ G.newId level, (G.addPoint data originId level).neighbours p =
      G.neighbours p := fun p hp => Function.update_of_ne hp _ _
  unfold insert
  simp only
  cases he : G.entryPoint with
  | none =>
    refine ⟨_, fun G' hG' => (Option.some.inj hG').symm, fun _ => rfl, hstart.links.mono hstored,
      rfl, he, fun p hp layer _ => ?_⟩
    rw [hframe p hp]
  | some entry =>
    obtain ⟨st, hupper, hbuilding, hentry⟩ := exists_upperLayers S eval data fuel level hnew
      (entry.layer - level) (G.addPoint data originId level, entry) hstart
      (h.entry entry he).1 fun layer _ => by simp [addPoint]
    have hlower := building_lowerLayers S eval data fuel hef hnew level hbuilding hentry
    obtain ⟨ns, hG₂⟩ := hlower.frame
    obtain ⟨hlinks, hpoints, hentry₂, hlayers⟩ := reverseUpdate_spec S
      (hlower.links.mono hstored) ((stored_addPoint data originId G level _).2 (.inr rfl))
    refine ⟨_, fun G' hG' => ?_, fun hdist => ?_, hlinks, hpoints.trans (by rw [hG₂]), ?_,
      fun p hp layer hne => ?_⟩
    · simp only [hupper, Option.bind_some] at hG'
      split_ifs at hG'
      exact (Option.some.inj hG').symm
    · simp only [hupper, Option.bind_some, upperAsserts_eq_true hdist, lowerAsserts_eq_true hdist,
        if_true]
    · rw [hentry₂, hG₂]
      exact he
    · rw [hlayers p layer hne, hG₂]
      simp only [Function.update_of_ne hp, hframe p hp]

/-- If no distance is negative then insertions do not panic, and they keep the links sound. -/
theorem insertAll_sound (hdist : ∀ a b, 0 ≤ eval a b) (hef : 0 < cfg.efConstruction)
    (h : Sound cfg G) (items : List (V × ℕ × ℕ)) :
    ∃ G', insertAll S cfg eval fuel G items = some G' ∧ Sound cfg G' := by
  induction items generalizing G with
  | nil => exact ⟨G, rfl, h⟩
  | cons x items ih =>
    obtain ⟨G₂, -, hinsert, hlinks, hpoints, hentry, -⟩ :=
      insert_eq S eval x.1 fuel x.2.1 x.2.2 hef h
    obtain ⟨G', hG', hsound⟩ := ih (h.finish x.1 x.2.1 hlinks hpoints hentry)
    refine ⟨G', ?_, hsound⟩
    rw [insertAll, List.foldlM_cons, hinsert hdist]
    exact hG'

/-- Sorted lists as heaps, and maps in the order of insertion. -/
def listOrders {δ : Type} [LinearOrder δ] : Orders δ :=
  { sortedHeaps PointId δ with
    sortUnstable := insertionSort Prod.snd
    perm_sortUnstable := fun l => (insertionSort_spec Prod.snd l).1
    ordered_sortUnstable := fun l => (insertionSort_spec Prod.snd l).2
    hashOrder := id
    perm_hashOrder := List.Perm.refl }

def smallConfig : Config := ⟨2, 2, false, false⟩

theorem insertAll_sound_line : ∃ G', insertAll listOrders smallConfig absDist 5 Graph.empty
    [(0, 0, 0), (5, 1, 0), (9, 2, 1)] = some G' ∧ Sound smallConfig G' :=
  insertAll_sound (fun _ _ => Nat.zero_le _) (by decide) (sound_empty _) _

/-- With a negative distance the second insertion panics. -/
example : (insertAll listOrders smallConfig (fun a b : ℤ => a - b) 5 Graph.empty
    [(5, 0, 0), (0, 1, 0)]).isNone = true := by rfl

/-- There is no way in layer zero from an older point to a new one above it. -/
lemma not_reach_insert (hef : 0 < cfg.efConstruction) (h : Sound cfg G) (hlevel : level ≠ 0)
    {G' : Graph V δ} (hinsert : insert S cfg eval data fuel G originId level = some G')
    {p : PointId} (hp : G.Stored p) : ¬Reach (G'.next 0) p (G.newId level) := by
  obtain ⟨G₂, heq, -, -, -, -, hframe⟩ := insert_eq S eval data fuel originId level hef h
  obtain rfl := heq G' hinsert
  have hstored : ∀ q, Reach ((G₂.checkEntryPoint (G.newId level)).next 0) p q → G.Stored q := by
    intro q hq
    induction hq with
    | refl => exact hp
    | tail _ hnext ih =>
      rw [next, (checkEntryPoint_frame G₂ _).2,
        hframe _ (fun heq => h.not_stored_newId level (heq ▸ ih)) 0 hlevel.symm] at hnext
      exact h.links.mem _ 0 _ hnext
  exact fun hreach => h.not_stored_newId level (hstored _ hreach)

variable (query) in
/-- A descent ends in an older point or in the new one. -/
lemma stored_descend_insert (hef : 0 < cfg.efConstruction) (h : Sound cfg G) {G' : Graph V δ}
    (hinsert : insert S cfg eval data fuel G originId level = some G') {entry : PointId}
    (hentry : G'.entryPoint = some entry) :
    G.Stored (G'.descend eval query entry.layer entry) ∨
      G'.descend eval query entry.layer entry = G.newId level := by
  obtain ⟨G₂, heq, -, hlinks, hpoints, hentry₂, -⟩ :=
    insert_eq S eval data fuel originId level hef h
  obtain rfl := heq G' hinsert
  have hsound := h.finish data originId hlinks hpoints hentry₂
  have hstored := descend_of_next hsound.links.mem eval query entry.layer
    (hsound.entry entry hentry).1
  rw [Stored, (checkEntryPoint_frame G₂ _).1, hpoints] at hstored
  exact (stored_addPoint data originId G level _).1 hstored

/-- A point that was inserted above layer zero is found right after it by those searches only whose
descent ends in it. -/
theorem search_misses_insert (hef : 0 < cfg.efConstruction) (h : Sound cfg G) (hlevel : level ≠ 0)
    {G' : Graph V δ} (hinsert : insert S cfg eval data fuel G originId level = some G')
    {entry : PointId} (hentry : G'.entryPoint = some entry) {query : V}
    (hpivot : G'.descend eval query entry.layer entry ≠ G.newId level)
    {fuel' knbn efArg : ℕ} {filter : Option (List ℕ)} {r : Neighbour PointId δ}
    (hr : r ∈ G'.search S.toHeaps eval query fuel' knbn efArg filter) : r.pId ≠ G.newId level := by
  unfold search at hr
  rw [hentry] at hr
  simp only at hr
  obtain ⟨p, hp, rfl⟩ := List.mem_map.1 hr
  have hpos : 0 < max efArg knbn := by
    by_contra hzero
    have : knbn = 0 := by omega
    rw [this, Nat.zero_min, List.take_zero] at hp
    cases hp
  have hitem := (S.perm_intoSortedVec _ _).mem_iff.1 (List.mem_of_mem_take hp)
  have hreach := (searchLayer_sound (S := S) eval query hpos fuel' _ 0 filter).2.1 p hitem
  have hstored := (stored_descend_insert query hef h hinsert hentry).resolve_right hpivot
  rintro rfl
  exact not_reach_insert hef h hlevel hinsert hstored hreach

/-- A graph of one point. -/
def onePoint : Graph ℕ ℕ := (Graph.empty.addPoint 0 0 0).checkEntryPoint ⟨0, 0⟩

lemma sound_onePoint : Sound smallConfig onePoint :=
  (sound_empty smallConfig).finish 0 0
    ((building_addPoint 0 0 (sound_empty smallConfig) 0).links.mono fun p hp =>
      (stored_addPoint 0 0 Graph.empty 0 p).2 (.inl hp)) rfl rfl

/-- The graph with a second point, in the layer above. -/
def twoPoints : Graph ℕ ℕ :=
  (insert listOrders smallConfig absDist 9 5 onePoint 1 1).getD Graph.empty

theorem search_misses_insert_twoPoints : twoPoints.Stored ⟨1, 0⟩ ∧
    ∀ r ∈ twoPoints.search listOrders.toHeaps absDist 1 5 2 2 none, r.pId ≠ ⟨1, 0⟩ := by
  refine ⟨List.mem_singleton.2 rfl, fun r hr => ?_⟩
  refine search_misses_insert (by decide) sound_onePoint one_ne_zero
    (show insert listOrders smallConfig absDist 9 5 onePoint 1 1 = some twoPoints from rfl)
    (show twoPoints.entryPoint = some ⟨1, 0⟩ from rfl) (by decide) hr

/-- A run begins with an insertion that adds the point and keeps the graph sound. -/
lemma exists_of_insertAll_cons (hef : 0 < cfg.efConstruction) (h : Sound cfg G) {x : V × ℕ × ℕ}
    {items : List (V × ℕ × ℕ)} {G' : Graph V δ}
    (hinsert : insertAll S cfg eval fuel G (x :: items) = some G') :
    ∃ G₁, Sound cfg G₁ ∧ G₁.pointsByLayer = (G.addPoint x.1 x.2.1 x.2.2).pointsByLayer ∧
      insertAll S cfg eval fuel G₁ items = some G' := by
  obtain ⟨G₂, heq, -, hlinks, hpoints, hentry, -⟩ := insert_eq S eval x.1 fuel x.2.1 x.2.2 hef h
  rw [insertAll, List.foldlM_cons] at hinsert
  obtain ⟨G₁, hG₁, hinsert⟩ := Option.bind_eq_some_iff.1 hinsert
  obtain rfl := heq G₁ hG₁
  refine ⟨_, h.finish x.1 x.2.1 hlinks hpoints hentry, ?_, hinsert⟩
  rw [(checkEntryPoint_frame G₂ _).1, hpoints]

/-- As long as all points are above layer zero, no search finds any of them. -/
theorem search_insertAll_eq_nil (hef : 0 < cfg.efConstruction) (h : Sound cfg G)
    (hG : G.pointsByLayer 0 = []) {items : List (V × ℕ × ℕ)} (hitems : ∀ x ∈ items, x.2.2 ≠ 0)
    {G' : Graph V δ} (hinsert : insertAll S cfg eval fuel G items = some G')
    (query : V) (fuel' knbn efArg : ℕ) (filter : Option (List ℕ)) :
    G'.search S.toHeaps eval query fuel' knbn efArg filter = [] := by
  have hempty : G'.pointsByLayer 0 = [] := by
    induction items generalizing G with
    | nil =>
      obtain rfl : G = G' := Option.some.inj hinsert
      exact hG
    | cons x items ih =>
      rw [List.forall_mem_cons] at hitems
      obtain ⟨G₁, hsound, hpoints, hinsert⟩ := exists_of_insertAll_cons hef h hinsert
      refine ih hsound ?_ hitems.2 hinsert
      rw [hpoints, pointsByLayer_addPoint, if_neg hitems.1.symm, hG]
  unfold search
  cases G'.entryPoint with
  | none => rfl
  | some entry =>
    have hfound : ∀ pivot ef, S.intoSortedVec _ (G'.searchLayer S.toHeaps eval query fuel' pivot ef
        0 filter) = [] := by
      intro pivot ef
      refine List.eq_nil_of_length_eq_zero ?_
      rw [(S.perm_intoSortedVec _ _).length_eq, searchLayer, if_pos (by simp [hempty]),
        Queue.items_empty, List.length_nil]
    simp [hfound]

/-- Three points in the two layers above layer zero. -/
def upperPoints : Graph ℕ ℕ :=
  (insertAll listOrders smallConfig absDist 5 Graph.empty
    [(9, 2, 1), (5, 1, 2), (7, 3, 1)]).getD Graph.empty

theorem search_insertAll_eq_nil_upperPoints :
    (upperPoints.next 1 ⟨1, 1⟩).length = 2 ∧
      upperPoints.search listOrders.toHeaps absDist 9 5 2 2 none = [] := by
  refine ⟨by decide, search_insertAll_eq_nil (by decide) (sound_empty smallConfig) rfl ?_
    (show insertAll listOrders smallConfig absDist 5 Graph.empty
      [(9, 2, 1), (5, 1, 2), (7, 3, 1)] = some upperPoints from rfl) 9 5 2 2 none⟩
  simp

/-- The points of a run of insertions. -/
lemma stored_insertAll (hef : 0 < cfg.efConstruction) (h : Sound cfg G) {nodes : Finset PointId}
    (hnodes : ∀ p, G.Stored p → p ∈ nodes) {items : List (V × ℕ × ℕ)} {G' : Graph V δ}
    (hinsert : insertAll S cfg eval fuel G items = some G') :
    Sound cfg G' ∧ (∃ nodes' : Finset PointId, (∀ p, G'.Stored p → p ∈ nodes') ∧
        nodes'.card ≤ nodes.card + items.length) ∧
      ∀ layer, G.pointsByLayer layer ≠ [] ∨ (∃ x ∈ items, x.2.2 = layer) →
        G'.pointsByLayer layer ≠ [] := by
  induction items generalizing G nodes with
  | nil =>
    obtain rfl : G = G' := Option.some.inj hinsert
    exact ⟨h, ⟨nodes, hnodes, le_rfl⟩, fun layer hlayer => hlayer.elim id (by simp)⟩
  | cons x items ih =>
    obtain ⟨G₁, hsound, hpoints, hinsert⟩ := exists_of_insertAll_cons hef h hinsert
    have hcover : ∀ p, G₁.Stored p → p ∈ Insert.insert (G.newId x.2.2) nodes := by
      intro p hp
      rw [Stored, hpoints] at hp
      rcases (stored_addPoint x.1 x.2.1 G x.2.2 p).1 hp with hp | rfl
      · exact Finset.mem_insert_of_mem (hnodes p hp)
      · exact Finset.mem_insert_self _ _
    obtain ⟨hsound', ⟨nodes', hnodes', hcard⟩, hlayers⟩ := ih hsound hcover hinsert
    refine ⟨hsound', ⟨nodes', hnodes', ?_⟩, fun layer hlayer => hlayers layer ?_⟩
    · have := Finset.card_insert_le (G.newId x.2.2) nodes
      rw [List.length_cons]
      omega
    · rw [hpoints, pointsByLayer_addPoint]
      by_cases hlevel : layer = x.2.2
      · left
        simp [hlevel]
      · rw [if_neg hlevel]
        simpa [Ne.symm hlevel] using hlayer

lemma stored_insertAll_empty [Inhabited V] (hef : 0 < cfg.efConstruction)
    {items : List (V × ℕ × ℕ)} (hinsert : insertAll S cfg eval fuel Graph.empty items = some G) :
    Sound cfg G ∧ (∃ nodes : Finset PointId, (∀ p, G.Stored p → p ∈ nodes) ∧
        nodes.card ≤ items.length) ∧ ∀ x ∈ items, G.pointsByLayer x.2.2 ≠ [] := by
  have hnone : ∀ p, (Graph.empty : Graph V δ).Stored p → p ∈ (∅ : Finset PointId) :=
    fun p hp => absurd hp List.not_mem_nil
  obtain ⟨hsound, ⟨nodes, hnodes, hcard⟩, hlayers⟩ :=
    stored_insertAll hef (sound_empty cfg) hnone hinsert
  rw [Finset.card_empty, Nat.zero_add] at hcard
  exact ⟨hsound, ⟨nodes, hnodes, hcard⟩, fun x hx => hlayers _ (.inr ⟨x, hx, rfl⟩)⟩

/-- Two points of layer zero. -/
def nearPoints : Graph ℕ ℕ :=
  (insertAll listOrders smallConfig absDist 5 Graph.empty [(0, 0, 0), (5, 1, 0)]).getD Graph.empty

end Insert

end Graph

end Hnsw

end BenoStreamDB

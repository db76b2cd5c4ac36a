import BenoStreamDB.Algorithms.SqlComponents

/-!
# Topological levels by queries

`algorithms/topological_sort.rs`. Every node starts on level 0, and each round puts a node one level
above the highest of its parents. When no level changed, the loop ends. The levels after `i` rounds
are the lengths of the longest walks to the nodes with at most `i` edges. After the last round the
loop ends as well, with no error: the levels then increase along all edges only if no walk has more
edges than there were rounds: `honestSort_iff`.

The tables are written to files in between, which is left out, and levels are not bounded.
-/

namespace BenoStreamDB

variable {α : Type} [LinearOrder α]

/-- Rows of `(id, level)`. -/
abbrev LevelTable (α : Type) := List (Option α × ℕ)

def initLevels (table : PairTable α) : LevelTable α :=
  (table.map Prod.fst ++ table.map Prod.snd).dedup.map fun id => (id, 0)

/-- The rows of the state with the levels of their parents, NULL for a row without a parent. -/
def parentLevels (table : PairTable α) (state : LevelTable α) :
    List ((Option α × ℕ) × Option ℕ) :=
  (NestedLoop.leftJoin
    (NestedLoop.leftJoin state table (fun c e => sqlEq c.1 e.2) (none, none))
    (state.map fun p => (p.1, some p.2)) (fun r p => sqlEq r.2.1 p.1) (none, none)).map
      fun r => (r.1.1, r.2.2)

/-- The levels of the parents in a group of `GROUP BY c.id, c.level`. -/
def groupLevels (table : PairTable α) (state : LevelTable α) (c : Option α × ℕ) : List ℕ :=
  ((parentLevels table state).filter fun r => r.1 = c).filterMap Prod.snd

/-- `COALESCE(MAX(parent.level) + 1, c.level)` -/
def newLevel (table : PairTable α) (state : LevelTable α) (c : Option α × ℕ) : ℕ :=
  (((groupLevels table state c).max?).map (· + 1)).getD c.2

def updateLevels (table : PairTable α) (state : LevelTable α) : LevelTable α :=
  ((parentLevels table state).map Prod.fst).dedup.map fun c => (c.1, newLevel table state c)

/-- The number of changed levels. -/
def levelChanges (next current : LevelTable α) : ℕ :=
  (NestedLoop.pairs (fun n c => sqlEq n.1 c.1 && n.2 != c.2) next current).length

def levelsLoop (table : PairTable α) : ℕ → LevelTable α → LevelTable α
  | 0, current => current
  | rounds + 1, current =>
    let next := updateLevels table current
    if levelChanges next current = 0 then next else levelsLoop table rounds next

/-- `compute_topological_sort`; only the queries and files, which are left out, can fail. -/
def computeTopologicalSort (table : PairTable α) (maxIterations : ℕ) :
    Except String (LevelTable α) :=
  .ok (levelsLoop table maxIterations (initLevels table))

/-! ### Walks -/

section Walks

omit [LinearOrder α]

/-- There is a walk of `k` edges to a node. -/
def WalkTo (E : α → α → Prop) : ℕ → α → Prop
  | 0, _ => True
  | k + 1, v => ∃ u, E u v ∧ WalkTo E k u

/-- A longer walk to a node ends with a shorter one. -/
lemma WalkTo.of_le {E : α → α → Prop} {j k : ℕ} {v : α} (h : WalkTo E k v) (hle : j ≤ k) :
    WalkTo E j v := by
  induction j generalizing k v with
  | zero => trivial
  | succ j ih =>
    obtain ⟨k, rfl⟩ := Nat.exists_eq_add_of_le' (Nat.one_le_of_lt hle)
    obtain ⟨u, huv, hu⟩ := h
    exact ⟨u, huv, ih hu (Nat.le_of_succ_le_succ hle)⟩

/-- Around a cycle there are walks of any length. -/
lemma walkTo_of_transGen {E : α → α → Prop} {v : α} (h : Relation.TransGen E v v) (k : ℕ) :
    WalkTo E k v := by
  have hext : ∀ {a b : α} {k : ℕ}, Relation.TransGen E a b → WalkTo E k a →
      WalkTo E (k + 1) b := by
    intro a b k hab ha
    induction hab with
    | single hab => exact ⟨a, hab, ha⟩
    | tail _ hbc ih => exact ⟨_, hbc, ih.of_le (Nat.le_succ k)⟩
  induction k with
  | zero => trivial
  | succ k ih => exact hext h ih

end Walks

/-! ### Tables and functions -/

/-- The table holds the levels of the nodes `V`, and perhaps a row for NULL. -/
structure HoldsLevels (V : Finset α) (level : α → ℕ) (state : LevelTable α) : Prop where
  mem : ∀ v ∈ V, (some v, level v) ∈ state
  eq : ∀ r ∈ state, r = (none, 0) ∨ ∃ v ∈ V, r = (some v, level v)

variable {table : PairTable α} {V : Finset α} {E : α → α → Prop} {level : α → ℕ}
  {state : LevelTable α}

omit [LinearOrder α] in
lemma HoldsLevels.mem_iff (h : HoldsLevels V level state) {v : α} {k : ℕ} :
    (some v, k) ∈ state ↔ v ∈ V ∧ k = level v := by
  refine ⟨fun hmem => ?_, ?_⟩
  · rcases h.eq _ hmem with heq | ⟨u, hu, heq⟩
    · simp at heq
    · obtain ⟨hvu, rfl⟩ := Prod.mk.inj heq
      obtain rfl := Option.some.inj hvu
      exact ⟨hu, rfl⟩
  · rintro ⟨hv, rfl⟩
    exact h.mem v hv

lemma holdsLevels_initLevels (table : PairTable α) :
    HoldsLevels (tableNodes table) (fun _ => 0) (initLevels table) := by
  refine ⟨fun v hv => ?_, fun r hr => ?_⟩
  · exact List.mem_map.2 ⟨some v, List.mem_dedup.2 (mem_tableNodes.1 hv), rfl⟩
  · obtain ⟨a, ha, rfl⟩ := List.mem_map.1 hr
    cases a with
    | none => exact .inl rfl
    | some v => exact .inr ⟨v, mem_tableNodes.2 (List.mem_dedup.1 ha), rfl⟩

/-! ### One round -/

lemma mem_parentLevels {c : Option α × ℕ} {p : Option ℕ} :
    (c, p) ∈ parentLevels table state ↔ ∃ e : Option α × Option α,
      (c ∈ state ∧ (e ∈ table ∧ sqlEq c.1 e.2 = true ∨
        e = (none, none) ∧ ∀ e ∈ table, sqlEq c.1 e.2 = false)) ∧
      ((∃ q ∈ state, p = some q.2 ∧ sqlEq e.1 q.1 = true) ∨
        p = none ∧ ∀ q ∈ state, sqlEq e.1 q.1 = false) := by
  simp only [parentLevels, List.mem_map, NestedLoop.mem_leftJoin]
  constructor
  · rintro ⟨⟨⟨c', e⟩, id, p'⟩, ⟨hleft, hright⟩, heq⟩
    obtain ⟨rfl, rfl⟩ := Prod.mk.inj heq
    refine ⟨e, hleft, ?_⟩
    rcases hright with ⟨⟨q, hq, hp⟩, hon⟩ | ⟨hp, hnone⟩
    · obtain ⟨rfl, rfl⟩ := Prod.mk.inj hp
      exact .inl ⟨q, hq, rfl, hon⟩
    · obtain ⟨-, rfl⟩ := Prod.mk.inj hp
      exact .inr ⟨rfl, fun q hq => hnone _ ⟨q, hq, rfl⟩⟩
  · rintro ⟨e, hleft, ⟨q, hq, rfl, hon⟩ | ⟨rfl, hnone⟩⟩
    · exact ⟨((c, e), q.1, some q.2), ⟨hleft, .inl ⟨⟨q, hq, rfl⟩, hon⟩⟩, rfl⟩
    · refine ⟨((c, e), none, none), ⟨hleft, .inr ⟨rfl, ?_⟩⟩, rfl⟩
      rintro _ ⟨q, hq, rfl⟩
      exact hnone q hq

/-- Every row of the state is there, with a parent or without. -/
lemma mem_map_fst_parentLevels {c : Option α × ℕ} :
    c ∈ (parentLevels table state).map Prod.fst ↔ c ∈ state := by
  constructor
  · intro h
    obtain ⟨⟨c, p⟩, hmem, rfl⟩ := List.mem_map.1 h
    obtain ⟨e, hleft, -⟩ := mem_parentLevels.1 hmem
    exact hleft.1
  · intro hc
    obtain ⟨e, he⟩ := NestedLoop.exists_mem_leftJoin hc table (fun c e => sqlEq c.1 e.2)
      (none, none)
    obtain ⟨q, hq⟩ := NestedLoop.exists_mem_leftJoin he (state.map fun p => (p.1, some p.2))
      (fun r p => sqlEq r.2.1 p.1) (none, none)
    exact List.mem_map.2 ⟨_, List.mem_map_of_mem hq, rfl⟩

lemma some_mem_parentLevels {c : Option α × ℕ} {k : ℕ} :
    (c, some k) ∈ parentLevels table state ↔ c ∈ state ∧
      ∃ u v, TableEdge table u v ∧ c.1 = some v ∧ (some u, k) ∈ state := by
  rw [mem_parentLevels]
  constructor
  · rintro ⟨e, ⟨hc, hleft⟩, ⟨q, hq, hk, hon⟩ | ⟨hk, -⟩⟩
    · obtain ⟨u, heu, hqu⟩ := sqlEq_iff.1 hon
      rcases hleft with ⟨he, hcv⟩ | ⟨rfl, -⟩
      · obtain ⟨v, hv, hev⟩ := sqlEq_iff.1 hcv
        obtain rfl : e = (some u, some v) := Prod.ext heu hev
        obtain rfl := Option.some.inj hk
        exact ⟨hc, u, v, he, hv, hqu ▸ hq⟩
      · cases heu
    · cases hk
  · rintro ⟨hc, u, v, huv, hcv, hu⟩
    exact ⟨(some u, some v), ⟨hc, .inl ⟨huv, sqlEq_iff.2 ⟨v, hcv, rfl⟩⟩⟩,
      .inl ⟨(some u, k), hu, rfl, sqlEq_iff.2 ⟨u, rfl, rfl⟩⟩⟩

/-- The new level of a node is one above its highest parent. -/
structure IsUpdate (E : α → α → Prop) (V : Finset α) (level level' : α → ℕ) : Prop where
  lt : ∀ u v, E u v → level u < level' v
  eq : ∀ v ∈ V, (∃ u, E u v ∧ level' v = level u + 1) ∨
    (∀ u, ¬ E u v) ∧ level' v = level v

lemma mem_groupLevels {c : Option α × ℕ} {k : ℕ} : k ∈ groupLevels table state c ↔
    c ∈ state ∧ ∃ u v, TableEdge table u v ∧ c.1 = some v ∧ (some u, k) ∈ state := by
  simp [groupLevels, ← some_mem_parentLevels]

lemma mem_updateLevels {r : Option α × ℕ} :
    r ∈ updateLevels table state ↔ ∃ c ∈ state, r = (c.1, newLevel table state c) := by
  rw [updateLevels, List.mem_map]
  simp only [List.mem_dedup, mem_map_fst_parentLevels, eq_comm]

/-- The new level of a row is one above the highest level in its group. -/
lemma newLevel_cases (table : PairTable α) (state : LevelTable α) (c : Option α × ℕ) :
    (∃ k ∈ groupLevels table state c, newLevel table state c = k + 1 ∧
      ∀ j ∈ groupLevels table state c, j ≤ k) ∨
    groupLevels table state c = [] ∧ newLevel table state c = c.2 := by
  rw [newLevel]
  cases hmax : (groupLevels table state c).max? with
  | none => exact .inr ⟨List.max?_eq_none_iff.1 hmax, rfl⟩
  | some k =>
    obtain ⟨hmem, hle⟩ := List.max?_eq_some_iff.1 hmax
    exact .inl ⟨k, hmem, rfl, hle⟩

/-- A round updates the levels. -/
lemma HoldsLevels.update (hs : HoldsLevels V level state)
    (hV : ∀ u v, TableEdge table u v → u ∈ V ∧ v ∈ V) :
    HoldsLevels V (fun v => newLevel table state (some v, level v)) (updateLevels table state) ∧
      IsUpdate (TableEdge table) V level fun v => newLevel table state (some v, level v) := by
  have hgroup : ∀ v ∈ V, ∀ k, k ∈ groupLevels table state (some v, level v) ↔
      ∃ u, TableEdge table u v ∧ k = level u := by
    intro v hv k
    rw [mem_groupLevels]
    constructor
    · rintro ⟨-, u, w, huw, hw, hu⟩
      obtain rfl := Option.some.inj hw
      exact ⟨u, huw, (hs.mem_iff.1 hu).2⟩
    · rintro ⟨u, huv, rfl⟩
      exact ⟨hs.mem v hv, u, v, huv, rfl, hs.mem u (hV u v huv).1⟩
  refine ⟨⟨fun v hv => mem_updateLevels.2 ⟨_, hs.mem v hv, rfl⟩, fun r hr => ?_⟩,
    ⟨fun u v huv => ?_, fun v hv => ?_⟩⟩
  · obtain ⟨c, hc, rfl⟩ := mem_updateLevels.1 hr
    rcases hs.eq c hc with rfl | ⟨v, hv, rfl⟩
    · refine .inl (congrArg (Prod.mk none) ?_)
      rcases newLevel_cases table state (none, 0) with ⟨k, hk, -⟩ | ⟨-, h⟩
      · obtain ⟨-, u, v, -, hv, -⟩ := mem_groupLevels.1 hk
        cases hv
      · exact h
    · exact .inr ⟨v, hv, rfl⟩
  · have hv := (hV u v huv).2
    have hu := (hgroup v hv (level u)).2 ⟨u, huv, rfl⟩
    rcases newLevel_cases table state (some v, level v) with ⟨k, -, heq, hle⟩ | ⟨hnil, -⟩
    · rw [heq]
      exact Nat.lt_succ_of_le (hle _ hu)
    · rw [hnil] at hu
      exact absurd hu List.not_mem_nil
  · rcases newLevel_cases table state (some v, level v) with ⟨k, hk, heq, -⟩ | ⟨hnil, heq⟩
    · obtain ⟨u, huv, rfl⟩ := (hgroup v hv k).1 hk
      exact .inl ⟨u, huv, heq⟩
    · refine .inr ⟨fun u huv => ?_, heq⟩
      have hu := (hgroup v hv (level u)).2 ⟨u, huv, rfl⟩
      rw [hnil] at hu
      exact absurd hu List.not_mem_nil

lemma HoldsLevels.eq_of_levelChanges {level' : α → ℕ} {next : LevelTable α}
    (hs : HoldsLevels V level state) (hnext : HoldsLevels V level' next)
    (h : levelChanges next state = 0) : ∀ v ∈ V, level' v = level v := by
  intro v hv
  rw [levelChanges, List.length_eq_zero_iff, NestedLoop.pairs_eq_nil_iff] at h
  have hpair := h _ (hnext.mem v hv) _ (hs.mem v hv)
  have hid : sqlEq (some v) (some v) = true := sqlEq_iff.2 ⟨v, rfl, rfl⟩
  rw [hid, Bool.true_and] at hpair
  simpa using hpair

/-! ### Runs -/

/-- After `i` rounds a level is the length of a longest walk with at most `i` edges. -/
structure LevelsAfter (E : α → α → Prop) (V : Finset α) (i : ℕ) (level : α → ℕ) : Prop where
  le : ∀ v ∈ V, level v ≤ i
  walk : ∀ v ∈ V, WalkTo E (level v) v
  longest : ∀ v ∈ V, ∀ k ≤ i, WalkTo E k v → k ≤ level v

/-- The levels increase along the edges. -/
def Increasing (E : α → α → Prop) (level : α → ℕ) : Prop := ∀ u v, E u v → level u < level v

section Rounds

omit [LinearOrder α]

lemma levelsAfter_zero (E : α → α → Prop) (V : Finset α) : LevelsAfter E V 0 fun _ => 0 where
  le _ _ := le_rfl
  walk _ _ := trivial
  longest _ _ _ hk _ := hk

lemma LevelsAfter.update {i : ℕ} {level' : α → ℕ} (h : LevelsAfter E V i level)
    (hupdate : IsUpdate E V level level') (hV : ∀ u v, E u v → u ∈ V ∧ v ∈ V) :
    LevelsAfter E V (i + 1) level' where
  le v hv := by
    rcases hupdate.eq v hv with ⟨u, huv, heq⟩ | ⟨-, heq⟩
    · rw [heq]
      exact Nat.succ_le_succ (h.le u (hV u v huv).1)
    · rw [heq]
      exact (h.le v hv).trans (Nat.le_succ i)
  walk v hv := by
    rcases hupdate.eq v hv with ⟨u, huv, heq⟩ | ⟨-, heq⟩
    · rw [heq]
      exact ⟨u, huv, h.walk u (hV u v huv).1⟩
    · rw [heq]
      exact h.walk v hv
  longest v hv k hk hwalk := by
    cases k with
    | zero => exact Nat.zero_le _
    | succ k =>
      obtain ⟨u, huv, hu⟩ := hwalk
      have hle := h.longest u (hV u v huv).1 k (Nat.le_of_succ_le_succ hk) hu
      exact Nat.succ_le_of_lt (lt_of_le_of_lt hle (hupdate.lt u v huv))

/-- Without longer walks, the levels of the last round are right. -/
lemma LevelsAfter.increasing {n : ℕ} (h : LevelsAfter E V n level)
    (hV : ∀ u v, E u v → u ∈ V ∧ v ∈ V) (hshort : ∀ v, ¬ WalkTo E (n + 1) v) :
    Increasing E level := by
  intro u v huv
  have hwalk : WalkTo E (level u + 1) v := ⟨u, huv, h.walk u (hV u v huv).1⟩
  have hlt : level u < n := by
    refine lt_of_le_of_ne (h.le u (hV u v huv).1) fun heq => hshort v ?_
    rwa [heq] at hwalk
  exact h.longest v (hV u v huv).2 (level u + 1) hlt hwalk

end Rounds

/-- The loop ends with levels that increase along the edges, or after the last round. -/
lemma exists_levelsLoop (hV : ∀ u v, TableEdge table u v → u ∈ V ∧ v ∈ V) (rounds : ℕ) {i : ℕ}
    (hs : HoldsLevels V level state) (h : LevelsAfter (TableEdge table) V i level) :
    ∃ level', HoldsLevels V level' (levelsLoop table rounds state) ∧
      (Increasing (TableEdge table) level' ∨
        LevelsAfter (TableEdge table) V (i + rounds) level') := by
  induction rounds generalizing i level state with
  | zero => exact ⟨level, hs, .inr h⟩
  | succ rounds ih =>
    obtain ⟨hnext, hupdate⟩ := hs.update hV
    simp only [levelsLoop]
    split_ifs with hchanges
    · have hsame := hs.eq_of_levelChanges hnext hchanges
      refine ⟨_, hnext, .inl fun u v huv => ?_⟩
      exact (hsame u (hV u v huv).1).trans_lt (hupdate.lt u v huv)
    · obtain ⟨level', hfinal, hend⟩ := ih hnext (h.update hupdate hV)
      rw [Nat.add_right_comm, Nat.add_assoc] at hend
      exact ⟨level', hfinal, hend⟩

/-! ### The result -/

/-- Every node has a level, and levels increase along the edges. -/
def Levelled (table : PairTable α) (levels : LevelTable α) : Prop :=
  (∀ v ∈ tableNodes table, ∃ k, (some v, k) ∈ levels) ∧
    ∀ u v, TableEdge table u v → ∀ j k, (some u, j) ∈ levels → (some v, k) ∈ levels → j < k

/-- There is a walk of more edges than there are rounds, as there is if there is a cycle. -/
def NeedsMore (table : PairTable α) (maxIterations : ℕ) : Prop :=
  ∃ v, WalkTo (TableEdge table) (maxIterations + 1) v

/-- The sort returns levels that increase along the edges, and an error if there are none or the
rounds do not suffice. -/
def HonestSort (table : PairTable α) (maxIterations : ℕ) : Prop :=
  (∀ levels, computeTopologicalSort table maxIterations = .ok levels → Levelled table levels) ∧
    ((∃ v, Relation.TransGen (TableEdge table) v v) ∨ NeedsMore table maxIterations →
      ∃ e, computeTopologicalSort table maxIterations = .error e)

/-- The sort is honest exactly if the table has no walk of more edges than there are rounds. -/
theorem honestSort_iff (table : PairTable α) (maxIterations : ℕ) :
    HonestSort table maxIterations ↔ ¬ NeedsMore table maxIterations := by
  constructor
  · rintro ⟨-, herror⟩ hmore
    obtain ⟨e, he⟩ := herror (.inr hmore)
    cases he
  · intro hshort
    refine ⟨fun levels hlevels => ?_, ?_⟩
    · obtain rfl := Except.ok.inj hlevels
      obtain ⟨level, hs, hend⟩ := exists_levelsLoop (fun _ _ h => TableEdge.mem h) maxIterations
        (holdsLevels_initLevels table) (levelsAfter_zero _ _)
      rw [Nat.zero_add] at hend
      have hincreasing := hend.elim id fun h =>
        h.increasing (fun _ _ h => TableEdge.mem h) fun v hv => hshort ⟨v, hv⟩
      refine ⟨fun v hv => ⟨level v, hs.mem v hv⟩, fun u v huv j k hj hk => ?_⟩
      rw [(hs.mem_iff.1 hj).2, (hs.mem_iff.1 hk).2]
      exact hincreasing u v huv
    · rintro (⟨v, hcycle⟩ | hmore)
      · exact absurd ⟨v, walkTo_of_transGen hcycle _⟩ hshort
      · exact absurd hmore hshort

/-- With no round an edge gets equal levels, and a loop gets a level as well. -/
theorem not_honestSort_oneEdge : ¬ HonestSort [(some 1, some 2)] 0 ∧
    computeTopologicalSort [(some 1, some 1)] 3 = .ok [(some 1, 3)] := by
  refine ⟨fun h => ?_, by decide⟩
  have hlevels : computeTopologicalSort [(some 1, some 2)] 0 =
      .ok [(some 1, 0), (some 2, 0)] := by decide
  exact absurd ((h.1 _ hlevels).2 1 2 List.mem_cons_self 0 0 (by decide) (by decide)) (by decide)

end BenoStreamDB

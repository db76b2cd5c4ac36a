import BenoStreamDB.Algorithms.Communities

/-!
# Seeded communities

The first loop of `partition` in `algorithms/communities.rs`. Nodes with a seed start in the
community of that id, the others get fresh ids above all ids so far. A later node can have a fresh
id as its seed, so the seeds are respected only if no seed comes after the fresh id that is equal
to it: `CsrAdj.respectsSeeds_iff`.
-/

namespace BenoStreamDB

/-- The community ids of a seed partition. -/
abbrev SeedId := Fin (2 ^ 32)

/-- One node: the ids so far and `next_id`; `none` is an overflow of `next_id`. -/
def assignStart (st : List ℕ × ℕ) : Option SeedId → Option (List ℕ × ℕ)
  | some c => some (st.1 ++ [c.val], max st.2 (min (c.val + 1) (2 ^ 32 - 1)))
  | none => if st.2 + 1 < 2 ^ 32 then some (st.1 ++ [st.2], st.2 + 1) else none

/-- The initial assignment for the seeds of the nodes, with the next fresh id. -/
def warmStart (seeds : List (Option SeedId)) : Option (List ℕ × ℕ) :=
  seeds.foldlM assignStart ([], 0)

/-- The initial assignment of `partition`; without a seed partition every node has its number. -/
def CsrAdj.initialCommunity (adj : CsrAdj) :
    Option (ℕ → Option SeedId) → Option (List ℕ × ℕ)
  | some seed => warmStart (adj.originals.map seed)
  | none => some ((List.range adj.originals.length).map (· % 2 ^ 32),
      adj.originals.length % 2 ^ 32)

/-! ### Fresh ids -/

/-- The id that a node without a seed gets after the nodes with the given seeds: each node before it
takes at least one id, and the nodes without a seed after that one take one more each. -/
def freshId : List (Option SeedId) → ℕ
  | [] => 0
  | some c :: rest => max (c.val + 1 + rest.count none) (freshId rest)
  | none :: rest => max (1 + rest.count none) (freshId rest)

/-- The id of a node in the initial assignment. -/
def startId (seeds : List (Option SeedId)) (i : ℕ) : ℕ :=
  (seeds[i]?.join.map Fin.val).getD (freshId (seeds.take i))

lemma freshId_concat_none (seeds : List (Option SeedId)) :
    freshId (seeds ++ [none]) = freshId seeds + 1 := by
  induction seeds with
  | nil => rfl
  | cons s seeds ih =>
    have hcount : (seeds ++ [none]).count none = seeds.count none + 1 := by simp
    cases s <;> simp only [List.cons_append, freshId, ih, hcount] <;> omega

lemma freshId_concat_some (seeds : List (Option SeedId)) (c : SeedId) :
    freshId (seeds ++ [some c]) = max (freshId seeds) (c.val + 1) := by
  induction seeds with
  | nil => simp [freshId]
  | cons s seeds ih =>
    have hcount : (seeds ++ [some c]).count none = seeds.count none := by simp
    cases s <;> simp only [List.cons_append, freshId, ih, hcount, max_assoc]

lemma freshId_le_append (seeds rest : List (Option SeedId)) :
    freshId seeds ≤ freshId (seeds ++ rest) := by
  induction rest using List.reverseRecOn with
  | nil => simp
  | append_singleton rest s ih =>
    rw [← List.append_assoc]
    refine ih.trans ?_
    cases s with
    | none => exact (freshId_concat_none _).ge.trans' (Nat.le_succ _)
    | some c => exact (freshId_concat_some _ c).ge.trans' (le_max_left _ _)

section Positions

variable {seeds : List (Option SeedId)} {i j : ℕ}

lemma startId_of_some {c : SeedId} (h : seeds[i]? = some (some c)) : startId seeds i = c.val := by
  simp [startId, h]

lemma startId_of_none (h : seeds[i]? = some none) :
    startId seeds i = freshId (seeds.take i) := by
  simp [startId, h]

lemma startId_append (hi : i < seeds.length) (rest : List (Option SeedId)) :
    startId (seeds ++ rest) i = startId seeds i := by
  rw [startId, List.getElem?_append_left hi, List.take_append_of_le_length hi.le, startId]

lemma freshId_take_mono (h : i ≤ j) : freshId (seeds.take i) ≤ freshId (seeds.take j) := by
  obtain ⟨k, rfl⟩ := Nat.exists_eq_add_of_le h
  rw [List.take_add]
  exact freshId_le_append _ _

/-- What is taken by a node is below the fresh ids after it. -/
lemma startId_lt_freshId (hi : i < seeds.length) (hij : i < j) :
    startId seeds i < freshId (seeds.take j) := by
  refine lt_of_lt_of_le ?_ (freshId_take_mono hij)
  have hget := List.getElem?_eq_getElem hi
  rw [List.take_add_one, hget]
  cases hs : seeds[i] with
  | none =>
    rw [startId_of_none (hget.trans (congrArg some hs)), Option.toList_some, freshId_concat_none]
    exact Nat.lt_succ_self _
  | some c =>
    rw [startId_of_some (hget.trans (congrArg some hs)), Option.toList_some, freshId_concat_some]
    exact lt_of_lt_of_le (Nat.lt_succ_self _) (le_max_right _ _)

end Positions

/-! ### The loop -/

/-- The fresh ids fit. -/
def FreshIdsFit (seeds : List (Option SeedId)) : Prop :=
  ∀ i, seeds[i]? = some none → freshId (seeds.take i) + 1 < 2 ^ 32

lemma freshIdsFit_concat_iff {seeds : List (Option SeedId)} {s : Option SeedId} :
    FreshIdsFit (seeds ++ [s]) ↔
      FreshIdsFit seeds ∧ (s = none → freshId seeds + 1 < 2 ^ 32) := by
  constructor
  · intro h
    refine ⟨fun i hi => ?_, fun hs => ?_⟩
    · have hlt := (List.getElem?_eq_some_iff.1 hi).1
      have hfit := h i (by rwa [List.getElem?_append_left hlt])
      rwa [List.take_append_of_le_length hlt.le] at hfit
    · simpa using h seeds.length (by simp [hs])
  · rintro ⟨hfit, hlast⟩ i hi
    rcases Nat.lt_trichotomy i seeds.length with hlt | rfl | hgt
    · rw [List.getElem?_append_left hlt] at hi
      rw [List.take_append_of_le_length hlt.le]
      exact hfit i hi
    · simpa using hlast (by simpa using hi)
    · have hnone : (seeds ++ [s])[i]? = none := List.getElem?_eq_none (by simp; omega)
      rw [hnone] at hi
      cases hi

/-- The loop gives the ids, unless a fresh id does not fit. -/
lemma warmStart_eq (seeds : List (Option SeedId)) :
    (FreshIdsFit seeds → warmStart seeds = some ((List.range seeds.length).map (startId seeds),
        min (freshId seeds) (2 ^ 32 - 1))) ∧
      (¬ FreshIdsFit seeds → warmStart seeds = none) := by
  induction seeds using List.reverseRecOn with
  | nil => exact ⟨fun _ => rfl, fun h => absurd (fun i hi => by simp at hi) h⟩
  | append_singleton seeds s ih =>
    have hstep : warmStart (seeds ++ [s]) = (warmStart seeds).bind (assignStart · s) := by
      rw [warmStart, List.foldlM_append]
      simp [warmStart]
    have hids : (List.range seeds.length).map (startId (seeds ++ [s])) =
        (List.range seeds.length).map (startId seeds) :=
      List.map_congr_left fun i hi => startId_append (List.mem_range.1 hi) [s]
    rw [hstep, freshIdsFit_concat_iff, List.length_append, List.length_singleton, List.range_succ,
      List.map_append, hids]
    by_cases hfit : FreshIdsFit seeds
    · rw [ih.1 hfit, Option.bind_some]
      cases s with
      | none =>
        have hstart : startId (seeds ++ [none]) seeds.length = freshId seeds := by simp [startId]
        rw [List.map_singleton, hstart, freshId_concat_none, assignStart]
        split_ifs with hlt
        · refine ⟨fun _ => ?_, fun h => absurd ⟨hfit, fun _ => by omega⟩ h⟩
          rw [min_eq_left (by omega), min_eq_left (by omega)]
        · exact ⟨fun h => absurd (h.2 rfl) (by omega), fun _ => rfl⟩
      | some c =>
        have hstart : startId (seeds ++ [some c]) seeds.length = c.val := by simp [startId]
        rw [List.map_singleton, hstart, freshId_concat_some, assignStart]
        refine ⟨fun _ => ?_, fun h => absurd ⟨hfit, by simp⟩ h⟩
        rw [min_max_distrib_right]
    · rw [ih.2 hfit]
      exact ⟨fun h => absurd h.1 hfit, fun _ => rfl⟩

/-! ### Shared ids -/

/-- No seed is equal to a fresh id that was given out before it, and the fresh ids fit. -/
def SeedsApart (seeds : List (Option SeedId)) : Prop :=
  FreshIdsFit seeds ∧ ∀ i j c, i < j → seeds[i]? = some none → seeds[j]? = some (some c) →
    c.val ≠ freshId (seeds.take i)

/-- Two nodes share an id exactly if both have it as their seed. -/
def SharesSeeds (seeds : List (Option SeedId)) (ids : List ℕ) : Prop :=
  ids.length = seeds.length ∧ ∀ i j, i < j → j < seeds.length → (ids[i]? = ids[j]? ↔
    ∃ c, seeds[i]? = some (some c) ∧ seeds[j]? = some (some c) ∧ ids[i]? = some c.val)

/-- Only a seed after a fresh id can be equal to it by accident. -/
lemma startId_eq_iff {seeds : List (Option SeedId)} {i j : ℕ} (hij : i < j)
    (hj : j < seeds.length) : startId seeds i = startId seeds j ↔
      (∃ c, seeds[i]? = some (some c) ∧ seeds[j]? = some (some c)) ∨
      ∃ c, seeds[i]? = some none ∧ seeds[j]? = some (some c) ∧
        c.val = freshId (seeds.take i) := by
  have hi := hij.trans hj
  obtain ⟨s, hs⟩ : ∃ s, seeds[i]? = some s := ⟨_, List.getElem?_eq_getElem hi⟩
  obtain ⟨r, hr⟩ : ∃ r, seeds[j]? = some r := ⟨_, List.getElem?_eq_getElem hj⟩
  cases r with
  | none =>
    have hlt := startId_lt_freshId hi hij
    rw [startId_of_none hr]
    simp [hr, hlt.ne]
  | some d =>
    rw [startId_of_some hr]
    cases s with
    | none =>
      rw [startId_of_none hs]
      simp [hs, hr, eq_comm]
    | some c =>
      rw [startId_of_some hs]
      simp [hs, hr, Fin.val_inj, eq_comm]

lemma sharesSeeds_iff (seeds : List (Option SeedId)) :
    SharesSeeds seeds ((List.range seeds.length).map (startId seeds)) ↔
      ∀ i j c, i < j → seeds[i]? = some none → seeds[j]? = some (some c) →
        c.val ≠ freshId (seeds.take i) := by
  have hget : ∀ i < seeds.length,
      ((List.range seeds.length).map (startId seeds))[i]? = some (startId seeds i) := by
    intro i hi
    simp [List.getElem?_range hi]
  constructor
  · rintro ⟨-, hshare⟩ i j c hij hi hj heq
    have hlt := (List.getElem?_eq_some_iff.1 hj).1
    have hsame := (startId_eq_iff hij hlt).2 (.inr ⟨c, hi, hj, heq⟩)
    obtain ⟨d, hd, -⟩ := (hshare i j hij hlt).1
      (by rw [hget i (hij.trans hlt), hget j hlt, hsame])
    rw [hi] at hd
    cases Option.some.inj hd
  · intro h
    refine ⟨by simp, fun i j hij hj => ?_⟩
    rw [hget i (hij.trans hj), hget j hj, Option.some_inj, startId_eq_iff hij hj]
    constructor
    · rintro (⟨c, hi, hj⟩ | ⟨c, hi, hj, heq⟩)
      · exact ⟨c, hi, hj, by rw [startId_of_some hi]⟩
      · exact absurd heq (h i j c hij hi hj)
    · rintro ⟨c, hi, hj, -⟩
      exact .inl ⟨c, hi, hj⟩

namespace CsrAdj

variable (adj : CsrAdj)

/-- The seed partition as a list, in the order of the nodes. -/
def seedList (seed : Option (ℕ → Option SeedId)) : List (Option SeedId) :=
  adj.originals.map fun id => seed.bind (· id)

/-- The initial assignment respects the seed partition. -/
def RespectsSeeds (seed : Option (ℕ → Option SeedId)) : Prop :=
  ∃ ids nextId, adj.initialCommunity seed = some (ids, nextId) ∧
    SharesSeeds (adj.seedList seed) ids

/-- Seeds are not equal to earlier fresh ids, or without seeds the numbers of the nodes fit. -/
def StartsApart (seed : Option (ℕ → Option SeedId)) : Prop :=
  if seed.isSome then SeedsApart (adj.seedList seed) else adj.originals.length ≤ 2 ^ 32

/-- The numbers of the nodes are distinct ids as long as they fit. -/
lemma respectsSeeds_none_iff : adj.RespectsSeeds none ↔ adj.StartsApart none := by
  have hlist : ∀ (i : ℕ) (c : SeedId), (adj.seedList none)[i]? ≠ some (some c) := by
    intro i c h
    have hmem := List.mem_of_getElem? h
    simp [seedList] at hmem
  have hlength : (adj.seedList none).length = adj.originals.length := by simp [seedList]
  have hget : ∀ i < adj.originals.length,
      ((List.range adj.originals.length).map (· % 2 ^ 32))[i]? = some (i % 2 ^ 32) := by
    intro i hi
    simp [List.getElem?_range hi]
  simp only [StartsApart, Option.isSome_none, Bool.false_eq_true, if_false]
  constructor
  · rintro ⟨ids, nextId, heq, hshare⟩
    obtain ⟨rfl, -⟩ := Prod.mk.inj (Option.some.inj heq)
    by_contra hlt
    have hwrap := hshare.2 0 (2 ^ 32) (by omega) (by omega)
    rw [hget 0 (by omega), hget (2 ^ 32) (by omega), Nat.mod_self, Nat.zero_mod] at hwrap
    obtain ⟨c, hc, -⟩ := hwrap.1 rfl
    exact hlist 0 c hc
  · intro hle
    refine ⟨_, _, rfl, by simp [hlength], fun i j hij hj => ⟨fun h => ?_, ?_⟩⟩
    · rw [hget i (by omega), hget j (by omega), Option.some_inj] at h
      omega
    · rintro ⟨c, hc, -⟩
      exact absurd hc (hlist i c)

/-- The initial assignment respects the seed partition exactly if no node has a seed that was given
to a node without a seed before it, and the ids fit. -/
theorem respectsSeeds_iff (seed : Option (ℕ → Option SeedId)) :
    adj.RespectsSeeds seed ↔ adj.StartsApart seed := by
  cases seed with
  | none => exact adj.respectsSeeds_none_iff
  | some seed =>
    obtain ⟨hfit, hover⟩ := warmStart_eq (adj.originals.map seed)
    have hlist : adj.seedList (some seed) = adj.originals.map seed := rfl
    simp only [StartsApart, Option.isSome_some, if_true, RespectsSeeds, initialCommunity, hlist,
      SeedsApart]
    constructor
    · rintro ⟨ids, nextId, heq, hshare⟩
      by_cases h : FreshIdsFit (adj.originals.map seed)
      · rw [hfit h] at heq
        cases heq
        exact ⟨h, (sharesSeeds_iff _).1 hshare⟩
      · rw [hover h] at heq
        cases heq
    · rintro ⟨h, hapart⟩
      exact ⟨_, _, hfit h, (sharesSeeds_iff _).2 hapart⟩

/-- Node 1 has no seed and gets the id 0, which is the seed of node 2. -/
theorem not_respectsSeeds_twoPieces :
    ¬ twoPieces.RespectsSeeds (some fun id => if id = 2 then some 0 else none) := by
  rintro ⟨ids, nextId, heq, -, hshare⟩
  have hstart : twoPieces.initialCommunity (some fun id => if id = 2 then some 0 else none) =
      some ([0, 0, 1], 2) := by decide
  obtain ⟨rfl, -⟩ := Prod.mk.inj (Option.some.inj (heq.symm.trans hstart))
  obtain ⟨c, hc, -⟩ := (hshare 0 1 (by decide) (by decide)).1 rfl
  exact absurd hc (by simp [seedList, twoPieces])

end CsrAdj

end BenoStreamDB

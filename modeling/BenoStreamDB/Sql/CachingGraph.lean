import BenoStreamDB.Foundations.Interleaving
import BenoStreamDB.Sql.GraphView
import Mathlib.Data.Finmap

/-!
# The cache of neighbours

`CachingGraph` of `graph_view.rs` keeps lists of neighbours up to a budget of bytes. A lookup that
misses reads the backing graph outside the lock, and takes the lock again to evict old entries and
insert its own.

Every lookup returns the neighbours of the backing graph. Two lookups of one node that both miss
insert it twice: its bytes are counted twice, and what is counted is not what is kept. A list that
is larger than the budget is kept as well. Where every insertion is of a node that is not there
after the eviction and of a list that fits, the count is exact and within the budget:
`cachingGraph_of_insertsFit`.

Counts of bytes do not reach `2 ^ 64`.
-/

namespace BenoStreamDB

open Interleaving

def neighborBytes (len : ℕ) : ℕ := min (len * 8 + 24) (2 ^ 64 - 1)

abbrev NeighborMap := Finmap fun _ : ℕ => List ℕ

structure CacheState where
  map : NeighborMap
  order : List ℕ
  usedBytes : ℕ

/-- The sizes of the cached lists. -/
def cachedBytes (map : NeighborMap) : ℕ :=
  (map.entries.map fun e => neighborBytes e.2.length).sum

namespace CacheState

def new : CacheState := ⟨∅, [], 0⟩

/-- The loop that makes room for `bytes`, the oldest entries first. -/
def evict (budget bytes : ℕ) : List ℕ → NeighborMap → ℕ → CacheState
  | [], map, used => ⟨map, [], used⟩
  | old :: order, map, used =>
    if budget < used + bytes then
      match map.lookup old with
      | some v => evict budget bytes order (map.erase old) (used - neighborBytes v.length)
      | none => evict budget bytes order map used
    else ⟨map, old :: order, used⟩

/-- The cache with room for a list. -/
def makeRoom (budget : ℕ) (neighbors : List ℕ) (s : CacheState) : CacheState :=
  evict budget (neighborBytes neighbors.length) s.order s.map s.usedBytes

/-- What is done under the second lock. -/
def insert (budget node : ℕ) (neighbors : List ℕ) (s : CacheState) : CacheState :=
  let s := s.makeRoom budget neighbors
  ⟨s.map.insert node neighbors, s.order ++ [node], s.usedBytes + neighborBytes neighbors.length⟩

end CacheState

/-! ### The bytes of a map -/

section Bytes

variable {map : NeighborMap} {node : ℕ} {v : List ℕ}

lemma cachedBytes_insert (h : node ∉ map) :
    cachedBytes (map.insert node v) = neighborBytes v.length + cachedBytes map := by
  simp [cachedBytes, Finmap.entries_insert_of_notMem h]

lemma cachedBytes_erase (h : map.lookup node = some v) :
    cachedBytes (map.erase node) = cachedBytes map - neighborBytes v.length := by
  have hmap : (map.erase node).insert node v = map := by
    refine Finmap.ext_lookup fun k => ?_
    by_cases hk : k = node
    · rw [hk, Finmap.lookup_insert, h]
    · rw [Finmap.lookup_insert_of_ne _ hk, Finmap.lookup_erase_ne hk]
  have hsum := cachedBytes_insert (v := v) (Finmap.notMem_erase_self (a := node) (s := map))
  rw [hmap] at hsum
  omega

end Bytes

/-! ### Eviction -/

namespace CacheState

variable {budget bytes : ℕ} {order : List ℕ} {map : NeighborMap} {used : ℕ}

/-- Entries are only removed. -/
lemma lookup_evict {k : ℕ} {v : List ℕ}
    (h : (evict budget bytes order map used).map.lookup k = some v) :
    map.lookup k = some v := by
  induction order generalizing map used with
  | nil => exact h
  | cons old order ih =>
    rw [evict] at h
    split at h
    · split at h
      · have herased := ih h
        by_cases hk : k = old
        · rw [hk, Finmap.lookup_erase] at herased
          cases herased
        · rwa [Finmap.lookup_erase_ne hk] at herased
      · exact ih h
    · exact h

/-- The count is exact, and the queue has every node of the map. -/
structure Counted (s : CacheState) : Prop where
  used : s.usedBytes = cachedBytes s.map
  queued : ∀ k ∈ s.map, k ∈ s.order

/-- Eviction keeps the count exact, and makes room unless nothing is left. -/
lemma Counted.evict (budget bytes : ℕ) (h : Counted ⟨map, order, used⟩) :
    (CacheState.evict budget bytes order map used).Counted ∧
      ((CacheState.evict budget bytes order map used).usedBytes + bytes ≤ budget ∨
        (CacheState.evict budget bytes order map used).usedBytes = 0) := by
  induction order generalizing map used with
  | nil =>
    have hempty : map = ∅ := Finmap.ext_lookup fun k => by
      rw [Finmap.lookup_empty, Finmap.lookup_eq_none]
      exact fun hk => List.not_mem_nil (h.queued k hk)
    refine ⟨h, Or.inr (h.used.trans ?_)⟩
    rw [hempty]
    rfl
  | cons old order ih =>
    rw [CacheState.evict]
    split
    · cases hold : map.lookup old with
      | some v =>
        refine ih ⟨?_, fun k hk => ?_⟩
        · rw [cachedBytes_erase hold, ← h.used]
        · obtain ⟨hne, hmem⟩ := Finmap.mem_erase.1 hk
          exact (List.mem_cons.1 (h.queued k hmem)).resolve_left hne
      | none =>
        refine ih ⟨h.used, fun k hk => (List.mem_cons.1 (h.queued k hk)).resolve_left ?_⟩
        rintro rfl
        exact Finmap.lookup_eq_none.1 hold hk
    · rename_i hroom
      exact ⟨h, Or.inl (Nat.not_lt.1 hroom)⟩

/-- A list that fits is inserted where its node is missing. -/
lemma Counted.insert {s : CacheState} {node : ℕ} {neighbors : List ℕ} (h : s.Counted)
    (hnew : (s.makeRoom budget neighbors).map.lookup node = none)
    (hfits : neighborBytes neighbors.length ≤ budget) :
    (s.insert budget node neighbors).Counted ∧
      (s.insert budget node neighbors).usedBytes ≤ budget := by
  have hroom := Counted.evict budget (neighborBytes neighbors.length) h
  rw [← makeRoom] at hroom
  obtain ⟨hcounted, hroom⟩ := hroom
  refine ⟨⟨?_, fun k hk => ?_⟩, ?_⟩
  · simp only [CacheState.insert]
    rw [cachedBytes_insert (Finmap.lookup_eq_none.1 hnew), hcounted.used, Nat.add_comm]
  · rcases Finmap.mem_insert.1 hk with rfl | hk
    · exact List.mem_append_right _ (List.mem_singleton.2 rfl)
    · exact List.mem_append_left _ (hcounted.queued k hk)
  · simp only [CacheState.insert]
    omega

/-- The cached lists are those of the backing graph. -/
def Truthful (g : GraphView) (s : CacheState) : Prop :=
  ∀ k v, s.map.lookup k = some v → v = g.getNeighbors k

lemma Truthful.insert {g : GraphView} {s : CacheState} (h : s.Truthful g) (node : ℕ) :
    (s.insert budget node (g.getNeighbors node)).Truthful g := by
  intro k v hv
  by_cases hk : k = node
  · subst hk
    exact (Option.some.inj ((Finmap.lookup_insert _).symm.trans hv)).symm
  · exact h k v (lookup_evict ((Finmap.lookup_insert_of_ne _ hk).symm.trans hv))

end CacheState

/-! ### Lookups -/

inductive CacheCall where
  | get (node : ℕ)
  | insert (node : ℕ) (neighbors : List ℕ)

def CacheCall.Answer : CacheCall → Type
  | .get _ => Option (List ℕ)
  | .insert _ _ => Unit

/-- `get_neighbors_shared`, by which `get_neighbors` is defined, and `get_neighbors_into` with its
buffer -/
inductive Lookup where
  | shared (node : ℕ)
  | into (node : ℕ) (out : List ℕ)

namespace Lookup

/-- What the backing graph returns. -/
def direct (g : GraphView) : Lookup → List ℕ
  | .shared node => g.getNeighbors node
  | .into node out => out ++ g.getNeighbors node

/-- A lookup of the cache. What is inserted after `get_neighbors_into` is the part of the buffer
that was added. -/
def cached (g : GraphView) : Lookup → Prog CacheCall.Answer (List ℕ)
  | .shared node => .call (.get node) fun
      | some v => .done v
      | none =>
        let neighbors := g.getNeighbors node
        .call (.insert node neighbors) fun _ => .done neighbors
  | .into node out => .call (.get node) fun
      | some v => .done (out ++ v)
      | none =>
        let start := out.length
        let out := out ++ g.getNeighbors node
        .call (.insert node (out.drop start)) fun _ => .done out

/-- The lookup with its result. -/
def program (g : GraphView) (l : Lookup) : Prog CacheCall.Answer (Lookup × List ℕ) :=
  l.cached g >>= fun result => .done (l, result)

end Lookup

/-- The cache, and the lookups that have returned. -/
structure CacheLog where
  cache : CacheState
  returned : List (Lookup × List ℕ)

/-- The threads work on a cache with a budget. -/
def cachingSystem (budget : ℕ) :
    System ℕ Unit Empty CacheLog CacheCall.Answer (Lookup × List ℕ) where
  exec _ _
    | .get node, s => some (s.cache.map.lookup node, s)
    | .insert node neighbors, s => some ((), { s with
        cache := s.cache.insert budget node neighbors })
  finish _ x s := { s with returned := x :: s.returned }
  env e := e.elim
  kills e := e.elim

abbrev CacheConfig := Config ℕ CacheLog CacheCall.Answer (Lookup × List ℕ)

abbrev CacheEvent := Event ℕ Unit Empty CacheCall.Answer (Lookup × List ℕ)

def cacheStart : CacheConfig := ⟨⟨.new, []⟩, fun _ => none⟩

/-- Threads start nothing but lookups. -/
def LooksUp (g : GraphView) (e : CacheEvent) : Prop :=
  ∀ i p, e = .start i p → ∃ l, p = Lookup.program g l

/-- An insertion is of a node that is not in the cache once there is room for it, and of a list
within the budget. -/
def insertsFit (budget : ℕ) (c : CacheConfig) : CacheEvent → Bool
  | .act i _ =>
    match c.running i with
    | some (.call (.insert node neighbors) _) =>
      ((c.shared.cache.makeRoom budget neighbors).map.lookup node).isNone &&
        decide (neighborBytes neighbors.length ≤ budget)
    | _ => true
  | _ => true

/-! ### What holds in every run -/

section Runs

variable (g : GraphView) (budget : ℕ)

/-- A thread inserts nothing but the neighbours of the backing graph. -/
def CacheCall.Truthful : CacheCall → Prop
  | .get _ => True
  | .insert node neighbors => neighbors = g.getNeighbors node

/-- An insertion fits. -/
def CacheCall.Fits (s : CacheLog) : CacheCall → Prop
  | .get _ => True
  | .insert node neighbors =>
    (s.cache.makeRoom budget neighbors).map.lookup node = none ∧
      neighborBytes neighbors.length ≤ budget

/-- The cache and what was returned are truthful. If all insertions fit, then the count is exact
and within the budget. -/
def cacheProtocol (fits : Prop) : Protocol ℕ CacheLog CacheCall where
  inv s := s.cache.Truthful g ∧ (∀ x ∈ s.returned, x.2 = x.1.direct g) ∧
    (fits → s.cache.Counted ∧ s.cache.usedBytes ≤ budget)
  rely _ _ _ := True
  may _ a := a.Truthful g
  guard s _ a := fits → a.Fits budget s
  rely_refl _ _ := trivial
  rely_trans _ _ := trivial

variable {g budget} {fits : Prop} {i : ℕ}

/-- Both lookups have this form: `f` makes the result of the neighbours. -/
lemma safe_lookup (l : Lookup) (node : ℕ) (f : List ℕ → List ℕ)
    (hf : f (g.getNeighbors node) = l.direct g)
    (k : Option (List ℕ) → Prog CacheCall.Answer (Lookup × List ℕ))
    (hhit : ∀ v, k (some v) = .done (l, f v)) {added : List ℕ}
    (hadded : added = g.getNeighbors node)
    (hmiss : k none = .call (.insert node added) fun _ => .done (l, f (g.getNeighbors node)))
    (s : CacheLog) :
    Prog.Safe (cachingSystem budget) (cacheProtocol g budget fits) i
      (fun x _ => x.2 = x.1.direct g) (.call (.get node) k) s := by
  intro t _ ht
  refine ⟨trivial, fun _ o r u hexec => ?_⟩
  obtain ⟨rfl, rfl⟩ := Prod.mk.inj (Option.some.inj hexec)
  refine ⟨ht, fun _ _ => trivial, ?_⟩
  cases hr : t.cache.map.lookup node with
  | some v =>
    rw [hhit, ht.1 node v hr]
    exact fun _ _ _ => hf
  | none =>
    rw [hmiss]
    subst hadded
    intro t' _ ht'
    refine ⟨rfl, fun hguard o r u hexec => ?_⟩
    obtain ⟨-, rfl⟩ := Prod.mk.inj (Option.some.inj hexec)
    refine ⟨⟨ht'.1.insert node, ht'.2.1, fun h => ?_⟩, fun _ _ => trivial, fun _ _ _ => hf⟩
    obtain ⟨hnew, hsize⟩ := hguard h
    exact (ht'.2.2 h).1.insert hnew hsize

lemma safe_program (l : Lookup) (s : CacheLog) :
    Prog.Safe (cachingSystem budget) (cacheProtocol g budget fits) i
      (fun x _ => x.2 = x.1.direct g) (l.program g) s := by
  cases l with
  | shared node => exact safe_lookup (.shared node) node id rfl _ (fun _ => rfl) rfl rfl s
  | into node out =>
    exact safe_lookup (.into node out) node (out ++ ·) rfl _ (fun _ => rfl) List.drop_left rfl s

lemma upholds_cacheProtocol :
    (cachingSystem budget).Upholds (cacheProtocol g budget fits)
      (fun c e => LooksUp g e ∧ (fits → insertsFit budget c e = true))
      fun _ x _ => x.2 = x.1.direct g where
  start {c i p} hok _ := by
    obtain ⟨l, rfl⟩ := hok.1 i p rfl
    exact safe_program l c.shared
  guard {c i o a k} hok hrunning _ _ h := by
    have hfit := hok.2 h
    cases a with
    | get node => trivial
    | insert node neighbors => simpa [insertsFit, hrunning, CacheCall.Fits] using hfit
  finish hinv hx := by
    refine ⟨⟨hinv.1, fun y hy => ?_, hinv.2.2⟩, fun _ _ => trivial⟩
    rcases List.mem_cons.1 hy with rfl | hy
    · exact hx
    · exact hinv.2.1 y hy
  env {_ e} := e.elim

lemma inv_of_reachable {c : CacheConfig}
    (h : (cachingSystem budget).Reachable
      (fun c e => LooksUp g e ∧ (fits → insertsFit budget c e = true)) cacheStart c) :
    (cacheProtocol g budget fits).inv c.shared := by
  refine (h.good upholds_cacheProtocol ⟨⟨?_, ?_, fun _ => ⟨⟨rfl, ?_⟩, Nat.zero_le _⟩⟩, ?_⟩).inv
  · intro k v hv
    cases hv
  · simp [cacheStart]
  · intro k hk
    exact absurd hk Finmap.notMem_empty
  · intro j p hp
    cases hp

end Runs

/-- Whatever the threads do, the lookups return what the backing graph has. If all insertions fit
then the bytes are counted as they are, and are within the budget. -/
theorem cachingGraph_of_insertsFit (g : GraphView) (budget : ℕ) (c : CacheConfig)
    (hrun : (cachingSystem budget).Reachable (fun _ e => LooksUp g e) cacheStart c) :
    (∀ x ∈ c.shared.returned, x.2 = x.1.direct g) ∧
      ((cachingSystem budget).Reachable
          (fun c e => LooksUp g e ∧ insertsFit budget c e = true) cacheStart c →
        c.shared.cache.usedBytes = cachedBytes c.shared.cache.map ∧
          cachedBytes c.shared.cache.map ≤ budget) := by
  have hall : (cacheProtocol g budget False).inv c.shared :=
    inv_of_reachable (by simpa using hrun)
  refine ⟨hall.2.1, fun hfit => ?_⟩
  have hinv : (cacheProtocol g budget True).inv c.shared :=
    inv_of_reachable (by simpa using hfit)
  obtain ⟨hcounted, hbound⟩ := hinv.2.2 trivial
  exact ⟨hcounted.used, hcounted.used ▸ hbound⟩

/-- The edges from 1 to 2 and 3, and from 2 to 3. -/
def threeEdges : GraphView where
  getNeighbors u := if u = 1 then [2, 3] else if u = 2 then [3] else []
  allNodes := [1, 2]
  complete u v := by
    split_ifs with h₁ h₂ <;> simp [*]

/-- Two threads look up the nodes 1 and 2 and both miss, and the first one looks up node 2 again. -/
def twoLookups : List CacheEvent :=
  [.start 0 (Lookup.program threeEdges (.shared 1)),
    .start 1 (Lookup.program threeEdges (.shared 2)), .act 0 (), .act 1 (), .act 0 (), .act 1 (),
    .act 0 (), .act 1 (),
    .start 0 (Lookup.program threeEdges (.into 2 [9])), .act 0 (), .act 0 ()]

/-- Two threads look up a node without neighbours and both miss. -/
def racingLookups : List CacheEvent :=
  [.start 0 (Lookup.program threeEdges (.shared 7)),
    .start 1 (Lookup.program threeEdges (.shared 7)),
    .act 0 (), .act 1 (), .act 0 (), .act 1 ()]

def loneLookup : List CacheEvent :=
  [.start 0 (Lookup.program threeEdges (.shared 7)), .act 0 (), .act 0 ()]

lemma looksUp_start (g : GraphView) (i : ℕ) (l : Lookup) : LooksUp g (.start i (l.program g)) := by
  rintro j p ⟨⟩
  exact ⟨l, rfl⟩

lemma looksUp_act (g : GraphView) (i : ℕ) : LooksUp g (.act i ()) := by
  rintro j p ⟨⟩

lemma looksUp_of_mem_twoLookups : ∀ e ∈ twoLookups, LooksUp threeEdges e := by
  simp [twoLookups, looksUp_start, looksUp_act]

lemma looksUp_of_mem_racingLookups : ∀ e ∈ racingLookups, LooksUp threeEdges e := by
  simp [racingLookups, looksUp_start, looksUp_act]

lemma looksUp_of_mem_loneLookup : ∀ e ∈ loneLookup, LooksUp threeEdges e := by
  simp [loneLookup, looksUp_start, looksUp_act]

/-- A run in which all insertions fit. The second insertion evicts the list of node 1, and the last
lookup is a hit. -/
theorem cachingGraph_of_insertsFit_twoLookups :
    ∃ c : CacheConfig,
      c.shared.returned = [(.into 2 [9], [9, 3]), (.shared 2, [3]), (.shared 1, [2, 3])] ∧
      (∀ x ∈ c.shared.returned, x.2 = x.1.direct threeEdges) ∧
      c.shared.cache.usedBytes = cachedBytes c.shared.cache.map ∧
      cachedBytes c.shared.cache.map ≤ 70 ∧ c.shared.cache.map.lookup 1 = none := by
  let c := ((cachingSystem 70).run (insertsFit 70) twoLookups cacheStart).get (by decide)
  have hfit : (cachingSystem 70).Reachable
      (fun c e => LooksUp threeEdges e ∧ insertsFit 70 c e = true) cacheStart c :=
    System.reachable_of_run (Option.some_get _).symm fun e he c hcheck =>
      ⟨looksUp_of_mem_twoLookups e he, hcheck⟩
  have hrun : (cachingSystem 70).Reachable (fun _ e => LooksUp threeEdges e) cacheStart c :=
    System.reachable_of_run (Option.some_get _).symm fun e he _ _ =>
      looksUp_of_mem_twoLookups e he
  obtain ⟨hreturned, hcounted⟩ := cachingGraph_of_insertsFit threeEdges 70 c hrun
  obtain ⟨hused, hbudget⟩ := hcounted hfit
  exact ⟨c, rfl, hreturned, hused, hbudget, rfl⟩

/-- After two misses one list is kept and counted twice. With no budget one list is kept. -/
theorem cachingGraph_miscounts :
    (∃ c, (cachingSystem 1000).Reachable (fun _ e => LooksUp threeEdges e) cacheStart c ∧
      c.shared.cache.usedBytes = 48 ∧ cachedBytes c.shared.cache.map = 24) ∧
    ∃ c, (cachingSystem 0).Reachable (fun _ e => LooksUp threeEdges e) cacheStart c ∧
      cachedBytes c.shared.cache.map = 24 := by
  refine ⟨⟨((cachingSystem 1000).run (fun _ _ => true) racingLookups cacheStart).get (by decide),
    System.reachable_of_run (Option.some_get _).symm fun e he _ _ =>
      looksUp_of_mem_racingLookups e he, by decide, by decide⟩,
    ⟨((cachingSystem 0).run (fun _ _ => true) loneLookup cacheStart).get (by decide),
    System.reachable_of_run (Option.some_get _).symm fun e he _ _ =>
      looksUp_of_mem_loneLookup e he, by decide⟩⟩

end BenoStreamDB

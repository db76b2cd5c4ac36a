import BenoStreamDB.Foundations.LruCache

/-!
# The cache of index files

`index_cache.rs`: the files of an index are kept in a map, with the order of their uses in a vector
and the sum of their sizes in a counter. Keys leave the vector by `swap_remove`, which puts the most
recently used key in the place of the removed one: the map, the vector and the counter always
represent one list of entries (`exists_represents`), and this list holds the entries of a cache that
evicts the least recently used entry when the run is orderly (`lru_of_orderlyRun`).
-/

namespace BenoStreamDB

namespace IndexCache

open KeyedMerge

structure IndexFileKey where
  index : String
  segmentId : String
  column : String
  /-- The kind of file, such as `inv.parquet` or `hnsw`. -/
  file : String
  manifestVersion : ℕ
  deriving DecidableEq

inductive CachedIndex (γ : Type*) where
  | bytes (data : List UInt8)
  | hnsw (graph : γ)
  deriving DecidableEq

variable {γ : Type*}

/-- `size_bytes`: the size of a graph is an estimate. -/
def CachedIndex.sizeBytes : CachedIndex γ → ℕ
  | .bytes data => data.length
  | .hnsw _ => 1024 * 1024 * 10

structure Entry (γ : Type*) where
  data : CachedIndex γ
  size : ℕ

/-- The sizes are of data in memory, so their sum does not overflow. -/
structure Inner (γ : Type*) where
  entries : List (IndexFileKey × Entry γ)
  /-- The least recently used key is meant to be the first. -/
  order : List IndexFileKey
  currentSize : ℕ
  maxSize : ℕ

/-- `with_capacity` -/
def withCapacity (maxBytes : ℕ) : Inner γ := ⟨[], [], 0, maxBytes⟩

namespace Inner

variable (s : Inner γ)

/-- `swap_remove` at the position of the key in the order, if it has one. -/
def unlink (key : IndexFileKey) : Inner γ :=
  { s with order := LruCache.swapEraseP (fun k => k = key) s.order }

/-- An entry is removed from the map and its size from the counter. -/
def removeEntry (key : IndexFileKey) : Inner γ :=
  match s.entries.lookup key with
  | some old =>
    { s with
      entries := LruCache.erase key s.entries
      currentSize := s.currentSize - old.size }
  | none => s

def get (key : IndexFileKey) : Option (CachedIndex γ) × Inner γ :=
  ((s.entries.lookup key).map Entry.data,
    if key ∈ s.order then { s with order := (s.unlink key).order ++ [key] } else s)

def addEntry (key : IndexFileKey) (data : CachedIndex γ) : Inner γ :=
  { s with
    entries := s.entries ++ [(key, ⟨data, data.sizeBytes⟩)]
    order := s.order ++ [key]
    currentSize := s.currentSize + data.sizeBytes }

/-- One eviction: the first key leaves the order by `swap_remove(0)`. -/
def evictFirst : Inner γ :=
  match s.order with
  | lru :: _ => Inner.removeEntry { s with order := LruCache.swapRemove s.order 0 } lru
  | [] => s

def evictLoop : ℕ → Inner γ → Inner γ
  | 0, s => s
  | n + 1, s =>
    if s.maxSize < s.currentSize ∧ 1 < s.order.length then evictLoop n s.evictFirst else s

/-- `put` before the evictions. -/
def replaceEntry (key : IndexFileKey) (data : CachedIndex γ) : Inner γ :=
  match s.entries.lookup key with
  | some _ => ((s.removeEntry key).unlink key).addEntry key data
  | none => s.addEntry key data

-- Every eviction makes the order shorter, so its length bounds their number.
def put (key : IndexFileKey) (data : CachedIndex γ) : Inner γ :=
  evictLoop (s.replaceEntry key data).order.length (s.replaceEntry key data)

/-- The loop of both invalidations, with the number of removed entries. -/
def invalidate (toRemove : List IndexFileKey) : ℕ × Inner γ :=
  toRemove.foldl (fun r key =>
    ((if (r.2.entries.lookup key).isSome then r.1 + 1 else r.1), (r.2.removeEntry key).unlink key))
    (0, s)

variable (iter : List IndexFileKey → List IndexFileKey)

/-- `iter` is the order in which the map gives its keys. -/
def invalidateIndex (index : String) : ℕ × Inner γ :=
  s.invalidate ((iter (keys s.entries)).filter fun k => k.index = index)

def invalidateOlderVersions (index : String) (version : ℕ) : ℕ × Inner γ :=
  s.invalidate
    ((iter (keys s.entries)).filter fun k => k.index = index ∧ k.manifestVersion < version)

end Inner

/-! ### Runs -/

inductive Op (γ : Type*) where
  | get (key : IndexFileKey)
  | put (key : IndexFileKey) (data : CachedIndex γ)
  | invalidateIndex (index : String)
  | invalidateOlderVersions (index : String) (version : ℕ)

/-- An operation, and the order in which the map gives its keys at that time. -/
structure Call (γ : Type*) where
  op : Op γ
  iter : List IndexFileKey → List IndexFileKey
  iter_perm : ∀ ks, (iter ks).Perm ks

def exec (s : Inner γ) (call : Call γ) : Inner γ :=
  match call.op with
  | .get key => (s.get key).2
  | .put key data => s.put key data
  | .invalidateIndex index => (s.invalidateIndex call.iter index).2
  | .invalidateOlderVersions index version =>
    (s.invalidateOlderVersions call.iter index version).2

def run (s : Inner γ) (calls : List (Call γ)) : Inner γ := calls.foldl exec s

def content (s : Inner γ) (key : IndexFileKey) : Option (CachedIndex γ) :=
  (s.entries.lookup key).map Entry.data

/-- The sum of the sizes of the entries. -/
def heldSize (s : Inner γ) : ℕ := (s.entries.map fun e => e.2.size).sum

/-- What the operation asks of a cache. -/
def request : Op γ → LruCache.Request IndexFileKey (CachedIndex γ)
  | .get key => .access key
  | .put key data => .insert key data
  | .invalidateIndex index => .discard fun k => k.index = index
  | .invalidateOlderVersions index version =>
    .discard fun k => k.index = index ∧ k.manifestVersion < version

/-! ### The list that a state represents -/

def entryOf (data : CachedIndex γ) : Entry γ := ⟨data, data.sizeBytes⟩

structure Represents (capacity : ℕ) (s : Inner γ) (l : List (IndexFileKey × CachedIndex γ)) :
    Prop where
  entries : s.entries.Perm (l.map (Prod.map id entryOf))
  order : s.order = keys l
  size : s.currentSize = LruCache.total CachedIndex.sizeBytes l
  max : s.maxSize = capacity
  nodup : (keys l).Nodup

lemma keys_map_entryOf (l : List (IndexFileKey × CachedIndex γ)) :
    keys (l.map (Prod.map id entryOf)) = keys l := by
  simp [keys]

lemma lookup_map_entryOf (l : List (IndexFileKey × CachedIndex γ)) (key : IndexFileKey) :
    (l.map (Prod.map id entryOf)).lookup key = (l.lookup key).map entryOf := by
  induction l with
  | nil => rfl
  | cons e l ih =>
    rw [List.map_cons, lookup_cons_eq, lookup_cons_eq, ih]
    change (if e.1 = key then some (entryOf e.2) else _) = _
    split_ifs <;> rfl

lemma erase_map_entryOf (l : List (IndexFileKey × CachedIndex γ)) (key : IndexFileKey) :
    LruCache.erase key (l.map (Prod.map id entryOf)) =
      (LruCache.erase key l).map (Prod.map id entryOf) :=
  List.filter_map

section Represents

variable {capacity : ℕ} {s : Inner γ} {l l' : List (IndexFileKey × CachedIndex γ)}

namespace Represents

lemma keys_perm (h : Represents capacity s l) : (keys s.entries).Perm (keys l) :=
  (h.entries.map Prod.fst).trans (.of_eq (keys_map_entryOf l))

lemma lookup (h : Represents capacity s l) (key : IndexFileKey) :
    s.entries.lookup key = (l.lookup key).map entryOf := by
  rw [lookup_perm h.entries (h.keys_perm.nodup_iff.2 h.nodup), lookup_map_entryOf]

lemma content_eq (h : Represents capacity s l) (key : IndexFileKey) :
    content s key = l.lookup key := by
  rw [content, h.lookup]
  cases l.lookup key with
  | none => rfl
  | some data => rfl

lemma currentSize_eq (h : Represents capacity s l) : s.currentSize = heldSize s := by
  rw [h.size, heldSize, (h.entries.map _).sum_eq, LruCache.total, List.map_map]
  rfl

/-- The removal of an entry from the map, with an order that already lacks its key. -/
lemma removeEntry (h : Represents capacity s l) {key : IndexFileKey} {data : CachedIndex γ}
    (hlookup : l.lookup key = some data) (hl' : l'.Perm (LruCache.erase key l)) :
    Represents capacity (Inner.removeEntry { s with order := keys l' } key) l' := by
  have hremove : Inner.removeEntry { s with order := keys l' } key =
      { s with
        entries := LruCache.erase key s.entries
        order := keys l'
        currentSize := s.currentSize - data.sizeBytes } := by
    simp only [Inner.removeEntry, h.lookup, hlookup]
    rfl
  have htotal : LruCache.total CachedIndex.sizeBytes l =
      data.sizeBytes + LruCache.total CachedIndex.sizeBytes l' := by
    rw [LruCache.total_perm (LruCache.perm_cons_erase h.nodup hlookup), LruCache.total_cons,
      LruCache.total_perm hl']
  rw [hremove]
  refine ⟨?_, rfl, ?_, h.max, ?_⟩
  · refine (LruCache.erase_perm h.entries).trans ?_
    rw [erase_map_entryOf]
    exact hl'.symm.map _
  · change s.currentSize - data.sizeBytes = _
    rw [h.size, htotal]
    omega
  · exact (hl'.map _).nodup_iff.2 (LruCache.nodup_keys_erase h.nodup)

lemma unlink_order (h : Represents capacity s l) (key : IndexFileKey) :
    (s.unlink key).order = keys (LruCache.swapErase key l) := by
  rw [LruCache.keys_swapErase, ← h.order]
  rfl

/-- An entry leaves the map, and its key the order. -/
lemma forget (h : Represents capacity s l) (key : IndexFileKey) :
    Represents capacity ((s.removeEntry key).unlink key) (LruCache.swapErase key l) := by
  cases hlookup : l.lookup key with
  | none =>
    have hkey : key ∉ keys l := lookup_eq_none.1 hlookup
    have hstays : s.removeEntry key = s := by
      simp only [Inner.removeEntry, h.lookup, hlookup, Option.map_none]
    have horder := h.unlink_order key
    rw [LruCache.swapErase_of_notMem hkey] at horder ⊢
    rw [hstays]
    exact ⟨h.entries, horder, h.size, h.max, h.nodup⟩
  | some data =>
    have hremove : (s.removeEntry key).unlink key =
        Inner.removeEntry { s with order := keys (LruCache.swapErase key l) } key := by
      rw [← h.unlink_order key]
      simp only [Inner.removeEntry, Inner.unlink, h.lookup, hlookup, Option.map_some]
    rw [hremove]
    exact h.removeEntry hlookup (LruCache.swapErase_perm h.nodup)

lemma addEntry (h : Represents capacity s l) {key : IndexFileKey} (hkey : key ∉ keys l)
    (data : CachedIndex γ) : Represents capacity (s.addEntry key data) (l ++ [(key, data)]) := by
  refine ⟨?_, ?_, ?_, h.max, ?_⟩
  · rw [List.map_append]
    exact h.entries.append_right _
  · rw [keys_append, ← h.order]
    rfl
  · rw [LruCache.total_append, ← h.size]
    rfl
  · rw [keys_append]
    exact List.nodup_append.2 ⟨h.nodup, List.nodup_singleton key, by
      intro k hk k' hk'
      obtain rfl := List.mem_singleton.1 hk'
      rintro rfl
      exact hkey hk⟩

lemma replaceEntry (h : Represents capacity s l) (key : IndexFileKey) (data : CachedIndex γ) :
    Represents capacity (s.replaceEntry key data) (LruCache.swapErase key l ++ [(key, data)]) := by
  have hkey : key ∉ keys (LruCache.swapErase key l) := fun hk =>
    LruCache.notMem_keys_erase key l
      (((LruCache.swapErase_perm h.nodup).map Prod.fst).mem_iff.1 hk)
  cases hlookup : l.lookup key with
  | none =>
    have hnone : s.entries.lookup key = none := by rw [h.lookup, hlookup, Option.map_none]
    rw [LruCache.swapErase_of_notMem (lookup_eq_none.1 hlookup)] at hkey ⊢
    simp only [Inner.replaceEntry, hnone]
    exact h.addEntry hkey data
  | some old =>
    have hsome : s.entries.lookup key = some (entryOf old) := by
      rw [h.lookup, hlookup, Option.map_some]
    simp only [Inner.replaceEntry, hsome]
    exact (h.forget key).addEntry hkey data

lemma evictFirst {e : IndexFileKey × CachedIndex γ} (h : Represents capacity s (e :: l)) :
    Represents capacity s.evictFirst (LruCache.swapRemove (e :: l) 0) := by
  have horder : LruCache.swapRemove s.order 0 = keys (LruCache.swapRemove (e :: l) 0) := by
    rw [h.order]
    exact LruCache.swapRemove_map Prod.fst (e :: l) 0
  have hfirst : s.evictFirst =
      Inner.removeEntry { s with order := keys (LruCache.swapRemove (e :: l) 0) } e.1 := by
    rw [← horder]
    simp only [Inner.evictFirst, h.order, keys_cons]
  have hlookup : (e :: l).lookup e.1 = some e.2 := lookup_of_mem h.nodup List.mem_cons_self
  have herase : LruCache.erase e.1 (e :: l) = l := LruCache.erase_append_cons (p := []) h.nodup
  rw [hfirst]
  refine h.removeEntry hlookup ?_
  rw [herase]
  exact LruCache.swapRemove_zero_perm e l

lemma evictLoop (h : Represents capacity s l) (n : ℕ) :
    Represents capacity (Inner.evictLoop n s)
      (LruCache.swapEvict CachedIndex.sizeBytes capacity n l) := by
  induction n generalizing s l with
  | zero => exact h
  | succ n ih =>
    have hlength : s.order.length = l.length := by rw [h.order, keys, List.length_map]
    rw [Inner.evictLoop, LruCache.swapEvict, h.max, h.size, hlength]
    split_ifs with hover
    · cases l with
      | nil => exact absurd hover.2 (by simp)
      | cons e l => exact ih h.evictFirst
    · exact h

lemma get_hit (h : Represents capacity s l) {key : IndexFileKey} {data : CachedIndex γ}
    (hlookup : l.lookup key = some data) :
    Represents capacity (s.get key).2 (LruCache.swapErase key l ++ [(key, data)]) := by
  have hkey : key ∈ s.order := h.order ▸ mem_keys_of_lookup hlookup
  have hperm : (LruCache.swapErase key l ++ [(key, data)]).Perm l :=
    ((LruCache.swapErase_perm h.nodup).append_right _).trans
      ((List.perm_append_singleton _ _).trans (LruCache.perm_cons_erase h.nodup hlookup).symm)
  rw [Inner.get, if_pos hkey]
  refine ⟨h.entries.trans (hperm.symm.map _), ?_, ?_, h.max, (hperm.map _).nodup_iff.2 h.nodup⟩
  · change (s.unlink key).order ++ [key] = _
    rw [h.unlink_order key, keys_append]
    rfl
  · exact h.size.trans (LruCache.total_perm hperm).symm

lemma get_miss (h : Represents capacity s l) {key : IndexFileKey} (hkey : key ∉ keys l) :
    Represents capacity (s.get key).2 l := by
  rw [Inner.get, if_neg (h.order ▸ hkey)]
  exact h

lemma put (h : Represents capacity s l) (key : IndexFileKey) (data : CachedIndex γ) :
    Represents capacity (s.put key data)
      (LruCache.swapEvict CachedIndex.sizeBytes capacity
        (LruCache.swapErase key l ++ [(key, data)]).length
        (LruCache.swapErase key l ++ [(key, data)])) := by
  have hreplaced := h.replaceEntry key data
  have hlength : (s.replaceEntry key data).order.length =
      (LruCache.swapErase key l ++ [(key, data)]).length := by
    rw [hreplaced.order, keys, List.length_map]
  rw [Inner.put, hlength]
  exact hreplaced.evictLoop _

lemma invalidate (h : Represents capacity s l) (toRemove : List IndexFileKey) :
    Represents capacity (s.invalidate toRemove).2
      (toRemove.foldl (fun l key => LruCache.swapErase key l) l) := by
  rw [Inner.invalidate]
  generalize (0 : ℕ) = removed
  induction toRemove generalizing s l removed with
  | nil => exact h
  | cons key toRemove ih => exact ih (h.forget key) _

lemma toRemove_perm (h : Represents capacity s l) (call : Call γ) (p : IndexFileKey → Bool) :
    ((call.iter (keys s.entries)).filter p).Perm ((keys l).filter p) :=
  ((call.iter_perm _).trans h.keys_perm).filter p

/-- Every operation does to the represented list what its request does by swaps. -/
lemma exec (h : Represents capacity s l) (call : Call γ) :
    ∃ l', LruCache.SwapStep CachedIndex.sizeBytes capacity l (request call.op) l' ∧
      Represents capacity (exec s call) l' := by
  rw [IndexCache.exec]
  cases call.op with
  | get key =>
    cases hlookup : l.lookup key with
    | none => exact ⟨l, .miss (lookup_eq_none.1 hlookup), h.get_miss (lookup_eq_none.1 hlookup)⟩
    | some data => exact ⟨_, .hit hlookup, h.get_hit hlookup⟩
  | put key data => exact ⟨_, .insert key data, h.put key data⟩
  | invalidateIndex index => exact ⟨_, .discard (h.toRemove_perm call _), h.invalidate _⟩
  | invalidateOlderVersions index version =>
    exact ⟨_, .discard (h.toRemove_perm call _), h.invalidate _⟩

end Represents

/-- A run does to the represented list what its requests do by swaps. -/
lemma exists_represents (h : Represents capacity s l) (calls : List (Call γ)) :
    ∃ l', LruCache.SwapRun CachedIndex.sizeBytes capacity l
        (calls.map fun call => request call.op) l' ∧
      Represents capacity (run s calls) l' := by
  induction calls generalizing s l with
  | nil => exact ⟨l, .nil l, h⟩
  | cons call calls ih =>
    obtain ⟨l₁, hstep, h₁⟩ := h.exec call
    obtain ⟨l₂, hrun, h₂⟩ := ih h₁
    exact ⟨l₂, .cons hstep hrun, h₂⟩

end Represents

lemma represents_withCapacity (maxBytes : ℕ) :
    Represents maxBytes (withCapacity maxBytes : Inner γ) [] :=
  ⟨.nil, rfl, rfl, rfl, List.nodup_nil⟩

/-- The counter is always the sum of the sizes; the entries are those of a cache that evicts the
least recently used one if no operation displaces an entry with two or more entries used after it,
or nothing is evicted any more. -/
theorem lru_of_orderlyRun (maxBytes : ℕ) (calls : List (Call γ)) :
    (run (withCapacity maxBytes) calls).currentSize =
        heldSize (run (withCapacity maxBytes) calls) ∧
      (LruCache.OrderlyRun CachedIndex.sizeBytes maxBytes []
          (calls.map fun call => request call.op) →
        ∀ key, content (run (withCapacity maxBytes) calls) key =
          (LruCache.run CachedIndex.sizeBytes maxBytes []
            (calls.map fun call => request call.op)).lookup key) := by
  obtain ⟨l, hrun, hl⟩ := exists_represents (represents_withCapacity maxBytes) calls
  refine ⟨hl.currentSize_eq, fun horderly key => ?_⟩
  have hperm := hrun.perm List.nodup_nil horderly
  rw [hl.content_eq, lookup_perm hperm hl.nodup]

/-! ### Files of one byte -/

def byteKey (segmentId : String) : IndexFileKey := ⟨"logs", segmentId, "body", "inv.parquet", 1⟩

lemma id_perm (ks : List IndexFileKey) : (id ks).Perm ks := .refl ks

def putByte (segmentId : String) : Call Unit :=
  ⟨.put (byteKey segmentId) (.bytes [0]), id, id_perm⟩

def getByte (segmentId : String) : Call Unit := ⟨.get (byteKey segmentId), id, id_perm⟩

/-- A cache for one file: the second file evicts the first and is found again. -/
theorem lru_of_orderlyRun_one :
    content (run (withCapacity 1) [putByte "a", putByte "b", getByte "b"]) (byteKey "a") = none ∧
      ∀ key, content (run (withCapacity 1) [putByte "a", putByte "b", getByte "b"]) key =
        (LruCache.run CachedIndex.sizeBytes 1 []
          ([putByte "a", putByte "b", getByte "b"].map fun call => request call.op)).lookup
            key := by
  refine ⟨rfl, (lru_of_orderlyRun 1 [putByte "a", putByte "b", getByte "b"]).2 ?_⟩
  refine .inr ⟨⟨by decide, .inr (by decide)⟩, .inr ⟨⟨by decide, .inr (by decide)⟩, ?_⟩⟩
  exact .inl ⟨trivial, trivial⟩

/-- The fifth file of a cache for three evicts the fourth: the eviction of the first had put the
fourth in its place at the front of the order. -/
theorem eviction_drops_recent_file :
    content (run (withCapacity 3) (["a", "b", "c", "d", "e"].map putByte)) (byteKey "d") = none ∧
      (LruCache.run CachedIndex.sizeBytes 3 []
        ((["a", "b", "c", "d", "e"].map putByte).map fun call => request call.op)).lookup
          (byteKey "d") = some (.bytes [0]) ∧
      content (run (withCapacity 3) (["a", "b", "c", "d", "e"].map putByte)) (byteKey "b") =
        some (.bytes [0]) := by
  refine ⟨?_, ?_, ?_⟩ <;> rfl

end IndexCache

end BenoStreamDB

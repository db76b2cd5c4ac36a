import Mathlib.Data.Finmap
import Mathlib.Data.List.Sort

/-!
# Maps whose values determine their keys

`KeyedMap key` is a finite map in which the key of every stored value `b` is `key b`.
It is the shape of a hash map that is only ever filled with `map.insert(v.key(), v)`:
iteration order is not part of the value, so two such maps are equal exactly when they
answer every lookup alike.
-/

/-- A finite map from `κ` to `β` in which every value is stored under its own key. -/
structure KeyedMap {κ β : Type*} [DecidableEq κ] (key : β → κ) where
  toFinmap : Finmap (fun _ : κ => β)
  keyed : ∀ k b, toFinmap.lookup k = some b → key b = k

namespace KeyedMap

variable {κ β : Type*} [DecidableEq κ] {key : β → κ}

instance [DecidableEq β] : DecidableEq (KeyedMap key) := fun m n =>
  decidable_of_iff (m.toFinmap = n.toFinmap) (by cases m; cases n; simp)

/-- The value stored under `k`. -/
def get? (m : KeyedMap key) (k : κ) : Option β := m.toFinmap.lookup k

@[ext]
lemma ext {m n : KeyedMap key} (h : ∀ k, m.get? k = n.get? k) : m = n := by
  cases m
  cases n
  simpa using Finmap.ext_lookup h

lemma key_of_get? {m : KeyedMap key} {k : κ} {b : β} (h : m.get? k = some b) : key b = k :=
  m.keyed k b h

def contains (m : KeyedMap key) (k : κ) : Bool := (m.get? k).isSome

lemma contains_iff {m : KeyedMap key} {k : κ} :
    m.contains k = true ↔ ∃ b, m.get? k = some b := by
  simp [contains, Option.isSome_iff_exists]

lemma not_contains_iff {m : KeyedMap key} {k : κ} :
    m.contains k = false ↔ m.get? k = none := by
  simp [contains]

/-! ### Operations -/

def empty : KeyedMap key := ⟨∅, by simp⟩

instance : EmptyCollection (KeyedMap key) := ⟨empty⟩

@[simp]
lemma get?_empty (k : κ) : (∅ : KeyedMap key).get? k = none := Finmap.lookup_empty k

/-- Store `b` under its own key, replacing what was there. -/
def insert (m : KeyedMap key) (b : β) : KeyedMap key where
  toFinmap := m.toFinmap.insert (key b) b
  keyed k c h := by
    by_cases hk : k = key b
    · subst hk
      rw [Finmap.lookup_insert] at h
      rw [Option.some.inj h]
    · rw [Finmap.lookup_insert_of_ne _ hk] at h
      exact m.keyed k c h

lemma get?_insert (m : KeyedMap key) (b : β) (k : κ) :
    (m.insert b).get? k = if key b = k then some b else m.get? k := by
  split_ifs with h
  · subst h
    exact Finmap.lookup_insert _
  · exact Finmap.lookup_insert_of_ne _ (Ne.symm h)

@[simp]
lemma get?_insert_self (m : KeyedMap key) (b : β) : (m.insert b).get? (key b) = some b := by
  simp [get?_insert]

lemma get?_insert_of_ne (m : KeyedMap key) {b : β} {k : κ} (h : key b ≠ k) :
    (m.insert b).get? k = m.get? k := by
  simp [get?_insert, h]

def erase (m : KeyedMap key) (k : κ) : KeyedMap key where
  toFinmap := m.toFinmap.erase k
  keyed k' c h := by
    by_cases hk : k' = k
    · subst hk
      simp at h
    · rw [Finmap.lookup_erase_ne hk] at h
      exact m.keyed k' c h

lemma get?_erase (m : KeyedMap key) (k k' : κ) :
    (m.erase k).get? k' = if k = k' then none else m.get? k' := by
  split_ifs with h
  · subst h
    exact Finmap.lookup_erase _ _
  · exact Finmap.lookup_erase_ne (Ne.symm h)

/-- The stored values, in no particular order. -/
def values (m : KeyedMap key) : Multiset β := m.toFinmap.entries.map Sigma.snd

lemma mem_values {m : KeyedMap key} {b : β} : b ∈ m.values ↔ m.get? (key b) = some b := by
  simp only [values, Multiset.mem_map, get?, Finmap.lookup_eq_some_iff]
  constructor
  · rintro ⟨⟨k, c⟩, hmem, rfl⟩
    have hk : key c = k := m.keyed k c (Finmap.lookup_eq_some_iff.2 hmem)
    exact hk ▸ hmem
  · intro h
    exact ⟨⟨key b, b⟩, h, rfl⟩

/-- The keys of the stored values are pairwise distinct. -/
lemma nodup_map_key_values (m : KeyedMap key) : (m.values.map key).Nodup := by
  have hkeys : m.values.map key = m.toFinmap.entries.map Sigma.fst := by
    simp only [values, Multiset.map_map]
    refine Multiset.map_congr rfl fun x hx => ?_
    exact m.keyed x.1 x.2 (Finmap.lookup_eq_some_iff.2 hx)
  rw [hkeys]
  exact Multiset.nodup_keys.2 m.toFinmap.nodupKeys

/-! ### Inserting and erasing lists -/

/-- Insert the values of a list from left to right: the last value of a key wins. -/
def insertAll (m : KeyedMap key) (bs : List β) : KeyedMap key := bs.foldl insert m

def ofList (bs : List β) : KeyedMap key := insertAll ∅ bs

@[simp]
lemma insertAll_nil (m : KeyedMap key) : m.insertAll [] = m := rfl

@[simp]
lemma insertAll_cons (m : KeyedMap key) (b : β) (bs : List β) :
    m.insertAll (b :: bs) = (m.insert b).insertAll bs := rfl

lemma insertAll_append (m : KeyedMap key) (bs cs : List β) :
    m.insertAll (bs ++ cs) = (m.insertAll bs).insertAll cs := List.foldl_append

lemma get?_insertAll (m : KeyedMap key) (bs : List β) (k : κ) :
    (m.insertAll bs).get? k = (bs.reverse.find? (key · = k)).or (m.get? k) := by
  induction bs generalizing m with
  | nil => rfl
  | cons b bs ih =>
    rw [insertAll_cons, ih, List.reverse_cons, List.find?_append, Option.or_assoc, get?_insert]
    by_cases h : key b = k <;> simp [h]

lemma get?_insertAll_of_notMem {m : KeyedMap key} {bs : List β} {k : κ} (h : k ∉ bs.map key) :
    (m.insertAll bs).get? k = m.get? k := by
  have hnone : bs.reverse.find? (key · = k) = none := by
    simp only [List.find?_eq_none, List.mem_reverse, decide_eq_true_eq]
    intro b hb hk
    exact h (hk ▸ List.mem_map_of_mem hb)
  rw [get?_insertAll, hnone, Option.none_or]

/-- With pairwise distinct keys every listed value is found. -/
lemma get?_insertAll_of_mem {m : KeyedMap key} {bs : List β} (hnd : (bs.map key).Nodup)
    {b : β} (hb : b ∈ bs) : (m.insertAll bs).get? (key b) = some b := by
  induction bs generalizing m with
  | nil => cases hb
  | cons c bs ih =>
    rw [List.map_cons, List.nodup_cons] at hnd
    rcases List.mem_cons.1 hb with rfl | hb
    · rw [insertAll_cons, get?_insertAll_of_notMem hnd.1, get?_insert_self]
    · exact ih hnd.2 hb

/-- The last value of a key is the one found. -/
lemma get?_insertAll_append_cons (m : KeyedMap key) (bs cs : List β) {b : β}
    (h : key b ∉ cs.map key) : (m.insertAll (bs ++ b :: cs)).get? (key b) = some b := by
  rw [insertAll_append, insertAll_cons, get?_insertAll_of_notMem h, get?_insert_self]

lemma mem_of_get?_ofList {bs : List β} {k : κ} {b : β}
    (h : (ofList bs : KeyedMap key).get? k = some b) : b ∈ bs := by
  rw [ofList, get?_insertAll, get?_empty, Option.or_none] at h
  exact List.mem_reverse.1 (List.mem_of_find?_eq_some h)

lemma contains_insertAll (m : KeyedMap key) (bs : List β) (k : κ) :
    (m.insertAll bs).contains k = true ↔ k ∈ bs.map key ∨ m.contains k = true := by
  induction bs generalizing m with
  | nil => simp
  | cons b bs ih =>
    rw [insertAll_cons, ih]
    simp only [contains, get?_insert, List.map_cons, List.mem_cons]
    by_cases h : key b = k
    · simp [h]
    · simp [h, Ne.symm h]

/-- The order of insertion does not matter when the keys are pairwise distinct. -/
lemma insertAll_perm {m : KeyedMap key} {bs cs : List β} (h : bs.Perm cs)
    (hnd : (bs.map key).Nodup) : m.insertAll bs = m.insertAll cs := by
  ext1 k
  have hnd' : (cs.map key).Nodup := (h.map key).nodup_iff.1 hnd
  by_cases hk : k ∈ bs.map key
  · obtain ⟨b, hb, rfl⟩ := List.mem_map.1 hk
    rw [get?_insertAll_of_mem hnd hb, get?_insertAll_of_mem hnd' (h.mem_iff.1 hb)]
  · have hk' : k ∉ cs.map key := fun h' => hk ((h.map key).mem_iff.2 h')
    rw [get?_insertAll_of_notMem hk, get?_insertAll_of_notMem hk']

/-- A listing of the values has every key once. -/
lemma nodup_map_key_of_coe {m : KeyedMap key} {bs : List β} (h : (bs : Multiset β) = m.values) :
    (bs.map key).Nodup := by
  have hnd := m.nodup_map_key_values
  rwa [← h, Multiset.map_coe, Multiset.coe_nodup] at hnd

lemma mem_of_coe {m : KeyedMap key} {bs : List β} (h : (bs : Multiset β) = m.values) {b : β} :
    b ∈ bs ↔ m.get? (key b) = some b := by
  rw [← mem_values, ← h, Multiset.mem_coe]

/-- Collecting the values of a map, in any order, gives the map back. -/
lemma ofList_of_coe {m : KeyedMap key} {bs : List β} (h : (bs : Multiset β) = m.values) :
    ofList bs = m := by
  ext1 k
  cases hk : m.get? k with
  | some b =>
    have hkb : key b = k := key_of_get? hk
    subst hkb
    exact get?_insertAll_of_mem (nodup_map_key_of_coe h) ((mem_of_coe h).2 hk)
  | none =>
    refine (get?_insertAll_of_notMem fun hmap => ?_).trans (get?_empty k)
    obtain ⟨b, hb, rfl⟩ := List.mem_map.1 hmap
    rw [(mem_of_coe h).1 hb] at hk
    cases hk

def eraseAll (m : KeyedMap key) (ks : List κ) : KeyedMap key := ks.foldl erase m

@[simp]
lemma eraseAll_nil (m : KeyedMap key) : m.eraseAll [] = m := rfl

@[simp]
lemma eraseAll_cons (m : KeyedMap key) (k : κ) (ks : List κ) :
    m.eraseAll (k :: ks) = (m.erase k).eraseAll ks := rfl

lemma get?_eraseAll (m : KeyedMap key) (ks : List κ) (k : κ) :
    (m.eraseAll ks).get? k = if k ∈ ks then none else m.get? k := by
  induction ks generalizing m with
  | nil => simp
  | cons j ks ih =>
    rw [eraseAll_cons, ih, get?_erase]
    by_cases h : k ∈ ks
    · simp [h]
    · by_cases hj : j = k
      · simp [hj]
      · simp [h, hj, Ne.symm hj]

/-! ### Mapping the values -/

/-- Change every value in place by a function that keeps the key. -/
def mapValues (f : β → β) (hf : ∀ b, key (f b) = key b) (m : KeyedMap key) : KeyedMap key where
  toFinmap := ⟨m.toFinmap.entries.map fun x => ⟨x.1, f x.2⟩, by
    have h := Multiset.nodup_keys.2 m.toFinmap.nodupKeys
    refine Multiset.nodup_keys.1 ?_
    simpa [Multiset.keys, Multiset.map_map, Function.comp_def] using h⟩
  keyed k b h := by
    rw [Finmap.lookup_eq_some_iff] at h
    obtain ⟨⟨k', c⟩, hmem, heq⟩ := Multiset.mem_map.1 h
    cases heq
    rw [hf]
    exact m.keyed _ c (Finmap.lookup_eq_some_iff.2 hmem)

lemma get?_mapValues (f : β → β) (hf : ∀ b, key (f b) = key b) (m : KeyedMap key) (k : κ) :
    (m.mapValues f hf).get? k = (m.get? k).map f := by
  have hiff (b : β) : (m.mapValues f hf).get? k = some b ↔ ∃ c, m.get? k = some c ∧ f c = b := by
    simp only [get?, mapValues, Finmap.lookup_eq_some_iff, Multiset.mem_map]
    constructor
    · rintro ⟨⟨k', c⟩, hmem, heq⟩
      cases heq
      exact ⟨c, hmem, rfl⟩
    · rintro ⟨c, hmem, rfl⟩
      exact ⟨⟨k, c⟩, hmem, rfl⟩
  cases h : m.get? k with
  | none =>
    refine Option.eq_none_iff_forall_ne_some.2 fun b hb => ?_
    obtain ⟨c, hc, -⟩ := (hiff b).1 hb
    rw [h] at hc
    cases hc
  | some c => exact (hiff (f c)).2 ⟨c, h, rfl⟩

lemma values_mapValues (f : β → β) (hf : ∀ b, key (f b) = key b) (m : KeyedMap key) :
    (m.mapValues f hf).values = m.values.map f := by
  simp [values, mapValues, Multiset.map_map]

/-- Changing the values and collecting them is changing them in place. -/
lemma ofList_map_of_coe (f : β → β) (hf : ∀ b, key (f b) = key b) {m : KeyedMap key}
    {bs : List β} (h : (bs : Multiset β) = m.values) : ofList (bs.map f) = m.mapValues f hf := by
  refine ofList_of_coe ?_
  rw [values_mapValues, ← h, Multiset.map_coe]

/-! ### Listing the values in key order -/

section Sorted

variable (r : κ → κ → Prop) [DecidableRel r] [Std.Total r] [IsTrans κ r] [Std.Antisymm r]

/-- The keys in the order of `r`. -/
def sortedKeys (m : KeyedMap key) : List κ :=
  Quot.liftOn m.toFinmap.keys.val (List.insertionSort r) fun a b h =>
    List.Perm.eq_of_pairwise' (List.pairwise_insertionSort r a) (List.pairwise_insertionSort r b)
      ((List.perm_insertionSort r a).trans (h.trans (List.perm_insertionSort r b).symm))

lemma coe_sortedKeys (m : KeyedMap key) :
    (m.sortedKeys r : Multiset κ) = m.toFinmap.keys.val := by
  unfold sortedKeys
  induction m.toFinmap.keys.val using Quot.inductionOn with
  | h l => exact Multiset.coe_eq_coe.2 (List.perm_insertionSort r l)

/-- The values in the order of their keys: one order in which a hash map may list them. -/
def sortedValues (m : KeyedMap key) : List β := (m.sortedKeys r).filterMap m.get?

private lemma filterMap_congr_mem {α γ : Type*} {f g : α → Option γ} {s : Multiset α}
    (h : ∀ x ∈ s, f x = g x) : s.filterMap f = s.filterMap g := by
  induction s using Quotient.inductionOn with
  | h l => exact congrArg _ (List.filterMap_congr h)

lemma coe_sortedValues (m : KeyedMap key) : (m.sortedValues r : Multiset β) = m.values := by
  have hkeys : m.toFinmap.keys.val = m.toFinmap.entries.map Sigma.fst := rfl
  have hget : ∀ x ∈ m.toFinmap.entries, m.get? x.1 = some x.2 := fun x hx =>
    Finmap.lookup_eq_some_iff.2 hx
  calc (m.sortedValues r : Multiset β)
      = Multiset.filterMap m.get? (m.sortedKeys r : Multiset κ) := rfl
    _ = Multiset.filterMap (fun x : (_ : κ) × β => m.get? x.1) m.toFinmap.entries := by
        rw [coe_sortedKeys, hkeys, Multiset.filterMap_map]
        rfl
    _ = Multiset.filterMap (fun x : (_ : κ) × β => some x.2) m.toFinmap.entries :=
        filterMap_congr_mem hget
    _ = m.values := Multiset.filterMap_eq_map _ ▸ rfl

end Sorted

/-! ### Filling a map -/

/-- A map that is filled from a list with distinct keys has each element of the list. -/
lemma lookup_foldl_insert {α γ : Type*} {xs : List α} {k : α → κ} (v : α → γ)
    (hnodup : (xs.map k).Nodup) {x : α} (hx : x ∈ xs) (m : Finmap fun _ : κ => γ) :
    (xs.foldl (fun m x => m.insert (k x) (v x)) m).lookup (k x) = some (v x) := by
  induction xs using List.reverseRecOn with
  | nil => simp at hx
  | append_singleton xs last ih =>
    rw [List.foldl_append, List.foldl_cons, List.foldl_nil]
    rw [List.map_append, List.nodup_append] at hnodup
    rcases List.mem_append.1 hx with hmem | hmem
    · have hne : k x ≠ k last := hnodup.2.2 _ (List.mem_map_of_mem hmem) _ (by simp)
      rw [Finmap.lookup_insert_of_ne _ hne]
      exact ih hnodup.1 hmem
    · obtain rfl := List.mem_singleton.1 hmem
      rw [Finmap.lookup_insert]

end KeyedMap

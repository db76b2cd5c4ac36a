import BenoStreamDB.Query.Truncation

/-!
# The groups of a partitioned batch

`PartitionSpec::partition_batch` groups the rows of a batch by the vector of their partition values
and returns each group with a map from the names of the fields to the values. The map has one value
for fields of one name, so the groups are a partition exactly if such fields do not disagree.

Arithmetic is that of release builds, in which a sum does not panic; a remainder does in all builds.
-/

namespace BenoStreamDB

/-! ### Transforms that panic -/

namespace IcebergTransform

/-- The transform of these values panics: a remainder that cannot be computed, or a string that is
cut inside of a character. -/
def Panics : IcebergTransform → List (DataType × Cell) → Prop
  | .bucket n, _ :: _ => n = 0
  | .truncate w, (t, c) :: _ => match t, c with
    | .utf8, .string s | .largeUtf8, .string s | .utf8View, .string s =>
      ∀ n, byteLen (s.toList.take n) ≠ min w (byteLen s.toList)
    | .int32, .int i => ¬ Computes 32 (wrapSigned 32 w) i
    | .int64, .int i => ¬ Computes 64 w i
    | _, _ => False
  | _, _ => False

lemma byteSlice_eq_ok_iff {n : ℕ} {s : List Char} :
    (∃ p, byteSlice n s = .ok p) ↔ ∃ m, byteLen (s.take m) = min n (byteLen s) := by
  induction s generalizing n with
  | nil => cases n <;> simp [byteSlice, byteLen]
  | cons c s ih =>
    cases n with
    | zero =>
      refine iff_of_true ⟨[], rfl⟩ ⟨0, ?_⟩
      simp [byteLen]
    | succ n =>
      have hpos := c.utf8Size_pos
      by_cases hc : c.utf8Size ≤ n + 1
      · have hslice : (∃ p, byteSlice (n + 1) (c :: s) = .ok p) ↔
            ∃ p, byteSlice (n + 1 - c.utf8Size) s = .ok p := by
          simp only [byteSlice, hc, if_true]
          cases byteSlice (n + 1 - c.utf8Size) s <;> simp
        rw [hslice, ih]
        simp only [byteLen] at *
        constructor
        · rintro ⟨m, hm⟩
          refine ⟨m + 1, ?_⟩
          simp only [List.take_succ_cons, List.map_cons, List.sum_cons, hm]
          omega
        · rintro ⟨m, hm⟩
          cases m with
          | zero =>
            simp only [List.take_zero, List.map_nil, List.sum_nil, List.map_cons,
              List.sum_cons] at hm
            omega
          | succ m =>
            refine ⟨m, ?_⟩
            simp only [List.take_succ_cons, List.map_cons, List.sum_cons] at hm
            omega
      · refine iff_of_false (by simp [byteSlice, hc]) ?_
        rintro ⟨m, hm⟩
        cases m with
        | zero =>
          simp only [byteLen, List.take_zero, List.map_nil, List.sum_nil, List.map_cons,
            List.sum_cons] at hm
          omega
        | succ m =>
          simp only [byteLen, List.take_succ_cons, List.map_cons, List.sum_cons] at hm
          omega

lemma truncateInt_eq_ok_iff {bits : ℕ} {d i : ℤ} :
    (∃ v, truncateInt bits d i = .ok v) ↔ Computes bits d i :=
  ⟨fun ⟨_, h⟩ => computes_of_truncateInt h, fun h => ⟨_, truncateInt_of_computes h⟩⟩

lemma applyCells_eq_ok_iff (lib : TransformLib) (tr : IcebergTransform)
    (values : List (DataType × Cell)) :
    (∃ v, tr.applyCells lib values = .ok v) ↔ ¬ tr.Panics values := by
  cases values with
  | nil => cases tr <;> simp [applyCells, Panics]
  | cons value values =>
    obtain ⟨t, c⟩ := value
    cases tr with
    | bucket n => by_cases hn : n = 0 <;> simp [applyCells, Panics, hn]
    | truncate w =>
      have htext (s : String) : (∃ v, (fun p => Value.string (String.ofList p)) <$>
          byteSlice w s.toList = .ok v) ↔
          ∃ m, byteLen (s.toList.take m) = min w (byteLen s.toList) := by
        rw [← byteSlice_eq_ok_iff]
        cases byteSlice w s.toList <;> simp
      cases c with
      | string s => cases t <;> simp [applyCells, Panics, htext]
      | int i =>
        cases t <;> simp [applyCells, Panics, truncateInt_eq_ok_iff]
      | _ => cases t <;> simp [applyCells, Panics]
    | _ => simp [applyCells, Panics]

lemma applyMulti_eq_ok_iff (lib : TransformLib) (tr : IcebergTransform)
    (values : List (DataType × Option Cell)) :
    (∃ v, tr.applyMulti lib values = .ok v) ↔ (∃ value ∈ values, value.2 = none) ∨
      ¬ tr.Panics (values.filterMap fun tv => tv.2.map (tv.1, ·)) := by
  by_cases hnull : values.any (·.2.isNone) = true
  · have hmem : ∃ value ∈ values, value.2 = none := by simpa using hnull
    exact iff_of_true ⟨.null, by simp [applyMulti, hnull]⟩ (Or.inl hmem)
  · have hmem : ¬ ∃ value ∈ values, value.2 = none := by simpa using hnull
    rw [or_iff_right hmem, ← applyCells_eq_ok_iff lib, applyMulti, if_neg hnull]

end IcebergTransform

/-- The partition value of the row can be computed. -/
def PartitionField.Computes (cols : List BatchField) (row : Row) (field : PartitionField) : Prop :=
  (∃ col ∈ field.sourceColumns cols, row col.name = none) ∨
    ¬ (IcebergTransform.parse field.transform).Panics
      ((field.sourceColumns cols).filterMap fun col => (row col.name).map (col.type, ·))

lemma PartitionField.keyOf_eq_ok_iff {lib : TransformLib} {cols : List BatchField} {row : Row}
    {field : PartitionField} (hcols : field.sourceColumns cols ≠ []) :
    (∃ v, field.keyOf lib cols row = .ok v) ↔ field.Computes cols row := by
  have hempty : (field.sourceColumns cols).isEmpty = false := by simpa using hcols
  simp only [keyOf, hempty, Bool.false_eq_true, if_false,
    IcebergTransform.applyMulti_eq_ok_iff, List.filterMap_map, Computes]
  simp

namespace PartitionSpec

variable {lib : TransformLib} {cols : List BatchField} {spec : PartitionSpec} {batch : Batch}

/-! ### Keys -/

lemma keyOf_eq_ok_iff {row : Row} {fields : List PartitionField} :
    (∃ key, keyOf lib cols row fields = .ok key) ↔
      ∀ field ∈ fields, ∃ v, field.keyOf lib cols row = .ok v := by
  induction fields with
  | nil => simp [keyOf]
  | cons field fields ih =>
    rw [List.forall_mem_cons, ← ih]
    simp only [keyOf_cons_eq_ok]
    constructor
    · rintro ⟨-, v, vs, hv, hvs, -⟩
      exact ⟨⟨v, hv⟩, vs, hvs⟩
    · rintro ⟨⟨v, hv⟩, vs, hvs⟩
      exact ⟨v :: vs, v, vs, hv, hvs, rfl⟩

lemma length_keyOf {row : Row} {fields : List PartitionField} {key : List Value}
    (h : keyOf lib cols row fields = .ok key) : key.length = fields.length := by
  induction fields generalizing key with
  | nil =>
    obtain rfl : [] = key := by simpa [keyOf] using h
    rfl
  | cons field fields ih =>
    obtain ⟨v, vs, -, hvs, rfl⟩ := keyOf_cons_eq_ok.1 h
    simp [ih hvs]

lemma keyed_eq_ok_iff {rows : List Row} :
    (∃ pairs, spec.keyed lib cols rows = .ok pairs) ↔
      ∀ row ∈ rows, ∃ key, keyOf lib cols row spec.fields = .ok key := by
  induction rows with
  | nil => simp [keyed]
  | cons row rows ih =>
    rw [List.forall_mem_cons, ← ih]
    simp only [keyed_cons_eq_ok]
    constructor
    · rintro ⟨-, key, rest, hkey, hrest, -⟩
      exact ⟨⟨key, hkey⟩, rest, hrest⟩
    · rintro ⟨⟨key, hkey⟩, rest, hrest⟩
      exact ⟨(key, row) :: rest, key, rest, hkey, hrest, rfl⟩

/-- The rows are those of the batch, in their order. -/
lemma map_snd_keyed {rows : List Row} {pairs : List (List Value × Row)}
    (h : spec.keyed lib cols rows = .ok pairs) : pairs.map Prod.snd = rows := by
  induction rows generalizing pairs with
  | nil =>
    obtain rfl : [] = pairs := by simpa [keyed] using h
    rfl
  | cons row rows ih =>
    obtain ⟨key, rest, -, hrest, rfl⟩ := keyed_cons_eq_ok.1 h
    simp [ih hrest]

/-! ### The map of the values -/

/-- Fields of one name have the same value. -/
def Agrees (spec : PartitionSpec) (lib : TransformLib) (cols : List BatchField) (row : Row) :
    Prop :=
  ∀ field ∈ spec.fields, ∀ field' ∈ spec.fields, field.name = field'.name →
    field.keyOf lib cols row = field'.keyOf lib cols row

lemma lookup_valuesOf {row : Row} {key : List Value}
    (hkey : keyOf lib cols row spec.fields = .ok key) (hagrees : spec.Agrees lib cols row)
    {field : PartitionField} (hfield : field ∈ spec.fields) {v : Value}
    (hv : field.keyOf lib cols row = .ok v) :
    (valuesOf spec.fields key).lookup field.name = some v := by
  have hmem : field.name ∈ valuesOf spec.fields key :=
    (mem_valuesOf (length_keyOf hkey)).2 (List.mem_map_of_mem hfield)
  obtain ⟨w, hw⟩ := Finmap.mem_iff.1 hmem
  obtain ⟨field', hzip, hname⟩ := mem_zip_of_lookup_valuesOf hw
  have hw' := keyOf_of_mem_zip hkey hzip
  rw [hagrees field' (List.of_mem_zip hzip).1 field hfield hname, hv] at hw'
  rw [hw, Except.ok.inj hw']

/-- The map has the whole key. -/
lemma map_lookup_valuesOf {row : Row} {key : List Value}
    (hkey : keyOf lib cols row spec.fields = .ok key) (hagrees : spec.Agrees lib cols row) :
    spec.fields.map (fun field => (valuesOf spec.fields key).lookup field.name) =
      key.map some := by
  apply List.ext_getElem
  · simp [length_keyOf hkey]
  · intro n hn hn'
    rw [List.length_map] at hn hn'
    have hzip : (spec.fields[n], key[n]) ∈ spec.fields.zip key := by
      rw [← List.getElem_zip (h := by simpa using ⟨hn, hn'⟩)]
      exact List.getElem_mem _
    rw [List.getElem_map, List.getElem_map]
    exact lookup_valuesOf hkey hagrees (List.getElem_mem hn) (keyOf_of_mem_zip hkey hzip)

/-! ### The groups -/

/-- The groups are a partition of the rows of the batch: their values are distinct, each row is
assigned to one group, which has its rows in the order of the batch, and each row has the values of
its group. -/
structure IsPartition (spec : PartitionSpec) (lib : TransformLib) (batch : Batch)
    (groups : List (PartitionValues × List Row)) : Prop where
  distinct : (groups.map Prod.fst).Nodup
  rows : ∃ assign : ℕ → ℕ, (∀ i < batch.rows.length, assign i < groups.length) ∧
    ∀ g group, groups[g]? = some group →
      group.2 = (batch.rows.zipIdx.filter fun row => assign row.2 == g).map Prod.fst
  names : ∀ group ∈ groups, ∀ name, name ∈ group.1 ↔ name ∈ spec.fields.map PartitionField.name
  values : ∀ group ∈ groups, ∀ row ∈ group.2, ∀ field ∈ spec.fields,
    ∃ v, field.keyOf lib batch.fields row = .ok v ∧ group.1.lookup field.name = some v

/-- Filtering by a property of the position instead of the element. -/
lemma map_filter_eq_zipIdx {α β : Type} (f : α → β) {p : α → Bool} {q : ℕ → Bool} {l : List α}
    {k : ℕ} (h : ∀ i x, l[i]? = some x → q (k + i) = p x) :
    (l.filter p).map f = (((l.map f).zipIdx k).filter fun y => q y.2).map Prod.fst := by
  induction l generalizing k with
  | nil => simp
  | cons x l ih =>
    have hx : q k = p x := h 0 x rfl
    have hrest := ih (k := k + 1) fun i y hy => by
      rw [← h (i + 1) y (by simpa using hy)]
      congr 1
      omega
    cases hp : p x <;> simp [hp, hx, hrest]

/-- The group of a row is the place of its key among the distinct keys. -/
lemma rows_of_keyed {pairs : List (List Value × Row)} {g : ℕ} {key : List Value}
    (hkey : (pairs.map Prod.fst).dedup[g]? = some key) :
    (pairs.filter (·.1 == key)).map Prod.snd =
      ((pairs.map Prod.snd).zipIdx.filter fun row =>
        ((pairs.map Prod.fst)[row.2]?.elim 0 (pairs.map Prod.fst).dedup.idxOf) == g).map
          Prod.fst := by
  apply map_filter_eq_zipIdx Prod.snd (q := fun i =>
    ((pairs.map Prod.fst)[i]?.elim 0 (pairs.map Prod.fst).dedup.idxOf) == g)
  intro i pair hpair
  obtain ⟨hg, rfl⟩ := List.getElem?_eq_some_iff.1 hkey
  have hnodup := List.nodup_dedup (pairs.map Prod.fst)
  have hmem : pair.1 ∈ (pairs.map Prod.fst).dedup :=
    List.mem_dedup.2 (List.mem_map_of_mem (List.mem_of_getElem? hpair))
  simp only [Nat.zero_add, List.getElem?_map, hpair, Option.map_some, Option.elim_some]
  rw [Bool.eq_iff_iff, beq_iff_eq, beq_iff_eq]
  constructor
  · rintro rfl
    exact (List.getElem_idxOf _).symm
  · intro heq
    rw [heq, hnodup.idxOf_getElem]

/-- What `partition_batch` returns for a spec with fields. -/
lemma keyed_of_partitionBatch {groups : List (PartitionValues × List Row)}
    (hfields : ¬ spec.fields.isEmpty = true) (h : spec.partitionBatch lib batch = .ok groups) :
    ∃ pairs, spec.keyed lib batch.fields batch.rows = .ok pairs ∧
      (pairs.map Prod.fst).dedup.map (fun key =>
        (valuesOf spec.fields key, (pairs.filter (·.1 == key)).map Prod.snd)) = groups := by
  cases hpairs : spec.keyed lib batch.fields batch.rows with
  | error msg => simp [partitionBatch, hfields, hpairs, bind, Except.bind] at h
  | ok pairs =>
    exact ⟨pairs, rfl, by simpa [partitionBatch, hfields, hpairs, bind, Except.bind] using h⟩

lemma isPartition_of_agrees {groups : List (PartitionValues × List Row)}
    (h : spec.partitionBatch lib batch = .ok groups)
    (hagrees : ∀ row ∈ batch.rows, spec.Agrees lib batch.fields row) :
    spec.IsPartition lib batch groups := by
  by_cases hempty : spec.fields.isEmpty = true
  · obtain rfl : [(∅, batch.rows)] = groups := by simpa [partitionBatch, hempty] using h
    have hnil : spec.fields = [] := by simpa using hempty
    refine ⟨by simp, ⟨fun _ => 0, by simp, ?_⟩, by simp [hnil, Finmap.notMem_empty],
      by simp [hnil]⟩
    intro g group hgroup
    obtain ⟨rfl, rfl⟩ : g = 0 ∧ (∅, batch.rows) = group := by
      cases g with
      | zero => simpa using hgroup
      | succ g => simp at hgroup
    simp
  · obtain ⟨pairs, hpairs, hgroups⟩ := keyed_of_partitionBatch hempty h
    have hrow {key : List Value} (hkey : key ∈ (pairs.map Prod.fst).dedup) :
        ∃ row ∈ batch.rows, keyOf lib batch.fields row spec.fields = .ok key := by
      obtain ⟨⟨key, row⟩, hpair, rfl⟩ := List.mem_map.1 (List.mem_dedup.1 hkey)
      exact ⟨row, keyOf_of_mem_keyed hpairs hpair⟩
    subst hgroups
    refine ⟨?_, ?_, ?_, ?_⟩
    · -- the keys are distinct, and the map of a key has the whole key
      rw [List.map_map]
      refine (List.nodup_dedup _).map_on ?_
      intro key hkey key' hkey' heq
      obtain ⟨row, hmem, hk⟩ := hrow hkey
      obtain ⟨row', hmem', hk'⟩ := hrow hkey'
      have hlookup := map_lookup_valuesOf hk (hagrees row hmem)
      rw [show valuesOf spec.fields key = valuesOf spec.fields key' from heq,
        map_lookup_valuesOf hk' (hagrees row' hmem')] at hlookup
      exact (List.map_injective_iff.2 (Option.some_injective _) hlookup).symm
    · refine ⟨fun i => (pairs.map Prod.fst)[i]?.elim 0 (pairs.map Prod.fst).dedup.idxOf, ?_, ?_⟩
      · intro i hi
        rw [← map_snd_keyed hpairs, List.length_map] at hi
        have hmem : pairs[i].1 ∈ (pairs.map Prod.fst).dedup :=
          List.mem_dedup.2 (List.mem_map_of_mem (List.getElem_mem hi))
        simpa only [List.getElem?_map, List.getElem?_eq_getElem hi, List.length_map,
          Option.map_some, Option.elim_some] using List.idxOf_lt_length_of_mem hmem
      · intro g group hgroup
        rw [List.getElem?_map, Option.map_eq_some_iff] at hgroup
        obtain ⟨key, hkey, rfl⟩ := hgroup
        rw [← map_snd_keyed hpairs]
        exact rows_of_keyed hkey
    · intro group hgroup name
      obtain ⟨key, hkey, rfl⟩ := List.mem_map.1 hgroup
      obtain ⟨row, -, hk⟩ := hrow hkey
      exact mem_valuesOf (length_keyOf hk)
    · intro group hgroup row hmem field hfield
      obtain ⟨key, hkey, rfl⟩ := List.mem_map.1 hgroup
      obtain ⟨⟨key', row'⟩, hpair, rfl⟩ := List.mem_map.1 hmem
      obtain ⟨hpair', heq⟩ := List.mem_filter.1 hpair
      obtain rfl : key' = key := by simpa using heq
      obtain ⟨hbatch, hk⟩ := keyOf_of_mem_keyed hpairs hpair'
      obtain ⟨v, hv⟩ := keyOf_eq_ok_iff.1 ⟨_, hk⟩ field hfield
      exact ⟨v, hv, lookup_valuesOf hk (hagrees _ hbatch) hfield hv⟩

/-- A group has one value for each name, so fields that disagree on one of its rows have no place in
it. -/
lemma IsPartition.agrees {groups : List (PartitionValues × List Row)}
    (h : spec.IsPartition lib batch groups) :
    ∀ row ∈ batch.rows, spec.Agrees lib batch.fields row := by
  intro row hrow field hfield field' hfield' hname
  obtain ⟨assign, hassign, hrows⟩ := h.rows
  obtain ⟨i, hi, rfl⟩ := List.mem_iff_getElem.1 hrow
  obtain ⟨group, hgroup⟩ : ∃ group, groups[assign i]? = some group :=
    ⟨_, List.getElem?_eq_getElem (hassign i hi)⟩
  have hmem : batch.rows[i] ∈ group.2 := by
    rw [hrows _ _ hgroup]
    refine List.mem_map.2 ⟨(batch.rows[i], i), List.mem_filter.2 ⟨?_, by simp⟩, rfl⟩
    exact List.mk_mem_zipIdx_iff_getElem?.2 (List.getElem?_eq_getElem hi)
  have hgmem := List.mem_of_getElem? hgroup
  obtain ⟨v, hv, hlookup⟩ := h.values _ hgmem _ hmem field hfield
  obtain ⟨v', hv', hlookup'⟩ := h.values _ hgmem _ hmem field' hfield'
  rw [hname, hlookup'] at hlookup
  rw [hv, hv', Option.some.inj hlookup]

lemma partitionBatch_eq_ok_iff (hcols : ∀ field ∈ spec.fields,
    field.sourceColumns batch.fields ≠ []) :
    (∃ groups, spec.partitionBatch lib batch = .ok groups) ↔
      ∀ row ∈ batch.rows, ∀ field ∈ spec.fields, field.Computes batch.fields row := by
  have hkeyed : (∃ pairs, spec.keyed lib batch.fields batch.rows = .ok pairs) ↔
      ∀ row ∈ batch.rows, ∀ field ∈ spec.fields, field.Computes batch.fields row := by
    rw [keyed_eq_ok_iff]
    refine forall₂_congr fun row _ => ?_
    rw [keyOf_eq_ok_iff]
    exact forall₂_congr fun field hfield => PartitionField.keyOf_eq_ok_iff (hcols field hfield)
  rw [← hkeyed]
  by_cases hempty : spec.fields.isEmpty = true
  · have hnil : spec.fields = [] := by simpa using hempty
    refine iff_of_true ⟨_, by rw [partitionBatch, if_pos hempty]⟩ (hkeyed.2 ?_)
    simp [hnil]
  · rw [partitionBatch, if_neg hempty]
    cases spec.keyed lib batch.fields batch.rows <;> simp [bind, Except.bind]

/-- `partition_batch` returns a partition of the rows exactly if no transform panics on a row and
fields of one name give the same value. -/
theorem isPartition_iff (spec : PartitionSpec) (lib : TransformLib) (batch : Batch)
    (hcols : ∀ field ∈ spec.fields, field.sourceColumns batch.fields ≠ []) :
    (∃ groups, spec.partitionBatch lib batch = .ok groups ∧ spec.IsPartition lib batch groups) ↔
      ∀ row ∈ batch.rows, (∀ field ∈ spec.fields, field.Computes batch.fields row) ∧
        spec.Agrees lib batch.fields row := by
  constructor
  · rintro ⟨groups, hgroups, hpartition⟩ row hrow
    exact ⟨(partitionBatch_eq_ok_iff hcols).1 ⟨groups, hgroups⟩ row hrow,
      hpartition.agrees row hrow⟩
  · intro h
    obtain ⟨groups, hgroups⟩ : ∃ groups, spec.partitionBatch lib batch = .ok groups :=
      (partitionBatch_eq_ok_iff hcols).2 fun row hrow => (h row hrow).1
    exact ⟨groups, hgroups, isPartition_of_agrees hgroups fun row hrow => (h row hrow).2⟩

/-! ### Examples -/

def wordRow (word name : String) : Option Cell :=
  if name = "category" then some (.string word) else none

lemma eq_of_wordRow {word name : String} {c : Cell} (h : wordRow word name = some c) :
    name = "category" ∧ .string word = c := by
  by_cases hname : name = "category"
  · exact ⟨hname, by simpa [wordRow, hname] using h⟩
  · simp [wordRow, hname] at h

def wordFields : List BatchField := [{ name := "category", type := .utf8 }]

lemma nodup_wordFields : (wordFields.map BatchField.name).Nodup := by simp [wordFields]

lemma typed_wordRow (words : List String) : ∀ row ∈ words.map wordRow, ∀ f ∈ wordFields,
    ∀ c, row f.name = some c → f.type.Holds c := by
  intro row hrow col hcol c hc
  obtain ⟨word, -, rfl⟩ := List.mem_map.1 hrow
  obtain rfl := List.mem_singleton.1 hcol
  obtain ⟨-, rfl⟩ := eq_of_wordRow hc
  trivial

lemma closed_wordRow (words : List String) : ∀ row ∈ words.map wordRow, ∀ name,
    (∀ f ∈ wordFields, f.name ≠ name) → row name = none := by
  intro row hrow name hname
  obtain ⟨word, -, rfl⟩ := List.mem_map.1 hrow
  by_contra hsome
  obtain ⟨c, hc⟩ := Option.ne_none_iff_exists'.1 hsome
  exact hname _ List.mem_cons_self (eq_of_wordRow hc).1.symm

/-- A batch with the column `category`. -/
def wordBatch (words : List String) : Batch where
  fields := wordFields
  rows := words.map wordRow
  distinct := nodup_wordFields
  typed := typed_wordRow words
  closed := closed_wordRow words

theorem isPartition_iff_words :
    ∃ groups, (categorySpec "identity").partitionBatch noDatesLib (wordBatch ["a", "b", "a"]) =
        .ok groups ∧
      (categorySpec "identity").IsPartition noDatesLib (wordBatch ["a", "b", "a"]) groups := by
  have hparse : IcebergTransform.parse "identity" = .identity := by decide
  refine (isPartition_iff (categorySpec "identity") noDatesLib (wordBatch ["a", "b", "a"]) ?_).2 ?_
  · intro field hfield
    obtain rfl := List.mem_singleton.1 hfield
    simp [PartitionField.sourceColumns, wordBatch, wordFields]
  · intro row hrow
    constructor
    · intro field hfield
      obtain rfl := List.mem_singleton.1 hfield
      right
      rw [hparse]
      exact id
    · intro field hfield field' hfield' hname
      rw [List.mem_singleton.1 hfield, List.mem_singleton.1 hfield']

/-- Two fields with the name `category`, the second of which is void. -/
def doubledSpec : PartitionSpec where
  fields := [⟨[1], none, none, "category", "identity"⟩, ⟨[1], none, none, "category", "void"⟩]

/-- The two words are in groups with the same map, which has only the value of the second field. -/
theorem not_isPartition_doubledSpec :
    ¬ ∃ groups, doubledSpec.partitionBatch noDatesLib (wordBatch ["a", "b"]) = .ok groups ∧
      doubledSpec.IsPartition noDatesLib (wordBatch ["a", "b"]) groups := by
  rintro ⟨groups, -, hpartition⟩
  have hagrees := hpartition.agrees (wordRow "a") (by simp [wordBatch])
    ⟨[1], none, none, "category", "identity"⟩ (by simp [doubledSpec])
    ⟨[1], none, none, "category", "void"⟩ (by simp [doubledSpec]) rfl
  have hidentity : IcebergTransform.parse "identity" = .identity := by decide
  have hvoid : IcebergTransform.parse "void" = .void := by decide
  simp [PartitionField.keyOf, PartitionField.sourceColumns, wordBatch, wordFields, wordRow,
    hidentity, hvoid, IcebergTransform.applyCells] at hagrees

end PartitionSpec

end BenoStreamDB

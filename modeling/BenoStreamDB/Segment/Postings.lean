import BenoStreamDB.Query.Values

/-!
# Inverted indexes

The data of an inverted index: for each key the ids of the rows that carry it, stored as
differences. `build_inverted_index` makes them in three ways: by sorting the rows of a batch, with a
hash map over the rows of a batch, and for texts from a buffer of tokens of the whole segment.
-/

namespace BenoStreamDB

/-- The arithmetic of `u32`, which row ids have. -/
def u32 (n : ℕ) : ℕ := n % 2 ^ 32

lemma u32_lt (n : ℕ) : u32 n < 2 ^ 32 := Nat.mod_lt _ (by norm_num)

lemma u32_of_lt {n : ℕ} (h : n < 2 ^ 32) : u32 n = n := Nat.mod_eq_of_lt h

/-! ### Differences -/

/-- Each id without the one before it. -/
def deltas (last : ℕ) : List ℕ → List ℕ
  | [] => []
  | r :: rs => u32 (r + 2 ^ 32 - last) :: deltas r rs

/-- The ids of a list of differences, as the reader sums them up. -/
def undelta (last : ℕ) : List ℕ → List ℕ
  | [] => []
  | d :: ds => u32 (last + d) :: undelta (u32 (last + d)) ds

lemma undelta_deltas {last : ℕ} {rs : List ℕ} (hlast : last < 2 ^ 32) (h : ∀ r ∈ rs, r < 2 ^ 32) :
    undelta last (deltas last rs) = rs := by
  induction rs generalizing last with
  | nil => rfl
  | cons r rs ih =>
    have hr := h r List.mem_cons_self
    have hsum : u32 (last + u32 (r + 2 ^ 32 - last)) = r := by
      simp only [u32]
      omega
    rw [deltas, undelta, hsum, ih hr fun r' hr' => h r' (List.mem_cons_of_mem _ hr')]

/-! ### Indexes -/

/-- An entry of an inverted index; only texts have positions. -/
structure InvertedEntry where
  key : Cell
  rowIds : List ℕ
  positions : List (List ℕ) := []
  deriving DecidableEq

abbrev InvertedIndex := List InvertedEntry

/-- The ids of the rows of an entry. -/
def InvertedEntry.decode (e : InvertedEntry) : List ℕ := undelta 0 e.rowIds

/-- The rows that an index has for a key. -/
def InvertedIndex.rows (idx : InvertedIndex) (key : Cell) : List ℕ :=
  idx.flatMap fun e => if e.key = key then e.decode else []

lemma InvertedIndex.mem_rows {idx : InvertedIndex} {key : Cell} {i : ℕ} :
    i ∈ idx.rows key ↔ ∃ e ∈ idx, e.key = key ∧ i ∈ e.decode := by
  simp only [InvertedIndex.rows, List.mem_flatMap]
  constructor
  · rintro ⟨e, he, hi⟩
    by_cases hkey : e.key = key
    · exact ⟨e, he, hkey, by simpa [hkey] using hi⟩
    · simp [hkey] at hi
  · rintro ⟨e, he, hkey, hi⟩
    exact ⟨e, he, by simpa [hkey] using hi⟩

/-- The entry of a key with the given rows. -/
def InvertedEntry.ofRows (key : Cell) (rows : List ℕ) : InvertedEntry := ⟨key, deltas 0 rows, []⟩

lemma InvertedEntry.decode_ofRows {key : Cell} {rows : List ℕ} (h : ∀ r ∈ rows, r < 2 ^ 32) :
    (InvertedEntry.ofRows key rows).decode = rows := undelta_deltas (by norm_num) h

/-! ### By sorting -/

/-- The state of the loop over the sorted rows. -/
structure GroupState where
  out : InvertedIndex := []
  current : Option Cell := none
  rows : List ℕ := []

namespace GroupState

/-- The entry of the current value is written. -/
def flush (st : GroupState) : InvertedIndex :=
  match st.current with
  | none => st.out
  | some v => st.out ++ [.ofRows v (st.rows.mergeSort)]

def visit (values : List (Option Cell)) (st : GroupState) (i : ℕ) : GroupState :=
  match values[i]?.join with
  | none => st
  | some v =>
    if st.current = some v then { st with rows := st.rows ++ [u32 i] }
    else { out := st.flush, current := some v, rows := [u32 i] }

variable {values : List (Option Cell)} {st : GroupState} {i r : ℕ} {k : Cell}

/-- The rows of the state are ids. -/
def Fits (st : GroupState) : Prop := ∀ r ∈ st.rows, r < 2 ^ 32

lemma fits_visit (h : st.Fits) : (st.visit values i).Fits := by
  unfold visit
  cases values[i]?.join with
  | none => exact h
  | some v =>
    dsimp only
    split_ifs
    · intro r hr
      rcases List.mem_append.1 hr with hr | hr
      · exact h r hr
      · rw [List.mem_singleton.1 hr]
        exact u32_lt i
    · intro r hr
      rw [List.mem_singleton.1 hr]
      exact u32_lt i

lemma mem_rows_flush (h : st.Fits) : r ∈ st.flush.rows k ↔
    r ∈ st.out.rows k ∨ (st.current = some k ∧ r ∈ st.rows) := by
  cases hcur : st.current with
  | none => simp [flush, hcur]
  | some v =>
    have hdecode : (InvertedEntry.ofRows v (st.rows.mergeSort)).decode = st.rows.mergeSort :=
      InvertedEntry.decode_ofRows fun r hr => h r (List.mem_mergeSort.1 hr)
    simp only [flush, hcur, InvertedIndex.mem_rows, List.mem_append, List.mem_singleton,
      Option.some.injEq]
    constructor
    · rintro ⟨e, he | rfl, hkey, hr⟩
      · exact Or.inl ⟨e, he, hkey, hr⟩
      · rw [hdecode, List.mem_mergeSort] at hr
        exact Or.inr ⟨hkey, hr⟩
    · rintro (⟨e, he, hkey, hr⟩ | ⟨rfl, hr⟩)
      · exact ⟨e, Or.inl he, hkey, hr⟩
      · exact ⟨_, Or.inr rfl, rfl, by rwa [hdecode, List.mem_mergeSort]⟩

/-- One step adds the row to the rows of its value. -/
lemma mem_rows_flush_visit (h : st.Fits) : r ∈ (st.visit values i).flush.rows k ↔
    r ∈ st.flush.rows k ∨ (values[i]?.join = some k ∧ r = u32 i) := by
  rw [mem_rows_flush (fits_visit h)]
  cases hv : values[i]?.join with
  | none => simp [visit, hv, mem_rows_flush h]
  | some v =>
    by_cases hcur : st.current = some v
    · simp only [visit, hv, hcur, if_true, mem_rows_flush h, List.mem_append, List.mem_singleton]
      tauto
    · simp only [visit, hv, hcur, if_false, List.mem_singleton, Option.some.injEq]

end GroupState

/-- The arms that sort the rows of a batch: `indices` are the rows in the order of their values. -/
def sortedIndex (indices : List ℕ) (values : List (Option Cell)) : InvertedIndex :=
  (indices.foldl (GroupState.visit values) {}).flush

lemma mem_rows_sortedIndex {indices : List ℕ} {values : List (Option Cell)} {r : ℕ} {k : Cell} :
    r ∈ (sortedIndex indices values).rows k ↔
      ∃ i ∈ indices, values[i]?.join = some k ∧ r = u32 i := by
  suffices hfold : ∀ st : GroupState, st.Fits →
      (r ∈ (indices.foldl (GroupState.visit values) st).flush.rows k ↔
        r ∈ st.flush.rows k ∨ ∃ i ∈ indices, values[i]?.join = some k ∧ r = u32 i) by
    rw [sortedIndex, hfold {} (by intro r hr; simp at hr)]
    simp [GroupState.flush, InvertedIndex.rows]
  induction indices with
  | nil => simp
  | cons i indices ih =>
    intro st hst
    rw [List.foldl_cons, ih _ (GroupState.fits_visit hst), GroupState.mem_rows_flush_visit hst]
    simp only [List.mem_cons, exists_eq_or_imp, or_assoc]

/-! ### With a hash map -/

/-- The rows of a batch that have the value. -/
def rowsOf (values : List (Option Cell)) (k : Cell) : List ℕ :=
  ((List.range values.length).filter fun i => values[i]?.join == some k).map u32

/-- The arms that fill a hash map with the rows of a batch; it is iterated in any order. -/
def hashedIndex (values : List (Option Cell)) : InvertedIndex :=
  (values.filterMap id).dedup.map fun k => .ofRows k (rowsOf values k)

lemma mem_rowsOf {values : List (Option Cell)} {k : Cell} {r : ℕ} :
    r ∈ rowsOf values k ↔ ∃ i < values.length, values[i]?.join = some k ∧ r = u32 i := by
  simp only [rowsOf, List.mem_map, List.mem_filter, List.mem_range, beq_iff_eq]
  constructor
  · rintro ⟨i, ⟨hi, hk⟩, rfl⟩
    exact ⟨i, hi, hk, rfl⟩
  · rintro ⟨i, hi, hk, rfl⟩
    exact ⟨i, ⟨hi, hk⟩, rfl⟩

lemma mem_rows_hashedIndex {values : List (Option Cell)} {r : ℕ} {k : Cell} :
    r ∈ (hashedIndex values).rows k ↔
      ∃ i < values.length, values[i]?.join = some k ∧ r = u32 i := by
  have hdecode (k : Cell) :
      (InvertedEntry.ofRows k (rowsOf values k)).decode = rowsOf values k := by
    apply InvertedEntry.decode_ofRows
    intro r hr
    obtain ⟨i, -, -, rfl⟩ := mem_rowsOf.1 hr
    exact u32_lt i
  rw [InvertedIndex.mem_rows, ← mem_rowsOf]
  constructor
  · rintro ⟨e, he, hkey, hr⟩
    obtain ⟨k', -, rfl⟩ := List.mem_map.1 he
    obtain rfl : k' = k := hkey
    rwa [hdecode] at hr
  · intro hr
    obtain ⟨i, hi, hk, -⟩ := mem_rowsOf.1 hr
    have hmem : some k ∈ values := by
      rw [Option.join_eq_some_iff] at hk
      exact List.mem_of_getElem? hk
    refine ⟨_, List.mem_map.2 ⟨k, List.mem_dedup.2 ?_, rfl⟩, rfl, by rwa [hdecode]⟩
    exact List.mem_filterMap.2 ⟨some k, hmem, rfl⟩

/-! ### From tokens -/

/-- A token of a row, with its position in the text. -/
structure Posting where
  token : Cell
  row : ℕ
  position : ℕ
  deriving DecidableEq

/-- The postings of consecutive rows, the first of which has the number `offset`. -/
def postings (tokens : Option Cell → List Cell) : ℕ → List (Option Cell) → List Posting
  | _, [] => []
  | offset, v :: values =>
    ((tokens v).zipIdx.map fun tp => ⟨tp.1, u32 offset, u32 tp.2⟩) ++
      postings tokens (offset + 1) values

lemma postings_append (tokens : Option Cell → List Cell) (offset : ℕ)
    (values values' : List (Option Cell)) :
    postings tokens offset (values ++ values') =
      postings tokens offset values ++ postings tokens (offset + values.length) values' := by
  induction values generalizing offset with
  | nil => simp [postings]
  | cons v values ih =>
    simp only [List.cons_append, postings, ih, List.append_assoc, List.length_cons,
      Nat.add_assoc, Nat.add_comm 1]

lemma exists_posting_iff {tokens : Option Cell → List Cell} {offset : ℕ}
    {values : List (Option Cell)} {r : ℕ} {k : Cell} :
    (∃ p ∈ postings tokens offset values, p.token = k ∧ p.row = r) ↔
      ∃ i v, values[i]? = some v ∧ k ∈ tokens v ∧ r = u32 (offset + i) := by
  induction values generalizing offset with
  | nil => simp [postings]
  | cons v values ih =>
    have hhead : (∃ p ∈ (tokens v).zipIdx.map (fun tp => Posting.mk tp.1 (u32 offset) (u32 tp.2)),
        p.token = k ∧ p.row = r) ↔ k ∈ tokens v ∧ r = u32 offset := by
      constructor
      · rintro ⟨p, hp, rfl, rfl⟩
        obtain ⟨tp, htp, rfl⟩ := List.mem_map.1 hp
        exact ⟨List.fst_mem_of_mem_zipIdx htp, rfl⟩
      · rintro ⟨hk, rfl⟩
        obtain ⟨j, hj⟩ := List.mem_iff_getElem?.1 hk
        exact ⟨_, List.mem_map.2 ⟨(k, j), List.mk_mem_zipIdx_iff_getElem?.2 hj, rfl⟩, rfl, rfl⟩
    simp only [postings, List.mem_append, or_and_right, exists_or, ih]
    rw [hhead]
    constructor
    · rintro (⟨hk, rfl⟩ | ⟨i, w, hi, hk, rfl⟩)
      · exact ⟨0, v, rfl, hk, rfl⟩
      · exact ⟨i + 1, w, hi, hk, by rw [Nat.add_assoc, Nat.add_comm 1]⟩
    · rintro ⟨i, w, hi, hk, rfl⟩
      cases i with
      | zero =>
        obtain rfl : v = w := by simpa using hi
        exact Or.inl ⟨hk, rfl⟩
      | succ i => exact Or.inr ⟨i, w, hi, hk, by rw [Nat.add_assoc, Nat.add_comm 1]⟩

/-- One posting is added to the rows of a token: the positions of one row stand together. -/
def addDoc (docs : List (ℕ × List ℕ)) (p : ℕ × ℕ) : List (ℕ × List ℕ) :=
  match docs.getLast? with
  | some (row, positions) =>
    if row = p.1 then docs.dropLast ++ [(row, positions ++ [p.2])] else docs ++ [(p.1, [p.2])]
  | none => docs ++ [(p.1, [p.2])]

lemma mem_map_fst_addDoc {docs : List (ℕ × List ℕ)} {p : ℕ × ℕ} {r : ℕ} :
    r ∈ (addDoc docs p).map Prod.fst ↔ r ∈ docs.map Prod.fst ∨ r = p.1 := by
  cases hlast : docs.getLast? with
  | none => simp [addDoc, hlast]
  | some d =>
    by_cases hrow : d.1 = p.1
    · obtain ⟨init, rfl⟩ : ∃ init, docs = init ++ [d] := List.getLast?_eq_some_iff.1 hlast
      simp only [addDoc, hlast, hrow, if_true, List.dropLast_concat, List.map_append, List.map_cons,
        List.map_nil, List.mem_append, List.mem_singleton]
      tauto
    · simp [addDoc, hlast, hrow]

lemma mem_map_fst_foldl_addDoc {ps : List (ℕ × ℕ)} {docs : List (ℕ × List ℕ)} {r : ℕ} :
    r ∈ (ps.foldl addDoc docs).map Prod.fst ↔ r ∈ docs.map Prod.fst ∨ r ∈ ps.map Prod.fst := by
  induction ps generalizing docs with
  | nil => simp
  | cons p ps ih =>
    rw [List.foldl_cons, ih, mem_map_fst_addDoc, List.map_cons, List.mem_cons, or_assoc]

/-- The entry that `finish_indexing` makes of the postings of a token. -/
def tokenEntry (buffer : List Posting) (token : Cell) : InvertedEntry :=
  let ps := (buffer.filter (·.token = token)).map fun p => toLex (p.row, p.position)
  let docs := (ps.mergeSort.map ofLex).foldl addDoc []
  ⟨token, deltas 0 (docs.map Prod.fst), docs.map Prod.snd⟩

/-- The index of a text column, from the tokens of the whole segment. -/
def textIndex (buffer : List Posting) : InvertedIndex :=
  (buffer.map Posting.token).dedup.map (tokenEntry buffer)

lemma mem_decode_tokenEntry {buffer : List Posting} {token : Cell} {r : ℕ}
    (h : ∀ p ∈ buffer, p.row < 2 ^ 32) :
    r ∈ (tokenEntry buffer token).decode ↔ ∃ p ∈ buffer, p.token = token ∧ p.row = r := by
  have hrows : ∀ r, r ∈ (((((buffer.filter (·.token = token)).map fun p =>
      toLex (p.row, p.position)).mergeSort.map ofLex).foldl addDoc []).map Prod.fst) ↔
        ∃ p ∈ buffer, p.token = token ∧ p.row = r := by
    intro r
    rw [mem_map_fst_foldl_addDoc]
    simp only [List.map_nil, List.not_mem_nil, false_or, List.mem_map, List.mem_mergeSort,
      List.mem_filter, decide_eq_true_eq, exists_exists_and_eq_and, and_assoc]
    constructor
    · rintro ⟨_, ⟨p, hp, hk, rfl⟩, hr⟩
      exact ⟨p, hp, hk, hr⟩
    · rintro ⟨p, hp, hk, hr⟩
      exact ⟨_, ⟨p, hp, hk, rfl⟩, hr⟩
  rw [tokenEntry, InvertedEntry.decode, undelta_deltas (by norm_num), hrows]
  intro r hr
  obtain ⟨p, hp, -, rfl⟩ := (hrows r).1 hr
  exact h p hp

lemma mem_rows_textIndex {buffer : List Posting} {r : ℕ} {k : Cell}
    (h : ∀ p ∈ buffer, p.row < 2 ^ 32) :
    r ∈ (textIndex buffer).rows k ↔ ∃ p ∈ buffer, p.token = k ∧ p.row = r := by
  rw [InvertedIndex.mem_rows]
  constructor
  · rintro ⟨e, he, rfl, hr⟩
    obtain ⟨token, -, rfl⟩ := List.mem_map.1 he
    exact (mem_decode_tokenEntry h).1 hr
  · rintro ⟨p, hp, rfl, hr⟩
    refine ⟨_, List.mem_map.2 ⟨p.token, List.mem_dedup.2 (List.mem_map_of_mem hp), rfl⟩, rfl, ?_⟩
    exact (mem_decode_tokenEntry h).2 ⟨p, hp, rfl, hr⟩

lemma row_lt_of_mem_postings {tokens : Option Cell → List Cell} {offset : ℕ}
    {values : List (Option Cell)} {p : Posting} (hp : p ∈ postings tokens offset values) :
    p.row < 2 ^ 32 := by
  obtain ⟨i, v, -, -, hrow⟩ := exists_posting_iff.1 ⟨p, hp, rfl, rfl⟩
  rw [hrow]
  exact u32_lt _

/-! ### Columns -/

/-- How `build_inverted_index` treats a column. -/
inductive IndexArm where
  | text
  | sorted
  | hashed
  | skipped
  deriving DecidableEq

def DataType.indexArm : DataType → IndexArm
  | .utf8 | .largeUtf8 => .text
  | .int32 | .int64 | .float64 => .sorted
  | .float32 | .date32 | .timestamp _ | .boolean | .time32 _ | .time64 _ | .binary | .largeBinary
  | .decimal128 _ => .hashed
  | _ => .skipped

def TimeUnit.ticksPerDay : TimeUnit → ℤ
  | .second => 86400
  | .millisecond => 86400000
  | .microsecond => 86400000000
  | .nanosecond => 86400000000000

/-- The key of a value; timestamps are cut to days. -/
def Cell.indexKey : Cell → Cell
  | .temporal (.timestamp u) i => .temporal .date32 (wrapSigned 32 (i.tdiv u.ticksPerDay))
  | c => c

structure IndexedColumn where
  name : Path
  type : DataType
  tokenizer : String → List String
  /-- The paths of the first JSON-path index that is configured for the column. -/
  jsonPaths : List String := []

namespace IndexedColumn

variable (col : IndexedColumn)

def arm : IndexArm := col.type.indexArm

/-- The keys of a value: its tokens, or the value itself. -/
def keys : Option Cell → List Cell
  | none => []
  | some c =>
    match col.arm, c with
    | .text, .string s => (col.tokenizer s).map .string
    | .sorted, c | .hashed, c => [c.indexKey]
    | _, _ => []

end IndexedColumn

end BenoStreamDB

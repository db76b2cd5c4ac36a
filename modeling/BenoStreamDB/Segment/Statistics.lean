import BenoStreamDB.Query.Pruning
import BenoStreamDB.Segment.Parquet

/-!
# Recorded column statistics

`write_batch` hands a batch to the Parquet writer, which cuts it into row groups, and
`merge_parquet_stats` takes the statistics of the manifest entry from the first row group.

The Parquet writer is third-party code: `ParquetWriter` says what is known of its statistics.
-/

namespace BenoStreamDB

/-! ### Merging -/

def PhysicalValue.toManifestValue : PhysicalValue → Option ManifestValue
  | .int32 i => some (.int32 i)
  | .int64 i => some (.int64 i)
  | .float x => some (.float32 x)
  | .double x => some (.float64 x)
  | .byteArray bytes => (fromUtf8 bytes).map .string
  | .boolean b => some (.boolean b)
  | .fixedLenByteArray _ => none

def PhysicalValue.isByteArray : PhysicalValue → Bool
  | .byteArray _ => true
  | _ => false

/-- The statistics of one column; byte arrays are taken only if both bounds are there. -/
def ColumnStats.ofParquet : Option ParquetStats → ColumnStats
  | none => {}
  | some s =>
    let nullCount := ((s.nullCount.getD 0 : ℕ) : ℤ)
    let bytes := s.min.any PhysicalValue.isByteArray || s.max.any PhysicalValue.isByteArray
    if bytes && !(s.min.isSome && s.max.isSome) then { nullCount := nullCount }
    else
      { min := s.min.bind PhysicalValue.toManifestValue
        max := s.max.bind PhysicalValue.toManifestValue
        nullCount := nullCount }

/-- The columns of a row group, in order, with their statistics. -/
abbrev ChunkMeta := List (String × Option ParquetStats)

/-- `merge_parquet_stats` -/
def mergeParquetStats (rowGroups : List ChunkMeta) (stats : Finmap fun _ : String => ColumnStats) :
    Finmap fun _ : String => ColumnStats :=
  match rowGroups.head? with
  | none => stats
  | some rg => rg.foldl (fun m col => m.insert col.1 (.ofParquet col.2)) stats

/-! ### Writing -/

def Cell.isNaN : Cell → Bool
  | .float x => x.isNaN
  | _ => false

/-- What the Parquet writer documents about the statistics of a column chunk: NULLs are counted,
NaNs are left out, and the bounds enclose the other values. They need not be values of the chunk,
since long texts are cut. -/
structure ParquetWriter where
  bounds : DataType → List (Option Cell) → Option (Cell × Cell)
  encode : DataType → Cell → PhysicalValue
  encodes : ∀ {t c}, t.Holds c → (encode t c).Encodes t c
  holds : ∀ {t cells lo hi}, (∀ c, some c ∈ cells → t.Holds c) → bounds t cells = some (lo, hi) →
    t.Holds lo ∧ t.Holds hi
  notNaN : ∀ {t cells lo hi}, bounds t cells = some (lo, hi) → lo.isNaN = false ∧ hi.isNaN = false
  encloses : ∀ {t cells lo hi}, (∀ c, some c ∈ cells → t.Holds c) →
    bounds t cells = some (lo, hi) → ∀ c, some c ∈ cells → c.isNaN = false → lo.Le c ∧ c.Le hi
  nonempty : ∀ {t cells lo hi}, bounds t cells = some (lo, hi) → ∃ c, some c ∈ cells

/-- The default of `WriterProperties::max_row_group_size`, which `write_batch` keeps. -/
def maxRowGroupSize : ℕ := 1024 * 1024

/-- The row groups of a file. -/
def rowGroups {α : Type} (rows : List α) : List (List α) :=
  (List.range ((rows.length + maxRowGroupSize - 1) / maxRowGroupSize)).map fun k =>
    (rows.drop (k * maxRowGroupSize)).take maxRowGroupSize

@[simp] lemma rowGroups_nil {α : Type} : rowGroups ([] : List α) = [] := by
  have hzero : (0 + maxRowGroupSize - 1) / maxRowGroupSize = 0 := by decide
  rw [rowGroups, List.length_nil, hzero]
  rfl

lemma head?_rowGroups {α : Type} {rows : List α} (h : rows ≠ []) :
    (rowGroups rows).head? = some (rows.take maxRowGroupSize) := by
  have hlen := List.length_pos_of_ne_nil h
  obtain ⟨k, hk⟩ : ∃ k, (rows.length + maxRowGroupSize - 1) / maxRowGroupSize = k + 1 := by
    refine Nat.exists_eq_add_one_of_ne_zero (Nat.pos_iff_ne_zero.1 (Nat.div_pos ?_ (by decide)))
    omega
  simp [rowGroups, hk, List.range_succ_eq_map]

namespace ParquetWriter

variable (w : ParquetWriter)

def statistics (t : DataType) (cells : List (Option Cell)) : ParquetStats where
  min := (w.bounds t cells).map fun b => w.encode t b.1
  max := (w.bounds t cells).map fun b => w.encode t b.2
  nullCount := some (cells.count none)

/-- The metadata of the file of a batch. -/
def metadata (batch : Batch) : List ChunkMeta :=
  (rowGroups batch.rows).map fun rows => batch.fields.map fun col =>
    (col.name, some (w.statistics col.type (rows.map fun row => row col.name)))

end ParquetWriter

/-- `write_batch`, as far as the statistics of the manifest entry are concerned. -/
def writeBatch (w : ParquetWriter) (batch : Batch) : Finmap fun _ : String => ColumnStats :=
  mergeParquetStats (w.metadata batch) ∅

/-! ### What a recorded value says -/

/-- The value of the column that a recorded bound stands for; a binary column has its bounds
recorded as texts. -/
def ManifestValue.read : DataType → ManifestValue → Option Cell
  | .binary, .string s | .largeBinary, .string s => some (.bytes s.toUTF8.data.toList)
  | t, m => m.toCell t

/-- The statistics describe all values of the column. -/
structure ColumnStats.Encloses (t : DataType) (s : ColumnStats) (cells : List (Option Cell)) :
    Prop where
  min : ∀ m, s.min = some m → ∃ d, m.read t = some d ∧ ∀ c, some c ∈ cells → d.Le c
  max : ∀ m, s.max = some m → ∃ d, m.read t = some d ∧ ∀ c, some c ∈ cells → c.Le d
  nullCount : s.nullCount = cells.count none

/-- The number at which an unsigned integer that is stored as a signed one becomes negative. -/
def DataType.signBit : DataType → Option ℤ
  | .uint32 => some (2 ^ 31)
  | .uint64 => some (2 ^ 63)
  | _ => none

/-- The value is not an unsigned integer that reads as a negative one. -/
def Cell.KeepsSign (t : DataType) (c : Cell) : Prop :=
  ∀ i b, c = .int i → t.signBit = some b → i < b

lemma fromUtf8_eq_some {bytes : List UInt8} {s : String} (h : fromUtf8 bytes = some s) :
    s.toUTF8.data.toList = bytes := by
  rw [fromUtf8, String.fromUTF8?] at h
  split_ifs at h with hvalid
  obtain rfl := Option.some.inj h
  rfl

lemma wrapSigned_of_lt {w : ℕ} {i : ℤ} (h0 : 0 ≤ i) (h : i < 2 ^ (w - 1)) (hw : 0 < w) :
    wrapSigned w i = i := by
  obtain ⟨n, rfl⟩ := Nat.exists_eq_add_one_of_ne_zero (Nat.pos_iff_ne_zero.1 hw)
  rw [wrapSigned, Nat.add_sub_cancel] at *
  rw [Int.emod_eq_of_lt (by positivity) (by rw [pow_succ]; omega)]
  omega

lemma wrapSigned_neg {w : ℕ} {i : ℤ} (h : 2 ^ (w - 1) ≤ i) (h' : i < 2 ^ w) (hw : 0 < w) :
    wrapSigned w i < 0 := by
  obtain ⟨n, rfl⟩ := Nat.exists_eq_add_one_of_ne_zero (Nat.pos_iff_ne_zero.1 hw)
  rw [wrapSigned, Nat.add_sub_cancel] at *
  have hpow : (2 : ℤ) ^ (n + 1) = 2 * 2 ^ n := pow_succ' 2 n
  have hsub : (i + 2 ^ n) % 2 ^ (n + 1) = i + 2 ^ n - 2 ^ (n + 1) := by
    rw [← Int.sub_emod_right, Int.emod_eq_of_lt (by omega) (by omega)]
  rw [hsub]
  omega

lemma ManifestValue.read_unsigned {t : DataType} {w : ℕ} {i : ℤ} {m : ManifestValue}
    (hsign : t.signBit = some (2 ^ (w - 1))) (hi : IsUnsigned w i)
    (hread : m.read t = some (.int (wrapSigned w i))) :
    ((Cell.int i).KeepsSign t → m.read t = some (.int i)) ∧
      (¬ (Cell.int i).KeepsSign t →
        ∃ j k, Cell.int i = .int j ∧ 0 ≤ j ∧ m.read t = some (.int k) ∧ k < 0) := by
  have hw : 0 < w := by
    rcases Nat.eq_zero_or_pos w with rfl | hw
    · cases t <;> simp [DataType.signBit] at hsign
    · exact hw
  constructor
  · intro hkeeps
    rw [hread, wrapSigned_of_lt hi.1 (hkeeps i _ rfl hsign) hw]
  · intro hloses
    refine ⟨i, _, rfl, hi.1, hread, wrapSigned_neg ?_ hi.2 hw⟩
    by_contra hlt
    apply hloses
    intro j b hj hb
    obtain rfl : i = j := by simpa using hj
    obtain rfl : 2 ^ (w - 1) = b := by simpa [hsign] using hb
    exact not_le.1 hlt

/-- A recorded bound reads as the bound itself, unless it loses its sign: then it reads as a
negative number. -/
lemma PhysicalValue.read_toManifestValue {t : DataType} {d : Cell} {p : PhysicalValue}
    {m : ManifestValue} (hd : t.Holds d) (hp : p.Encodes t d) (hm : p.toManifestValue = some m) :
    (d.KeepsSign t → m.read t = some d) ∧
      (¬ d.KeepsSign t → ∃ i k, d = .int i ∧ 0 ≤ i ∧ m.read t = some (.int k) ∧ k < 0) := by
  cases t <;> cases d <;> simp only [DataType.Holds] at hd <;>
    simp only [PhysicalValue.Encodes] at hp
  case uint32.int i =>
    subst hp
    obtain rfl := Option.some.inj hm
    exact ManifestValue.read_unsigned (t := .uint32) (w := 32) rfl hd rfl
  case uint64.int i =>
    subst hp
    obtain rfl := Option.some.inj hm
    exact ManifestValue.read_unsigned (t := .uint64) (w := 64) rfl hd rfl
  all_goals
    refine ⟨fun _ => ?_, fun h => absurd (by simp [Cell.KeepsSign, DataType.signBit]) h⟩
  case uint8.int i _ | uint16.int i _ =>
    subst hp
    obtain rfl := Option.some.inj hm
    have hi : wrapSigned 32 i = i := wrapSigned_of_lt hd.1 (hd.2.trans (by norm_num)) (by norm_num)
    rw [hi]
    rfl
  case utf8.string | largeUtf8.string | utf8View.string =>
    subst hp
    rw [toManifestValue, fromUtf8_toUTF8] at hm
    obtain rfl := Option.some.inj hm
    rfl
  case binary.bytes | largeBinary.bytes =>
    subst hp
    obtain ⟨s, hs, rfl⟩ := Option.map_eq_some_iff.1 hm
    rw [← fromUtf8_eq_some hs]
    rfl
  case float16.float =>
    obtain ⟨bytes, rfl⟩ := hp
    simp [toManifestValue] at hm
  case decimal128.decimal =>
    subst hd
    rcases hp with rfl | rfl | ⟨bytes, rfl⟩
    · obtain rfl := Option.some.inj hm
      rfl
    · obtain rfl := Option.some.inj hm
      rfl
    · simp [toManifestValue] at hm
  case date32.temporal | date64.temporal | time32.temporal | time64.temporal |
      timestamp.temporal =>
    subst hd hp
    obtain rfl := Option.some.inj hm
    rfl
  all_goals
    subst hp
    obtain rfl := Option.some.inj hm
    rfl

/-! ### When the first row group says it all -/

lemma Double.false_of_isNaN {lo x hi : Double} (hx : x.isNaN = true) (hlo : lo.isNaN = false)
    (hhi : hi.isNaN = false) (hle : lo ≤ x) (hle' : x ≤ hi) : False := by
  have hrank : lo.rank ≤ x.rank := Prod.Lex.monotone_fst _ _ (Double.le_iff.1 hle)
  have hrank' : x.rank ≤ hi.rank := Prod.Lex.monotone_fst _ _ (Double.le_iff.1 hle')
  rcases x with n | n | _ | q
  · cases n
    · rcases hi with m | m | _ | r <;> (try cases m) <;> simp_all [Double.rank, Double.isNaN]
    · rcases lo with m | m | _ | r <;> (try cases m) <;> simp_all [Double.rank, Double.isNaN]
  all_goals simp [Double.isNaN] at hx

/-- A NaN is not between two values that are not. -/
lemma Cell.false_of_isNaN {lo c hi : Cell} (hc : c.isNaN = true) (hlo : lo.isNaN = false)
    (hhi : hi.isNaN = false) (hle : lo.Le c) (hle' : c.Le hi) : False := by
  cases c <;> simp only [Cell.isNaN, Bool.false_eq_true] at hc
  cases lo <;> simp only [Cell.Le] at hle
  cases hi <;> simp only [Cell.Le] at hle'
  exact Double.false_of_isNaN hc hlo hhi hle hle'

namespace ParquetWriter

variable (w : ParquetWriter)

/-- A bound gets into the manifest: all but fixed-length byte arrays and bytes that are no text. -/
def Recorded (t : DataType) (d : Cell) : Prop := (w.encode t d).toManifestValue.isSome

/-- No value after the first row group changes what is recorded of the column, and what is recorded
of the first row group is right. -/
structure FirstGroupSuffices (t : DataType) (cells : List (Option Cell)) : Prop where
  /-- There are no NULLs after the first row group. -/
  nulls : none ∉ cells.drop maxRowGroupSize
  /-- Later values are within the recorded bounds. -/
  lower : ∀ lo hi, w.bounds t (cells.take maxRowGroupSize) = some (lo, hi) → w.Recorded t lo →
    ∀ c, some c ∈ cells.drop maxRowGroupSize → lo.Le c
  upper : ∀ lo hi, w.bounds t (cells.take maxRowGroupSize) = some (lo, hi) → w.Recorded t hi →
    ∀ c, some c ∈ cells.drop maxRowGroupSize → c.Le hi
  /-- There are no NaNs next to the values that are bounded. -/
  nan : ∀ lo hi, w.bounds t (cells.take maxRowGroupSize) = some (lo, hi) → w.Recorded t hi →
    ∀ c, some c ∈ cells.take maxRowGroupSize → c.isNaN = false
  /-- An unsigned bound does not read as a negative number. -/
  sign : ∀ lo hi, w.bounds t (cells.take maxRowGroupSize) = some (lo, hi) → w.Recorded t hi →
    hi.KeepsSign t

variable {w} {t : DataType} {cells : List (Option Cell)} {lo hi c d : Cell}

lemma ofParquet_statistics (w : ParquetWriter) (t : DataType) (cells : List (Option Cell)) :
    ColumnStats.ofParquet (some (w.statistics t cells)) =
      { min := (w.bounds t cells).bind fun b => (w.encode t b.1).toManifestValue
        max := (w.bounds t cells).bind fun b => (w.encode t b.2).toManifestValue
        nullCount := cells.count none } := by
  cases hb : w.bounds t cells with
  | none => simp [ColumnStats.ofParquet, statistics, hb]
  | some b => simp [ColumnStats.ofParquet, statistics, hb]

/-- Bounds of unsigned columns are always recorded. -/
lemma recorded_of_not_keepsSign (hd : t.Holds d) (h : ¬ c.KeepsSign t) : w.Recorded t d := by
  have hp := w.encodes hd
  cases t <;> simp only [Cell.KeepsSign, DataType.signBit, reduceCtorEq, false_implies,
    implies_true, not_true_eq_false] at h
  all_goals
    cases d <;> simp only [DataType.Holds] at hd
    simp only [PhysicalValue.Encodes] at hp
    simp [Recorded, hp, PhysicalValue.toManifestValue]

/-- If there is a NaN, both bounds are recorded or none. -/
lemma recorded_iff_of_isNaN (hlo : t.Holds lo) (hhi : t.Holds hi) (hc : t.Holds c)
    (hnan : c.isNaN = true) : w.Recorded t lo ↔ w.Recorded t hi := by
  have hplo := w.encodes hlo
  have hphi := w.encodes hhi
  cases c <;> simp only [Cell.isNaN, Bool.false_eq_true] at hnan
  cases t <;> simp only [DataType.Holds] at hc
  all_goals
    cases lo <;> simp only [DataType.Holds] at hlo
    cases hi <;> simp only [DataType.Holds] at hhi
    simp only [PhysicalValue.Encodes] at hplo hphi
  case float.float16.float.float =>
    obtain ⟨_, hplo⟩ := hplo
    obtain ⟨_, hphi⟩ := hphi
    simp [Recorded, hplo, hphi, PhysicalValue.toManifestValue]
  all_goals simp [Recorded, hplo, hphi, PhysicalValue.toManifestValue]

lemma nonneg_of_not_keepsSign (h : ¬ d.KeepsSign t) (hc : t.Holds c) : ∃ j, c = .int j ∧ 0 ≤ j := by
  cases t <;> simp only [Cell.KeepsSign, DataType.signBit, reduceCtorEq, false_implies,
    implies_true, not_true_eq_false] at h
  all_goals
    cases c <;> simp only [DataType.Holds] at hc
    exact ⟨_, rfl, hc.1⟩

lemma keepsSign_of_le (hle : lo.Le c) (hle' : c.Le hi) (h : hi.KeepsSign t) : lo.KeepsSign t := by
  rintro i b rfl hb
  cases c <;> simp only [Cell.Le] at hle
  cases hi <;> simp only [Cell.Le] at hle'
  exact (hle.trans hle').trans_lt (h _ b rfl hb)

lemma holds_of_mem_take (htyped : ∀ c, some c ∈ cells → t.Holds c) :
    ∀ c, some c ∈ cells.take maxRowGroupSize → t.Holds c :=
  fun c hc => htyped c (List.mem_of_mem_take hc)

lemma bounds_of_recorded (htyped : ∀ c, some c ∈ cells → t.Holds c)
    (h : w.FirstGroupSuffices t cells)
    (hb : w.bounds t (cells.take maxRowGroupSize) = some (lo, hi)) (hc : some c ∈ cells) :
    (w.Recorded t lo → lo.Le c) ∧ (w.Recorded t hi → c.Le hi) := by
  have hfirst := holds_of_mem_take htyped
  obtain ⟨hlo, hhi⟩ := w.holds hfirst hb
  rw [← List.take_append_drop maxRowGroupSize cells, List.mem_append] at hc
  rcases hc with hc | hc
  · have hin (hrec : w.Recorded t lo ∨ w.Recorded t hi) : lo.Le c ∧ c.Le hi := by
      apply w.encloses hfirst hb c hc
      by_contra hnan
      have hnan : c.isNaN = true := by simpa using hnan
      have hiff := recorded_iff_of_isNaN (w := w) hlo hhi (hfirst c hc) hnan
      have := h.nan lo hi hb (by tauto) c hc
      simp [hnan] at this
    exact ⟨fun hrec => (hin (Or.inl hrec)).1, fun hrec => (hin (Or.inr hrec)).2⟩
  · exact ⟨fun hrec => h.lower lo hi hb hrec c hc, fun hrec => h.upper lo hi hb hrec c hc⟩

section Encloses

variable (htyped : ∀ c, some c ∈ cells → t.Holds c)
  (henc : (ColumnStats.ofParquet (some (w.statistics t (cells.take maxRowGroupSize)))).Encloses t
    cells)
  (hb : w.bounds t (cells.take maxRowGroupSize) = some (lo, hi))

include htyped henc hb

/-- A recorded lower bound is the bound itself if it keeps its sign. -/
lemma le_of_recorded (hrec : w.Recorded t lo) (hsign : lo.KeepsSign t) (hc : some c ∈ cells) :
    lo.Le c := by
  rw [ofParquet_statistics] at henc
  obtain ⟨m, hm⟩ := Option.isSome_iff_exists.1 hrec
  obtain ⟨d, hd, hle⟩ := henc.min m (by simp [hb, hm])
  have hlo := (w.holds (fun c hc => htyped c (List.mem_of_mem_take hc)) hb).1
  have hread := (PhysicalValue.read_toManifestValue hlo (w.encodes hlo) hm).1 hsign
  obtain rfl : lo = d := by simpa [hread] using hd
  exact hle c hc

/-- A recorded upper bound keeps its sign, since a negative number is not above any unsigned one. -/
lemma keepsSign_and_le_of_recorded (hrec : w.Recorded t hi) :
    hi.KeepsSign t ∧ ∀ c, some c ∈ cells → c.Le hi := by
  rw [ofParquet_statistics] at henc
  obtain ⟨m, hm⟩ := Option.isSome_iff_exists.1 hrec
  obtain ⟨d, hd, hle⟩ := henc.max m (by simp [hb, hm])
  have hhi := (w.holds (fun c hc => htyped c (List.mem_of_mem_take hc)) hb).2
  have hread := PhysicalValue.read_toManifestValue hhi (w.encodes hhi) hm
  by_cases hsign : hi.KeepsSign t
  · obtain rfl : hi = d := by simpa [hread.1 hsign] using hd
    exact ⟨hsign, hle⟩
  · obtain ⟨i, k, -, -, hk, hneg⟩ := hread.2 hsign
    obtain rfl : .int k = d := by simpa [hk] using hd
    obtain ⟨c, hc⟩ := w.nonempty hb
    have hmem := List.mem_of_mem_take hc
    obtain ⟨j, rfl, hj⟩ := nonneg_of_not_keepsSign hsign (htyped c hmem)
    have hjk : j ≤ k := hle _ hmem
    omega

lemma keepsSign_lower : lo.KeepsSign t := by
  have hfirst := holds_of_mem_take htyped
  by_contra hsign
  obtain ⟨c, hc⟩ := w.nonempty hb
  obtain ⟨j, rfl, hj⟩ := nonneg_of_not_keepsSign hsign (hfirst c hc)
  obtain ⟨hle, hle'⟩ := w.encloses hfirst hb _ hc rfl
  have hrec : w.Recorded t hi := recorded_of_not_keepsSign (w.holds hfirst hb).2 hsign
  exact hsign (keepsSign_of_le hle hle' (keepsSign_and_le_of_recorded htyped henc hb hrec).1)

end Encloses

lemma count_none_eq (cells : List (Option Cell)) : cells.count none =
    (cells.take maxRowGroupSize).count none + (cells.drop maxRowGroupSize).count none := by
  rw [← List.count_append, List.take_append_drop]

lemma firstGroupSuffices_of_encloses (htyped : ∀ c, some c ∈ cells → t.Holds c)
    (henc : (ColumnStats.ofParquet
      (some (w.statistics t (cells.take maxRowGroupSize)))).Encloses t cells) :
    w.FirstGroupSuffices t cells := by
  constructor
  · have hnull := henc.nullCount
    simp only [ofParquet_statistics, count_none_eq cells, Nat.cast_inj] at hnull
    exact List.count_eq_zero.1 (by omega)
  · intro lo hi hb hrec c hc
    exact le_of_recorded htyped henc hb hrec (keepsSign_lower htyped henc hb)
      (List.mem_of_mem_drop hc)
  · intro lo hi hb hrec c hc
    exact (keepsSign_and_le_of_recorded htyped henc hb hrec).2 c (List.mem_of_mem_drop hc)
  · intro lo hi hb hrec c hc
    have hmem := List.mem_of_mem_take hc
    by_contra hnan
    have hnan : c.isNaN = true := by simpa using hnan
    obtain ⟨hlo, hhi⟩ := w.holds (fun c hc => htyped c (List.mem_of_mem_take hc)) hb
    have hreclo := (recorded_iff_of_isNaN hlo hhi (htyped c hmem) hnan).2 hrec
    exact Cell.false_of_isNaN hnan (w.notNaN hb).1 (w.notNaN hb).2
      (le_of_recorded htyped henc hb hreclo (keepsSign_lower htyped henc hb) hmem)
      ((keepsSign_and_le_of_recorded htyped henc hb hrec).2 c hmem)
  · intro lo hi hb hrec
    exact (keepsSign_and_le_of_recorded htyped henc hb hrec).1

lemma encloses_of_firstGroupSuffices (htyped : ∀ c, some c ∈ cells → t.Holds c)
    (h : w.FirstGroupSuffices t cells) :
    (ColumnStats.ofParquet (some (w.statistics t (cells.take maxRowGroupSize)))).Encloses t
      cells := by
  have hfirst := holds_of_mem_take htyped
  rw [ofParquet_statistics]
  constructor
  · intro m hm
    obtain ⟨⟨lo, hi⟩, hb, hm⟩ := Option.bind_eq_some_iff.1 hm
    have hlo := (w.holds hfirst hb).1
    have hread := PhysicalValue.read_toManifestValue hlo (w.encodes hlo) hm
    have hrec : w.Recorded t lo := Option.isSome_iff_exists.2 ⟨m, hm⟩
    by_cases hsign : lo.KeepsSign t
    · exact ⟨lo, hread.1 hsign, fun c hc => (bounds_of_recorded htyped h hb hc).1 hrec⟩
    · obtain ⟨i, k, -, -, hk, hneg⟩ := hread.2 hsign
      refine ⟨.int k, hk, ?_⟩
      intro c hc
      obtain ⟨j, rfl, hj⟩ := nonneg_of_not_keepsSign hsign (htyped c hc)
      exact (hneg.trans_le hj).le
  · intro m hm
    obtain ⟨⟨lo, hi⟩, hb, hm⟩ := Option.bind_eq_some_iff.1 hm
    have hhi := (w.holds hfirst hb).2
    have hrec : w.Recorded t hi := Option.isSome_iff_exists.2 ⟨m, hm⟩
    have hread := PhysicalValue.read_toManifestValue hhi (w.encodes hhi) hm
    exact ⟨hi, hread.1 (h.sign lo hi hb hrec),
      fun c hc => (bounds_of_recorded htyped h hb hc).2 hrec⟩
  · simp only [count_none_eq cells, List.count_eq_zero.2 h.nulls, Nat.add_zero]

/-- A file without rows has nothing recorded, and nothing is missing. -/
lemma firstGroupSuffices_nil : w.FirstGroupSuffices t [] := by
  have hnone {lo hi : Cell} (hb : w.bounds t (([] : List (Option Cell)).take maxRowGroupSize) =
      some (lo, hi)) : False := by
    obtain ⟨c, hc⟩ := w.nonempty hb
    simp at hc
  exact ⟨by simp, fun lo hi hb => (hnone hb).elim, fun lo hi hb => (hnone hb).elim,
    fun lo hi hb => (hnone hb).elim, fun lo hi hb => (hnone hb).elim⟩

end ParquetWriter

/-! ### The manifest entry -/

lemma mergeParquetStats_of_head? {rowGroups : List ChunkMeta} {rg : ChunkMeta}
    (h : rowGroups.head? = some rg) (stats : Finmap fun _ : String => ColumnStats) :
    mergeParquetStats rowGroups stats =
      rg.foldl (fun m col => m.insert col.1 (.ofParquet col.2)) stats := by
  simp [mergeParquetStats, h]

lemma lookup_chunks (w : ParquetWriter) {fields : List BatchField}
    (hdistinct : (fields.map BatchField.name).Nodup) {col : BatchField} (hcol : col ∈ fields)
    (cells : BatchField → List (Option Cell)) :
    ((fields.map fun col => (col.name, some (w.statistics col.type (cells col)))).foldl
      (fun m col => m.insert col.1 (ColumnStats.ofParquet col.2))
      (∅ : Finmap fun _ : String => ColumnStats)).lookup col.name =
    some (.ofParquet (some (w.statistics col.type (cells col)))) := by
  rw [List.foldl_map]
  have h := KeyedMap.lookup_foldl_insert (fun col : BatchField => ColumnStats.ofParquet (some
    (w.statistics col.type (cells col)))) hdistinct hcol ∅
  exact h

lemma ParquetWriter.head?_metadata (w : ParquetWriter) {batch : Batch} (hrows : batch.rows ≠ []) :
    (w.metadata batch).head? = some (batch.fields.map fun col => (col.name,
      some (w.statistics col.type ((batch.column col.name).take maxRowGroupSize)))) := by
  simp only [ParquetWriter.metadata, List.head?_map, head?_rowGroups hrows, Option.map_some,
    Batch.column, List.map_take]

/-- What is recorded of a column comes from the first row group. -/
lemma lookup_writeBatch (w : ParquetWriter) {batch : Batch} (hrows : batch.rows ≠ [])
    {col : BatchField} (hcol : col ∈ batch.fields) :
    (writeBatch w batch).lookup col.name = some (.ofParquet
      (some (w.statistics col.type ((batch.column col.name).take maxRowGroupSize)))) := by
  rw [writeBatch, mergeParquetStats_of_head? (w.head?_metadata hrows) ∅]
  exact lookup_chunks w batch.distinct hcol fun col => (batch.column col.name).take maxRowGroupSize

def Cell.int? : Option Cell → Option ℤ
  | some (.int i) => some i
  | _ => none

lemma Cell.mem_filterMap_int? {cells : List (Option Cell)} {i : ℤ} :
    i ∈ cells.filterMap Cell.int? ↔ some (.int i) ∈ cells := by
  rw [List.mem_filterMap]
  constructor
  · rintro ⟨c, hc, hi⟩
    obtain rfl : c = some (.int i) := by
      rcases c with _ | c
      · simp [Cell.int?] at hi
      · cases c <;> simp_all [Cell.int?]
    exact hc
  · intro h
    exact ⟨_, h, rfl⟩

/-- The least and the greatest integer of a column of 64-bit integers. -/
def intBounds : DataType → List (Option Cell) → Option (Cell × Cell)
  | .int64, cells => (cells.filterMap Cell.int?).min?.bind fun lo =>
      (cells.filterMap Cell.int?).max?.map fun hi => (.int lo, .int hi)
  | _, _ => none

lemma intBounds_eq_some {t : DataType} {cells : List (Option Cell)} {lo hi : Cell}
    (h : intBounds t cells = some (lo, hi)) : t = .int64 ∧ ∃ i j, lo = .int i ∧ hi = .int j ∧
      (cells.filterMap Cell.int?).min? = some i ∧ (cells.filterMap Cell.int?).max? = some j := by
  cases t <;> simp only [intBounds, reduceCtorEq] at h
  obtain ⟨i, hi, h⟩ := Option.bind_eq_some_iff.1 h
  obtain ⟨j, hj, h⟩ := Option.map_eq_some_iff.1 h
  obtain ⟨rfl, rfl⟩ := Prod.mk.inj h
  exact ⟨rfl, i, j, rfl, rfl, hi, hj⟩

def encodeCell : DataType → Cell → PhysicalValue
  | .boolean, .bool b => .boolean b
  | .int8, .int i | .int16, .int i | .int32, .int i => .int32 i
  | .uint8, .int i | .uint16, .int i | .uint32, .int i => .int32 (wrapSigned 32 i)
  | .int64, .int i => .int64 i
  | .uint64, .int i => .int64 (wrapSigned 64 i)
  | .float32, .float x => .float x
  | .float64, .float x => .double x
  | .utf8, .string s | .largeUtf8, .string s | .utf8View, .string s =>
    .byteArray s.toUTF8.data.toList
  | .binary, .bytes bs | .largeBinary, .bytes bs => .byteArray bs
  | .date32, .temporal _ i | .time32 _, .temporal _ i => .int32 i
  | .date64, .temporal _ i | .time64 _, .temporal _ i | .timestamp _, .temporal _ i => .int64 i
  | _, _ => .fixedLenByteArray []

/-- A writer that keeps statistics of 64-bit integers only. -/
def intWriter : ParquetWriter where
  bounds := intBounds
  encode := encodeCell
  encodes := by
    intro t c hc
    cases t <;> cases c <;> simp_all [DataType.Holds, encodeCell, PhysicalValue.Encodes]
  holds := by
    intro t cells lo hi htyped hb
    obtain ⟨rfl, i, j, rfl, rfl, hi, hj⟩ := intBounds_eq_some hb
    exact ⟨htyped _ (Cell.mem_filterMap_int?.1 (List.min?_mem hi)),
      htyped _ (Cell.mem_filterMap_int?.1 (List.max?_mem hj))⟩
  notNaN := by
    intro t cells lo hi hb
    obtain ⟨rfl, i, j, rfl, rfl, -, -⟩ := intBounds_eq_some hb
    exact ⟨rfl, rfl⟩
  encloses := by
    intro t cells lo hi htyped hb c hc _
    obtain ⟨rfl, i, j, rfl, rfl, hi, hj⟩ := intBounds_eq_some hb
    have hint := htyped c hc
    cases c <;> simp only [DataType.Holds] at hint
    have hmem := Cell.mem_filterMap_int?.2 hc
    exact ⟨(List.le_min?_iff hi).1 le_rfl _ hmem, (List.max?_le_iff hj).1 le_rfl _ hmem⟩
  nonempty := by
    intro t cells lo hi hb
    obtain ⟨rfl, i, j, rfl, rfl, hi, -⟩ := intBounds_eq_some hb
    exact ⟨_, Cell.mem_filterMap_int?.1 (List.min?_mem hi)⟩

/-- A row with the one column `x`. -/
def xRow (c : Option Cell) : Row := fun name => if name = "x" then c else none

/-- A batch with the one column `x` of 64-bit integers. -/
def xBatch (values : List (Option ℤ)) (h : ∀ i, some i ∈ values → IsSigned 64 i) : Batch where
  fields := [⟨"x", .int64, none⟩]
  rows := values.map fun v => xRow (v.map .int)
  distinct := by simp
  typed := by
    intro row hrow col hcol c hc
    obtain ⟨v, hv, rfl⟩ := List.mem_map.1 hrow
    obtain rfl := List.mem_singleton.1 hcol
    obtain ⟨i, hi, rfl⟩ : ∃ i, v = some i ∧ Cell.int i = c := by simpa [xRow] using hc
    exact h i (hi ▸ hv)
  closed := by
    intro row hrow name hname
    obtain ⟨v, hv, rfl⟩ := List.mem_map.1 hrow
    have hx : name ≠ "x" := fun heq => hname _ List.mem_cons_self heq.symm
    simp [xRow, hx]

lemma column_xBatch (values : List (Option ℤ)) (h : ∀ i, some i ∈ values → IsSigned 64 i) :
    (xBatch values h).column "x" = values.map fun v => v.map .int := by
  simp [Batch.column, xBatch, xRow, Function.comp_def]

lemma count_none_map (values : List (Option ℤ)) :
    (values.map fun v => v.map Cell.int).count none = values.count none := by
  rw [List.count, List.count, List.countP_map]
  refine List.countP_congr fun v _ => ?_
  cases v <;> simp

/-- Three rows: 3, NULL, 1. -/
def smallBatch : Batch := xBatch [some 3, none, some 1] fun i hi => by
  have hint : i = 3 ∨ i = 1 := by simpa using hi
  rcases hint with rfl | rfl <;> decide

lemma column_smallBatch : smallBatch.column "x" = [some (.int 3), none, some (.int 1)] :=
  column_xBatch _ _

lemma smallBatch_firstGroupSuffices :
    intWriter.FirstGroupSuffices .int64 (smallBatch.column "x") := by
  rw [column_smallBatch]
  have hdrop : [some (Cell.int 3), none, some (.int 1)].drop maxRowGroupSize = [] :=
    List.drop_eq_nil_of_le (by decide)
  constructor
  · simp [hdrop]
  · simp [hdrop]
  · simp [hdrop]
  · intro lo hi hb hrec c hc
    have hint : c = .int 3 ∨ c = .int 1 := by simpa using List.mem_of_mem_take hc
    rcases hint with rfl | rfl <;> rfl
  · intro lo hi hb hrec i b hi hb
    simp [DataType.signBit] at hb

/-- The statistics count the NULLs of the first row group. -/
lemma nullCount_xBatch (w : ParquetWriter) {values : List (Option ℤ)}
    (h : ∀ i, some i ∈ values → IsSigned 64 i) (hne : values ≠ []) :
    ∃ s, (writeBatch w (xBatch values h)).lookup "x" = some s ∧
      s.nullCount = (values.take maxRowGroupSize).count none := by
  have hrows : (xBatch values h).rows ≠ [] := by simpa [xBatch] using hne
  have hcol : BatchField.mk "x" .int64 none ∈ (xBatch values h).fields := List.mem_cons_self
  refine ⟨_, lookup_writeBatch w hrows hcol, ?_⟩
  rw [ParquetWriter.ofParquet_statistics, column_xBatch, ← List.map_take, count_none_map]

/-- A column of zeros that ends with a NULL. -/
lemma exists_late_null (n : ℕ) : ∃ values : List (Option ℤ), values.length = n + 1 ∧
    (∀ i, some i ∈ values → IsSigned 64 i) ∧ (values.take n).count none = 0 ∧
      values.count none = 1 := by
  refine ⟨List.replicate n (some 0) ++ [none], by simp, ?_, ?_, ?_⟩
  · intro i hi
    obtain ⟨-, rfl⟩ : n ≠ 0 ∧ i = 0 := by simpa [List.mem_replicate] using hi
    decide
  · rw [List.take_left' List.length_replicate]
    simp [List.count_replicate]
  · simp [List.count_replicate]

end BenoStreamDB

import BenoStreamDB.Query.Partitioning

/-!
# The truncate transform

`truncate[w]` is to give the largest multiple of `w` that is not above an integer, and the first `w`
characters of a string. `apply_multi` computes `v - v % w` with the remainder of the machine, whose
sign is the one of `v`, after a cast of the width to the type of `v`; and it slices the bytes of a
string.
-/

namespace BenoStreamDB

namespace IcebergTransform

variable {bits w : ℕ} {d v : ℤ}

/-! ### Widths -/

lemma parseU32_lt {s : List Char} {n : ℕ} (h : parseU32 s = some n) : n < 2 ^ 32 := by
  simp only [parseU32] at h
  split_ifs at h with hdigits hlt
  obtain rfl := Option.some.inj h
  exact hlt

lemma parseArgument_lt (name lower : List Char) : parseArgument name lower < 2 ^ 32 := by
  simp only [parseArgument]
  cases hn : parseU32 _ with
  | none => simp
  | some n => exact parseU32_lt hn

lemma lt_of_parse {text : String} (h : parse text = .truncate w) : w < 2 ^ 32 := by
  simp only [parse] at h
  split_ifs at h
  obtain rfl := IcebergTransform.truncate.inj h
  exact parseArgument_lt _ _

/-- The width as an `i32`. -/
lemma wrapSigned_width (hw : w < 2 ^ 32) :
    wrapSigned 32 w = if w < 2 ^ 31 then (w : ℤ) else w - 2 ^ 32 := by
  simp only [wrapSigned]
  split_ifs <;> omega

/-! ### Integers -/

/-- The floor of `v` to a multiple of `w` that `truncate` of an integer of `bits` bits is to give,
if it is such an integer. Truncating once more changes nothing. -/
def FloorTruncates (bits w : ℕ) (v : ℤ) (truncate : ℤ → Except String Value) : Prop :=
  ∃ r : ℤ, truncate v = .ok (.int r) ∧ truncate r = .ok (.int r) ∧
    (IsSigned bits (v / w * w) → (w : ℤ) ∣ r ∧ r ≤ v ∧ v < r + w)

/-- The remainder can be computed. -/
def Computes (bits : ℕ) (d v : ℤ) : Prop := d ≠ 0 ∧ ¬ (d = -1 ∧ v = -2 ^ (bits - 1))

lemma truncateInt_of_computes (h : Computes bits d v) :
    truncateInt bits d v = .ok (.int (v - v.tmod d)) := by
  rw [truncateInt, if_neg h.1, if_neg h.2]

lemma computes_of_truncateInt {r : Value} (h : truncateInt bits d v = .ok r) :
    Computes bits d v := by
  rw [truncateInt] at h
  split_ifs at h with hzero hoverflow
  exact ⟨hzero, hoverflow⟩

lemma truncateInt_truncateInt (h : Computes bits d v) :
    truncateInt bits d (v - v.tmod d) = .ok (.int (v - v.tmod d)) := by
  have hcomputes : Computes bits d (v - v.tmod d) := by
    refine ⟨h.1, ?_⟩
    rintro ⟨rfl, hmin⟩
    exact h.2 ⟨rfl, by simpa using hmin⟩
  have hdvd : d ∣ v - v.tmod d := Int.dvd_self_sub_tmod
  rw [truncateInt_of_computes hcomputes, Int.tmod_eq_zero_of_dvd hdvd, sub_zero]

/-- There is one multiple of the width in reach. -/
lemma floor_iff (hw : 1 ≤ w) {m : ℤ} :
    ((w : ℤ) ∣ v - m ∧ v - m ≤ v ∧ v < v - m + w) ↔ m = v % w := by
  constructor
  · rintro ⟨hdvd, hle, hlt⟩
    have hmod : v % w = m % w :=
      Int.emod_eq_emod_iff_emod_sub_eq_zero.2 (Int.emod_eq_zero_of_dvd hdvd)
    rw [hmod, Int.emod_eq_of_lt (by omega) (by omega)]
  · rintro rfl
    have hpos : (0 : ℤ) < w := by omega
    have h0 := Int.emod_nonneg v hpos.ne'
    have hlt := Int.emod_lt_of_pos v hpos
    exact ⟨Int.dvd_self_sub_emod, by omega, by omega⟩

lemma floorTruncates_iff (hw : 1 ≤ w) :
    FloorTruncates bits w v (truncateInt bits d) ↔
      Computes bits d v ∧ (IsSigned bits (v / w * w) → v.tmod d = v % w) := by
  constructor
  · rintro ⟨r, hr, -, hfloor⟩
    have hcomputes := computes_of_truncateInt hr
    rw [truncateInt_of_computes hcomputes] at hr
    obtain rfl : v - v.tmod d = r := by simpa using hr
    exact ⟨hcomputes, fun hsigned => (floor_iff hw).1 (hfloor hsigned)⟩
  · rintro ⟨hcomputes, hmod⟩
    exact ⟨v - v.tmod d, truncateInt_of_computes hcomputes, truncateInt_truncateInt hcomputes,
      fun hsigned => (floor_iff hw).2 (hmod hsigned)⟩

/-- The remainders of the machine and of the floor agree on integers that are not negative, and on
multiples. -/
lemma tmod_eq_emod_iff (hw : 1 ≤ w) : v.tmod w = v % w ↔ 0 ≤ v ∨ (w : ℤ) ∣ v := by
  rw [Int.tmod_eq_emod]
  split_ifs with h
  · simpa using h
  · simp only [h, iff_false]
    omega

lemma isSigned_floor_iff (hw : 1 ≤ w) (hv : IsSigned bits v) :
    IsSigned bits (v / w * w) ↔ -2 ^ (bits - 1) ≤ v / w * w := by
  have hle : v / w * w ≤ v := Int.ediv_mul_le v (by omega)
  exact ⟨fun h => h.1, fun h => ⟨h, hle.trans_lt hv.2⟩⟩

lemma floor64_iff (hw : 1 ≤ w) (hv : IsSigned 64 v) :
    FloorTruncates 64 w v (truncateInt 64 w) ↔
      0 ≤ v ∨ (w : ℤ) ∣ v ∨ v / w * w < -2 ^ 63 := by
  have hcomputes : Computes 64 w v := ⟨by omega, fun h => by omega⟩
  rw [floorTruncates_iff hw, isSigned_floor_iff hw hv, tmod_eq_emod_iff hw]
  simp only [hcomputes, true_and, ← not_lt, ← or_assoc]
  tauto

/-- An `i32` is truncated right by a width that is one as well if it is not negative or a multiple,
or if the floor would be too small. A wider width becomes negative by the cast. -/
def Floors32 (w : ℕ) (v : ℤ) : Prop :=
  if 0 ≤ v then w < 2 ^ 31 ∨ v + w < 2 ^ 32
  else ((w : ℤ) ∣ v ∨ v / w * w < -2 ^ 31) ∧ ¬ (w = 2 ^ 32 - 1 ∧ v = -2 ^ 31)

instance : Decidable (Floors32 w v) :=
  inferInstanceAs (Decidable (if 0 ≤ v then _ else _))

lemma floor32_iff_of_lt (hw : 1 ≤ w) (hlt : w < 2 ^ 31) (hv : IsSigned 32 v) :
    FloorTruncates 32 w v (truncateInt 32 (wrapSigned 32 w)) ↔ Floors32 w v := by
  have hcomputes : Computes 32 w v := ⟨by omega, fun h => by omega⟩
  rw [wrapSigned_width (by omega), if_pos hlt, floorTruncates_iff hw, isSigned_floor_iff hw hv,
    tmod_eq_emod_iff hw, Floors32]
  have hwide : ¬ (w = 2 ^ 32 - 1 ∧ v = -2 ^ 31) := by omega
  by_cases h0 : 0 ≤ v
  · simp only [hcomputes, h0, if_true, true_or, implies_true, and_true, hlt]
  · simp only [hcomputes, h0, if_false, hwide, not_false_eq_true, and_true, true_and, false_or,
      ← not_lt]
    tauto

lemma floor32_iff_of_le (hle : 2 ^ 31 ≤ w) (hlt : w < 2 ^ 32) (hv : IsSigned 32 v) :
    FloorTruncates 32 w v (truncateInt 32 (wrapSigned 32 w)) ↔ Floors32 w v := by
  have hw : 1 ≤ w := by omega
  have hsigned : -2 ^ 31 ≤ v ∧ v < 2 ^ 31 := hv
  obtain ⟨e, he⟩ : ∃ e : ℕ, (w : ℤ) - 2 ^ 32 = -e := ⟨2 ^ 32 - w, by omega⟩
  rw [wrapSigned_width hlt, if_neg (by omega), floorTruncates_iff hw, isSigned_floor_iff hw hv,
    he, Int.tmod_neg, Floors32]
  by_cases h0 : 0 ≤ v
  · -- the floor is 0, which the remainder by `e` gives for the integers below `e`
    have hcomputes : Computes 32 (-e) v := ⟨by omega, by omega⟩
    have hfloor : v / w * w = 0 := by rw [Int.ediv_eq_zero_of_lt h0 (by omega), zero_mul]
    have hmod : v % e = v ↔ v < e := by
      constructor
      · intro h
        rw [← h]
        exact Int.emod_lt_of_pos v (by omega)
      · exact Int.emod_eq_of_lt h0
    rw [if_pos h0, hfloor, Int.emod_eq_of_lt h0 (by omega), Int.tmod_eq_emod_of_nonneg h0, hmod]
    simp only [hcomputes, true_and]
    omega
  · -- the floor is the negated width
    have hfloor : v / w * w = -w := by
      have hdiv : v / w = -1 := by
        rw [Int.ediv_eq_iff_of_pos (by omega)]
        omega
      rw [hdiv, neg_one_mul]
    have hcomputes : Computes 32 (-e) v ↔ ¬ (w = 2 ^ 32 - 1 ∧ v = -2 ^ 31) := by
      rw [Computes]
      omega
    rw [if_neg h0, hfloor, hcomputes]
    by_cases hmin : w = 2 ^ 31
    · obtain rfl : e = w := by omega
      rw [tmod_eq_emod_iff hw]
      omega
    · have hsmall : -(w : ℤ) < -2 ^ 31 := by omega
      have hlow : ¬ -2 ^ (32 - 1) ≤ -(w : ℤ) := by omega
      simp only [hlow, hsmall, false_implies, and_true, or_true, true_and]

lemma floor32_iff (hw : 1 ≤ w) (hlt : w < 2 ^ 32) (hv : IsSigned 32 v) :
    FloorTruncates 32 w v (truncateInt 32 (wrapSigned 32 w)) ↔ Floors32 w v := by
  by_cases h : w < 2 ^ 31
  · exact floor32_iff_of_lt hw h hv
  · exact floor32_iff_of_le (not_lt.1 h) hlt hv

/-! ### Strings -/

/-- `str::len` -/
def byteLen (s : List Char) : ℕ := (s.map Char.utf8Size).sum

lemma length_le_byteLen (s : List Char) : s.length ≤ byteLen s := by
  induction s with
  | nil => simp
  | cons c s ih =>
    have hc := c.utf8Size_pos
    simp only [byteLen, List.map_cons, List.sum_cons, List.length_cons] at ih ⊢
    omega

/-- A slice is never longer than asked for. -/
lemma byteLen_of_byteSlice {n : ℕ} {s p : List Char} (h : byteSlice n s = .ok p) :
    byteLen p ≤ n := by
  induction s generalizing n p with
  | nil =>
    obtain rfl : [] = p := by cases n <;> simpa [byteSlice] using h
    simp [byteLen]
  | cons c s ih =>
    cases n with
    | zero =>
      obtain rfl : [] = p := by simpa [byteSlice] using h
      simp [byteLen]
    | succ n =>
      by_cases hc : c.utf8Size ≤ n + 1
      · cases hrest : byteSlice (n + 1 - c.utf8Size) s with
        | error msg => simp [byteSlice, hc, hrest] at h
        | ok q =>
          obtain rfl : c :: q = p := by simpa [byteSlice, hc, hrest] using h
          have hq := ih hrest
          simp only [byteLen, List.map_cons, List.sum_cons] at hq ⊢
          omega
      · simp [byteSlice, hc] at h

lemma byteSlice_of_byteLen_le {n : ℕ} {s : List Char} (h : byteLen s ≤ n) :
    byteSlice n s = .ok s := by
  induction s generalizing n with
  | nil => cases n <;> rfl
  | cons c s ih =>
    have hpos := c.utf8Size_pos
    simp only [byteLen, List.map_cons, List.sum_cons] at h ih
    obtain ⟨m, rfl⟩ : ∃ m, n = m + 1 := ⟨n - 1, by omega⟩
    have hrest : byteSlice (m + 1 - c.utf8Size) s = .ok s := ih (by omega)
    simp [byteSlice, hrest, show c.utf8Size ≤ m + 1 by omega]

/-- The bytes of a string can be counted as its characters: it fits as a whole, or only characters
of one byte are kept. -/
def OneByte (w : ℕ) (s : List Char) : Prop := byteLen s ≤ w ∨ ∀ c ∈ s.take w, c.utf8Size = 1

instance {s : List Char} : Decidable (OneByte w s) :=
  inferInstanceAs (Decidable (_ ∨ ∀ c ∈ s.take w, c.utf8Size = 1))

lemma byteSlice_eq_take_iff {n : ℕ} {s : List Char} :
    byteSlice n s = .ok (s.take n) ↔ OneByte n s := by
  induction s generalizing n with
  | nil => cases n <;> simp [byteSlice, OneByte]
  | cons c s ih =>
    cases n with
    | zero => simp [byteSlice, OneByte]
    | succ n =>
      have hpos := c.utf8Size_pos
      by_cases hone : c.utf8Size = 1
      · have hslice : byteSlice (n + 1) (c :: s) = (c :: ·) <$> byteSlice n s := by
          simp [byteSlice, hone]
        have hbytes : OneByte (n + 1) (c :: s) ↔ OneByte n s := by
          simp [OneByte, byteLen, hone, Nat.add_comm 1]
        rw [hslice, hbytes, ← ih, List.take_succ_cons]
        cases byteSlice n s <;> simp
      · -- after a longer character only a string that ends early is kept as a whole
        have hbytes : OneByte (n + 1) (c :: s) ↔ byteLen (c :: s) ≤ n + 1 := by
          simp [OneByte, hone]
        rw [hbytes]
        constructor
        · intro h
          have hlen := byteLen_of_byteSlice h
          rw [List.take_succ_cons] at hlen
          have hle := length_le_byteLen (s.take n)
          simp only [byteLen, List.map_cons, List.sum_cons] at hlen hle ⊢
          have hshort : s.length ≤ n := by
            rw [List.length_take] at hle
            omega
          rw [List.take_of_length_le hshort] at hlen
          exact hlen
        · intro h
          have hle := length_le_byteLen (c :: s)
          rw [List.take_of_length_le (by omega)]
          exact byteSlice_of_byteLen_le h

/-- The first `w` characters, which `truncate` of a string is to give; truncating once more changes
nothing. -/
def TextTruncates (w : ℕ) (s : String) (truncate : String → Except String Value) : Prop :=
  truncate s = .ok (.string (String.ofList (s.toList.take w))) ∧
    truncate (String.ofList (s.toList.take w)) = .ok (.string (String.ofList (s.toList.take w)))

lemma textTruncates_iff {s : String} {truncate : String → Except String Value}
    (h : ∀ s, truncate s = (fun p => .string (String.ofList p)) <$> byteSlice w s.toList) :
    TextTruncates w s truncate ↔ OneByte w s.toList := by
  have hiff (s p : List Char) : (fun p => Value.string (String.ofList p)) <$> byteSlice w s =
      .ok (.string (String.ofList p)) ↔ byteSlice w s = .ok p := by
    cases byteSlice w s <;> simp [String.ofList_inj]
  rw [TextTruncates, h, h, hiff, hiff, String.toList_ofList, ← byteSlice_eq_take_iff]
  constructor
  · exact And.left
  · intro hslice
    exact ⟨hslice, byteSlice_of_byteLen_le (byteLen_of_byteSlice hslice)⟩

/-! ### The transform -/

/-- The types of strings. -/
def textTypes : List DataType := [.utf8, .largeUtf8, .utf8View]

variable (lib : TransformLib)

lemma applyMulti_truncate_int32 (w : ℕ) (v : ℤ) :
    (truncate w).applyMulti lib [(.int32, some (.int v))] =
      truncateInt 32 (wrapSigned 32 w) v := by
  rw [applyMulti_singleton, applyCells]

lemma applyMulti_truncate_int64 (w : ℕ) (v : ℤ) :
    (truncate w).applyMulti lib [(.int64, some (.int v))] = truncateInt 64 w v := by
  rw [applyMulti_singleton, applyCells]

lemma applyMulti_truncate_text {t : DataType} (ht : t ∈ textTypes) (w : ℕ) (s : String) :
    (truncate w).applyMulti lib [(t, some (.string s))] =
      (fun p => .string (String.ofList p)) <$> byteSlice w s.toList := by
  simp only [textTypes, List.mem_cons, List.not_mem_nil, or_false] at ht
  rcases ht with rfl | rfl | rfl <;> rfl

/-- `truncate` with a width that parses: what it gives for integers and strings is the truncation
exactly under the conditions on the right. -/
theorem truncates_iff {text : String} {w : ℕ}
    (hparse : parse text = .truncate w) (hw : 1 ≤ w) :
    (∀ v, IsSigned 32 v →
      (FloorTruncates 32 w v (fun v => (parse text).applyMulti lib [(.int32, some (.int v))]) ↔
        Floors32 w v)) ∧
    (∀ v, IsSigned 64 v →
      (FloorTruncates 64 w v (fun v => (parse text).applyMulti lib [(.int64, some (.int v))]) ↔
        0 ≤ v ∨ (w : ℤ) ∣ v ∨ v / w * w < -2 ^ 63)) ∧
    ∀ t ∈ textTypes, ∀ s : String,
      (TextTruncates w s (fun s => (parse text).applyMulti lib [(t, some (.string s))]) ↔
        OneByte w s.toList) := by
  have hlt := lt_of_parse hparse
  simp only [hparse, applyMulti_truncate_int32, applyMulti_truncate_int64]
  refine ⟨fun v hv => floor32_iff hw hlt hv, fun v hv => floor64_iff hw hv, ?_⟩
  intro t ht s
  exact textTruncates_iff (applyMulti_truncate_text lib ht w)

lemma parse_truncate_ten : parse "truncate[10]" = .truncate 10 := by decide

theorem truncates_iff_ten :
    FloorTruncates 32 10 127
      (fun v => (parse "truncate[10]").applyMulti noDatesLib [(.int32, some (.int v))]) ∧
    FloorTruncates 64 10 (-120)
      (fun v => (parse "truncate[10]").applyMulti noDatesLib [(.int64, some (.int v))]) ∧
    TextTruncates 10 "partition"
      (fun s => (parse "truncate[10]").applyMulti noDatesLib [(.utf8, some (.string s))]) := by
  obtain ⟨h32, h64, htext⟩ := truncates_iff noDatesLib parse_truncate_ten (by decide)
  exact ⟨(h32 127 (by decide)).2 (by decide), (h64 (-120) (by decide)).2 (by decide),
    (htext .utf8 (by decide) _).2 (by decide)⟩

/-- The floor of -1 to tens is -10, not 0; and the tenth byte of a string with seven characters is
inside of one of them. -/
theorem not_truncates :
    ¬ FloorTruncates 32 10 (-1)
        (fun v => (parse "truncate[10]").applyMulti noDatesLib [(.int32, some (.int v))]) ∧
      ¬ TextTruncates 10 (String.ofList ('a' :: List.replicate 6 'é'))
        (fun s => (parse "truncate[10]").applyMulti noDatesLib [(.utf8, some (.string s))]) := by
  simp only [parse_truncate_ten, applyMulti_truncate_int32,
    applyMulti_truncate_text noDatesLib (show DataType.utf8 ∈ textTypes by decide)]
  rw [floor32_iff (by decide) (by decide) (by decide), textTruncates_iff fun _ => rfl,
    String.toList_ofList]
  exact ⟨by decide, by simp [OneByte, byteLen, Char.utf8Size]⟩

end IcebergTransform

end BenoStreamDB

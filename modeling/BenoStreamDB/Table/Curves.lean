import BenoStreamDB.Foundations.Word64

/-!
# Space-filling curves

`compute_zorder_score` and `gray_code_interleave_index` (`clustering.rs`) give a row a score of 64
bits, from a coordinate for each clustering column. The bits of the coordinates are taken level by
level, from the most significant one. A Z-order score has the bits of a level in the order of the
columns; for the other curve the bits of a level are one number, whose Gray code is taken.

`Curve.key` has the digits of the score. A score is the number with these digits where no shift is
by the size of a word (`zorder_score`, `hilbert_score`), so rows have the order of their keys. The
key determines the row (`IsPoint.position_inj`) as a Gray code determines its number.

Arithmetic is that of builds with overflow checks, the profiles dev and test: a shift by the size of
a word fails.
-/

namespace BenoStreamDB

open Word64

/-! ### The code -/

/-- `compute_zorder_score` -/
def computeZorderScore (bitsPerCol : ℕ) (coords : List ℕ) : Option ℕ :=
  (List.range bitsPerCol).foldlM
    (fun interleaved bit => coords.foldlM
      (fun interleaved val => do
        let shift ← (sub bitsPerCol 1).bind (sub · bit)
        let bitVal ← shr val shift
        push 1 interleaved (bitVal &&& 1))
      interleaved)
    0

/-- The bits of a level that the mask `m` selects, the first coordinate's lowest. -/
def grayLevel (n m : ℕ) (x : List ℕ) : Option ℕ :=
  (x.take n).zipIdx.foldlM
    (fun q p => if p.1 &&& m ≠ 0 then (shl 1 p.2).map (q ||| ·) else some q) 0

/-- `gray_code_interleave_index` -/
def grayCodeInterleaveIndex (n bits : ℕ) (x : List ℕ) : Option ℕ := do
  let m ← (sub bits 1).bind (shl 1)
  let s ← (List.range bits).foldlM
    (fun (s : ℕ × ℕ) _ => do
      let q ← grayLevel n s.1 x
      let h ← push n s.2 (q ^^^ (q / 2))
      some (s.1 / 2, h))
    (m, 0)
  some s.2

/-! ### Keys -/

/-- The strategies of clustering. -/
inductive Curve where
  | zorder
  | hilbert
  deriving DecidableEq

namespace Curve

/-- The score of a row with the coordinates. -/
def score (curve : Curve) (bits : ℕ) (coords : List ℕ) : Option ℕ :=
  match curve with
  | zorder => computeZorderScore bits coords
  | hilbert => grayCodeInterleaveIndex coords.length bits coords

/-- The bits of the coordinates at a level as a number, the first coordinate's lowest. -/
def levelWord (level : ℕ) (coords : List ℕ) : ℕ :=
  coords.zipIdx.foldl (fun q p => if p.1.testBit level then q ||| 2 ^ p.2 else q) 0

def gray (q : ℕ) : ℕ := q ^^^ (q / 2)

/-- Where a row with the coordinates is on the curve: its digits, the most significant first. -/
def key (curve : Curve) (bits : ℕ) (coords : List ℕ) : List ℕ :=
  match curve with
  | zorder => (List.range bits).reverse.flatMap fun level => coords.map fun v => v / 2 ^ level % 2
  | hilbert => (List.range bits).reverse.map fun level => gray (levelWord level coords)

/-- The base of the digits for `n` coordinates. -/
def base (curve : Curve) (n : ℕ) : ℕ :=
  match curve with
  | zorder => 2
  | hilbert => 2 ^ n

variable {bits : ℕ} {coords : List ℕ}

/-! ### Z-order -/

lemma reverse_range (n : ℕ) : (List.range n).reverse = (List.range n).map (n - 1 - ·) := by
  rw [List.range_eq_range', List.reverse_range', ← List.range_eq_range', Nat.zero_add]

lemma foldlM_congr {f g : ℕ → ℕ → Option ℕ} {l : List ℕ} (h : ∀ i ∈ l, ∀ x, f x i = g x i) (x : ℕ) :
    l.foldlM f x = l.foldlM g x := by
  induction l generalizing x with
  | nil => rfl
  | cons i l ih =>
    rw [List.foldlM_cons, List.foldlM_cons, h i List.mem_cons_self]
    exact bind_congr fun y => ih (fun j hj => h j (List.mem_cons_of_mem _ hj)) y

lemma foldlM_flatMap_digits {f : ℕ → List ℕ} {levels : List ℕ} {k x : ℕ} :
    levels.foldlM (fun x level => (f level).foldlM (push k) x) x =
      (levels.flatMap f).foldlM (push k) x := by
  induction levels generalizing x with
  | nil => rfl
  | cons level levels ih =>
    rw [List.foldlM_cons, List.flatMap_cons, List.foldlM_append]
    exact bind_congr fun y => ih

/-- The interleaving puts the digits of the key together. -/
lemma computeZorderScore_eq (hbits : bits ≤ 64) :
    computeZorderScore bits coords = (key zorder bits coords).foldlM (push 1) 0 := by
  rw [computeZorderScore, key, ← foldlM_flatMap_digits, reverse_range, List.foldlM_map]
  apply foldlM_congr
  intro bit hbit interleaved
  have hlt : bit < bits := List.mem_range.1 hbit
  have hpos : 1 ≤ bits := by omega
  have hle : bit ≤ bits - 1 := by omega
  have hshift : bits - 1 - bit < 64 := by omega
  rw [List.foldlM_map]
  simp [sub, shr, hpos, hle, hshift]

lemma digits_zorder : ∀ d ∈ key zorder bits coords, d < 2 := by
  simp only [key, List.mem_flatMap, List.mem_map]
  rintro d ⟨level, -, v, -, rfl⟩
  exact Nat.mod_lt _ (by decide)

lemma length_key_zorder : (key zorder bits coords).length = bits * coords.length := by
  simp [key]

lemma zorder_score (hbits : bits ≤ 64) (hlength : bits * coords.length ≤ 64) :
    score zorder bits coords = some (value 2 (key zorder bits coords)) := by
  rw [score, computeZorderScore_eq hbits, foldlM_push (by decide)]
  · simp
  · simpa [length_key_zorder] using hlength
  · exact Nat.two_pow_pos _
  · exact digits_zorder

/-! ### Gray codes -/

lemma gray_lt {n q : ℕ} (h : q < 2 ^ n) : gray q < 2 ^ n :=
  Nat.xor_lt_two_pow h ((Nat.div_le_self q 2).trans_lt h)

lemma levelWord_lt (level : ℕ) (coords : List ℕ) : levelWord level coords < 2 ^ coords.length := by
  suffices h : ∀ (l : List (ℕ × ℕ)) (q : ℕ), (∀ p ∈ l, p.2 < coords.length) →
      q < 2 ^ coords.length →
      l.foldl (fun q p => if p.1.testBit level then q ||| 2 ^ p.2 else q) q < 2 ^ coords.length by
    refine h coords.zipIdx 0 (fun p hp => ?_) (Nat.two_pow_pos _)
    simpa using List.snd_lt_of_mem_zipIdx hp
  intro l
  induction l with
  | nil => exact fun q _ hq => hq
  | cons p l ih =>
    intro q hl hq
    rw [List.forall_mem_cons] at hl
    refine ih _ hl.2 ?_
    beta_reduce
    split_ifs
    · exact Nat.or_lt_two_pow hq (Nat.pow_lt_pow_right (by decide) hl.1)
    · exact hq

/-- The mask of a level selects its bits. -/
lemma grayLevel_eq {level : ℕ} (hlength : coords.length ≤ 64) :
    grayLevel coords.length (2 ^ level) coords = some (levelWord level coords) := by
  rw [grayLevel, List.take_length, levelWord]
  suffices h : ∀ (l : List (ℕ × ℕ)) (q : ℕ), (∀ p ∈ l, p.2 < coords.length) →
      l.foldlM (fun q p => if p.1 &&& 2 ^ level ≠ 0 then (shl 1 p.2).map (q ||| ·) else some q) q =
        some (l.foldl (fun q p => if p.1.testBit level then q ||| 2 ^ p.2 else q) q) by
    exact h _ _ fun p hp => by simpa using List.snd_lt_of_mem_zipIdx hp
  intro l
  induction l with
  | nil => exact fun q _ => rfl
  | cons p l ih =>
    intro q hl
    rw [List.forall_mem_cons] at hl
    have hshift : shl 1 p.2 = some (2 ^ p.2) := by
      have hlt : p.2 < 64 := hl.1.trans_le hlength
      rw [shl, if_pos hlt, Nat.one_mul, Nat.mod_eq_of_lt (Nat.pow_lt_pow_right (by decide) hlt)]
    have hbit : p.1 &&& 2 ^ level ≠ 0 ↔ p.1.testBit level = true := by
      rw [Nat.and_two_pow]
      cases p.1.testBit level <;> simp
    rw [List.foldlM_cons, List.foldl_cons]
    by_cases hset : p.1.testBit level = true
    · rw [if_pos (hbit.2 hset), hshift, if_pos hset]
      exact ih _ hl.2
    · rw [if_neg (mt hbit.1 hset), if_neg hset]
      exact ih _ hl.2

lemma key_hilbert_succ : key hilbert (bits + 1) coords =
    gray (levelWord bits coords) :: key hilbert bits coords := by
  simp [key, List.range_succ]

/-- The loop over levels puts the digits of the key together. -/
lemma foldlM_grayLevel (hlength : coords.length ≤ 64) (levels : List ℕ) (h : ℕ) :
    levels.foldlM
      (fun (s : ℕ × ℕ) _ => do
        let q ← grayLevel coords.length s.1 coords
        let h ← push coords.length s.2 (q ^^^ (q / 2))
        some (s.1 / 2, h))
      (2 ^ levels.length / 2, h) =
      ((key hilbert levels.length coords).foldlM (push coords.length) h).map fun h => (0, h) := by
  induction levels generalizing h with
  | nil => rfl
  | cons level levels ih =>
    have hmask : 2 ^ (level :: levels).length / 2 = 2 ^ levels.length := by
      rw [List.length_cons, pow_succ, Nat.mul_div_cancel _ (by decide)]
    rw [List.foldlM_cons, hmask, List.length_cons, key_hilbert_succ, List.foldlM_cons]
    simp only [grayLevel_eq hlength, Option.bind_eq_bind, Option.bind_some]
    change ((push coords.length h (gray (levelWord levels.length coords))).bind _).bind _ = _
    cases push coords.length h (gray (levelWord levels.length coords)) with
    | none => rfl
    | some h' => exact ih h'

lemma grayCodeInterleaveIndex_eq (hpos : 0 < bits) (hbits : bits ≤ 64)
    (hlength : coords.length ≤ 64) :
    grayCodeInterleaveIndex coords.length bits coords =
      (key hilbert bits coords).foldlM (push coords.length) 0 := by
  have hmask : (sub bits 1).bind (shl 1) = some (2 ^ bits / 2) := by
    have hpow : 2 ^ bits / 2 = 2 ^ (bits - 1) := Nat.pow_div hpos (by decide)
    have hlt : bits - 1 < 64 := by omega
    rw [sub, if_pos (Nat.succ_le_of_lt hpos), Option.bind_some, shl, if_pos hlt, Nat.one_mul,
      Nat.mod_eq_of_lt (Nat.pow_lt_pow_right (by decide) hlt), hpow]
  have hloop := foldlM_grayLevel hlength (List.range bits) 0
  rw [List.length_range] at hloop
  rw [grayCodeInterleaveIndex, hmask, Option.bind_eq_bind, Option.bind_some, hloop]
  cases (key hilbert bits coords).foldlM (push coords.length) 0 <;> rfl

lemma digits_hilbert : ∀ d ∈ key hilbert bits coords, d < 2 ^ coords.length := by
  simp only [key, List.mem_map]
  rintro d ⟨level, -, rfl⟩
  exact gray_lt (levelWord_lt level coords)

lemma length_key_hilbert : (key hilbert bits coords).length = bits := by
  simp [key]

lemma hilbert_score (hpos : 0 < bits) (hbits : bits ≤ 64) (hcoords : coords.length < 64)
    (hlength : coords.length * bits ≤ 64) :
    score hilbert bits coords = some (value (2 ^ coords.length) (key hilbert bits coords)) := by
  rw [score, grayCodeInterleaveIndex_eq hpos hbits hcoords.le, foldlM_push hcoords]
  · simp
  · simpa [length_key_hilbert] using hlength
  · exact Nat.two_pow_pos _
  · exact digits_hilbert

/-- With 64 columns or more, a level is as wide as a word, or there is no level. -/
lemma hilbert_overflow (hcoords : 64 ≤ coords.length) :
    score hilbert (64 / coords.length) coords = none := by
  rcases hcoords.eq_or_lt with heq | hlt
  · have hone : 64 / coords.length = 0 + 1 := by rw [← heq]
    rw [score, hone, grayCodeInterleaveIndex_eq (by decide) (by decide) heq.ge, key_hilbert_succ,
      List.foldlM_cons, push, shl, if_neg hcoords.not_gt]
    rfl
  · have hzero : 64 / coords.length = 0 := Nat.div_eq_of_lt hlt
    rw [score, hzero]
    rfl

/-! ### Both curves -/

/-- The numbers of columns with which a score is computed without overflow. -/
def Fits (curve : Curve) (n : ℕ) : Prop := curve = hilbert → n < 64

instance (curve : Curve) (n : ℕ) : Decidable (curve.Fits n) :=
  inferInstanceAs (Decidable (_ → _))

variable {curve : Curve} {n : ℕ}

/-- The position of a row on the curve as a number. -/
def position (curve : Curve) (bits : ℕ) (coords : List ℕ) : ℕ :=
  value (curve.base coords.length) (curve.key bits coords)

/-- The score is the position on the curve where all levels fit into a word. -/
lemma score_eq_position (hle : bits ≤ 64) (hlength : coords.length * bits ≤ 64)
    (hfits : curve = hilbert → 0 < bits ∧ coords.length < 64) :
    curve.score bits coords = some (curve.position bits coords) := by
  cases curve with
  | zorder => exact zorder_score hle (by rwa [Nat.mul_comm])
  | hilbert => exact hilbert_score (hfits rfl).1 hle (hfits rfl).2 hlength

lemma score_eq (hpos : 0 < coords.length) (hfits : curve.Fits coords.length) :
    curve.score (64 / coords.length) coords =
      some (curve.position (64 / coords.length) coords) := by
  apply score_eq_position (Nat.div_le_self _ _) (Nat.mul_div_le _ _)
  intro hcurve
  have hlt := hfits hcurve
  exact ⟨Nat.div_pos hlt.le hpos, hlt⟩

/-- Positions are ordered as keys are. -/
lemma position_le_position {coords' : List ℕ} (hlength : coords.length = coords'.length) :
    curve.position bits coords ≤ curve.position bits coords' ↔
      curve.key bits coords ≤ curve.key bits coords' := by
  rw [position, position, hlength]
  cases curve with
  | zorder =>
    exact value_le_value_iff (by simp [length_key_zorder, hlength]) digits_zorder digits_zorder
  | hilbert =>
    exact value_le_value_iff (by simp [length_key_hilbert]) (hlength ▸ digits_hilbert)
      digits_hilbert

/-! ### Different rows are at different positions -/

lemma key_zorder_succ : key zorder (bits + 1) coords =
    coords.map (fun v => v / 2 ^ bits % 2) ++ key zorder bits coords := by
  simp [key, List.range_succ]

lemma mod_two_pow_succ (v bits : ℕ) :
    v % 2 ^ (bits + 1) = v % 2 ^ bits + 2 ^ bits * (v / 2 ^ bits % 2) := by
  rw [pow_succ, Nat.mod_mul]

/-- If the bits of a level and the remainders below agree, so do the remainders with the level. -/
lemma map_mod_succ {coords' : List ℕ}
    (hlevel : coords.map (fun v => v / 2 ^ bits % 2) = coords'.map fun v => v / 2 ^ bits % 2)
    (hrest : coords.map (· % 2 ^ bits) = coords'.map (· % 2 ^ bits)) :
    coords.map (· % 2 ^ (bits + 1)) = coords'.map (· % 2 ^ (bits + 1)) := by
  induction coords generalizing coords' with
  | nil => cases coords' <;> simp_all
  | cons v coords ih =>
    cases coords' with
    | nil => simp at hrest
    | cons w coords' =>
      simp only [List.map_cons, List.cons.injEq] at hlevel hrest ⊢
      refine ⟨?_, ih hlevel.2 hrest.2⟩
      rw [mod_two_pow_succ, mod_two_pow_succ, hlevel.1, hrest.1]

/-- Gray codes of different numbers are different. -/
lemma gray_injective : Function.Injective gray := by
  intro p q h
  have hhalf : p ^^^ q = (p ^^^ q) / 2 := by
    have hxor : p ^^^ (p / 2) ^^^ (q ^^^ (q / 2)) = 0 := Nat.xor_eq_zero_iff.2 h
    rw [Nat.xor_div_two, ← Nat.xor_eq_zero_iff, ← hxor]
    simp only [Nat.xor_assoc, Nat.xor_comm, Nat.xor_left_comm]
  have hzero : p ^^^ q = 0 := by omega
  exact Nat.xor_eq_zero_iff.1 hzero

lemma testBit_levelWord (level i : ℕ) (coords : List ℕ) :
    (levelWord level coords).testBit i = (coords.getD i 0).testBit level := by
  -- The loop from the coordinate `k` on, with the bits that it has set before.
  suffices h : ∀ k q : ℕ, ((coords.zipIdx k).foldl
      (fun q p => if p.1.testBit level then q ||| 2 ^ p.2 else q) q).testBit i =
        (q.testBit i || decide (k ≤ i) && (coords.getD (i - k) 0).testBit level) by
    simpa [levelWord] using h 0 0
  induction coords with
  | nil => simp
  | cons v coords ih =>
    intro k q
    rw [List.zipIdx_cons, List.foldl_cons, ih]
    rcases lt_trichotomy k i with hlt | rfl | hgt
    · obtain ⟨d, rfl⟩ := Nat.exists_eq_add_of_lt hlt
      have hhere : k + d + 1 - k = d + 1 := by omega
      have hnext : k + d + 1 - (k + 1) = d := by omega
      split_ifs <;> simp [hhere, hnext, hlt.ne, hlt.le]
    · split_ifs with hv <;> simp [hv]
    · have hnext : ¬k + 1 ≤ i := by omega
      split_ifs <;> simp [hgt.ne', hgt.not_ge, hnext]

/-- The Gray code of a level has all of its bits. -/
lemma map_level_of_levelWord {coords' : List ℕ} (hlength : coords.length = coords'.length)
    {level : ℕ} (h : levelWord level coords = levelWord level coords') :
    coords.map (fun v => v / 2 ^ level % 2) = coords'.map fun v => v / 2 ^ level % 2 := by
  apply List.ext_getElem (by simpa using hlength)
  intro i hi hi'
  have hbit := congrArg (Nat.testBit · i) h
  simp only [testBit_levelWord] at hbit
  simp only [List.length_map] at hi hi'
  rw [List.getD_eq_getElem _ _ hi, List.getD_eq_getElem _ _ hi', Nat.testBit_eq_decide_div_mod_eq,
    Nat.testBit_eq_decide_div_mod_eq, decide_eq_decide] at hbit
  simp only [List.getElem_map]
  omega

/-- The key determines the coordinates, up to their bits above the levels. -/
lemma map_mod_of_key {coords' : List ℕ} (hlength : coords.length = coords'.length)
    (h : curve.key bits coords = curve.key bits coords') :
    coords.map (· % 2 ^ bits) = coords'.map (· % 2 ^ bits) := by
  induction bits with
  | zero => simp [Nat.mod_one, List.map_const', hlength]
  | succ bits ih =>
    cases curve with
    | zorder =>
      rw [key_zorder_succ, key_zorder_succ] at h
      obtain ⟨hlevel, hrest⟩ := List.append_inj h (by simpa using hlength)
      exact map_mod_succ hlevel (ih hrest)
    | hilbert =>
      rw [key_hilbert_succ, key_hilbert_succ, List.cons.injEq] at h
      exact map_mod_succ (map_level_of_levelWord hlength (gray_injective h.1)) (ih h.2)

/-- The coordinates of a row: one for each of `n` columns, of `bits` bits. -/
def IsPoint (n bits : ℕ) (coords : List ℕ) : Prop :=
  coords.length = n ∧ ∀ v ∈ coords, v < 2 ^ bits

lemma IsPoint.map_mod (h : IsPoint n bits coords) : coords.map (· % 2 ^ bits) = coords := by
  conv_rhs => rw [← List.map_id coords]
  exact List.map_congr_left fun v hv => Nat.mod_eq_of_lt (h.2 v hv)

lemma position_lt (coords : List ℕ) :
    curve.position bits coords < 2 ^ (coords.length * bits) := by
  cases curve with
  | zorder =>
    have hlt := value_lt_pow (digits_zorder : ∀ d ∈ key zorder bits coords, d < 2)
    rwa [length_key_zorder, Nat.mul_comm] at hlt
  | hilbert =>
    have hlt :=
      value_lt_pow (digits_hilbert : ∀ d ∈ key hilbert bits coords, d < 2 ^ coords.length)
    rwa [length_key_hilbert, ← pow_mul] at hlt

/-- Different rows have different positions. -/
lemma IsPoint.position_inj {coords' : List ℕ} (h : IsPoint n bits coords)
    (h' : IsPoint n bits coords') (heq : curve.position bits coords = curve.position bits coords') :
    coords = coords' := by
  have hlength : coords.length = coords'.length := h.1.trans h'.1.symm
  have hkey : curve.key bits coords = curve.key bits coords' :=
    le_antisymm ((position_le_position hlength).1 heq.le)
      ((position_le_position hlength.symm).1 heq.ge)
  rw [← h.map_mod, ← h'.map_mod]
  exact map_mod_of_key hlength hkey

/-! ### Growing coordinates -/

/-- Remainders are ordered by the bit of the next level first. -/
lemma mod_le_mod_succ {v w : ℕ} (h : v % 2 ^ (bits + 1) ≤ w % 2 ^ (bits + 1)) :
    v / 2 ^ bits % 2 ≤ w / 2 ^ bits % 2 ∧
      (v / 2 ^ bits % 2 = w / 2 ^ bits % 2 → v % 2 ^ bits ≤ w % 2 ^ bits) := by
  rw [mod_two_pow_succ, mod_two_pow_succ] at h
  have hw : w % 2 ^ bits < 2 ^ bits := Nat.mod_lt _ (Nat.two_pow_pos _)
  refine ⟨?_, fun heq => ?_⟩
  · by_contra! hlt
    have hmul : 2 ^ bits * (w / 2 ^ bits % 2 + 1) ≤ 2 ^ bits * (v / 2 ^ bits % 2) :=
      Nat.mul_le_mul_left _ hlt
    rw [Nat.mul_succ] at hmul
    omega
  · rw [heq] at h
    omega

/-- The Z-order position does not decrease if no coordinate does. The bits of the first level in
which two rows differ decide, and there the smaller row has no bit that the other one lacks. -/
lemma position_zorder_mono {coords' : List ℕ}
    (h : List.Forall₂ (fun v w => v % 2 ^ bits ≤ w % 2 ^ bits) coords coords') :
    value 2 (key zorder bits coords) ≤ value 2 (key zorder bits coords') := by
  induction bits with
  | zero => exact le_rfl
  | succ bits ih =>
    have hlength := h.length_eq
    have hlevels : List.Forall₂ (· ≤ ·) (coords.map fun v => v / 2 ^ bits % 2)
        (coords'.map fun v => v / 2 ^ bits % 2) := by
      rw [List.forall₂_map_left_iff, List.forall₂_map_right_iff]
      exact h.imp fun v w hvw => (mod_le_mod_succ hvw).1
    rw [key_zorder_succ, key_zorder_succ, value_append, value_append, length_key_zorder,
      length_key_zorder, hlength]
    rcases (value_le_value_of_forall₂ 2 hlevels).lt_or_eq with hlt | heq
    · have hrest := value_lt_pow (digits_zorder : ∀ d ∈ key zorder bits coords, d < 2)
      rw [length_key_zorder, hlength] at hrest
      have hmul := Nat.mul_le_mul_right (2 ^ (bits * coords'.length)) hlt
      rw [Nat.succ_mul] at hmul
      omega
    · have hsame : (coords.map fun v => v / 2 ^ bits % 2) =
          coords'.map fun v => v / 2 ^ bits % 2 := by
        apply value_inj (by simpa using hlength) _ _ heq
        all_goals
          simp only [List.mem_map]
          rintro d ⟨v, -, rfl⟩
          exact Nat.mod_lt _ (by decide)
      rw [hsame]
      apply Nat.add_le_add_left
      apply ih
      have hbits :
          List.Forall₂ (fun v w => v / 2 ^ bits % 2 = w / 2 ^ bits % 2) coords coords' := by
        rw [← List.forall₂_map_right_iff, ← List.forall₂_map_left_iff, hsame, List.forall₂_eq_eq_eq]
      rw [List.forall₂_iff_get] at h hbits ⊢
      exact ⟨h.1, fun i hi hi' => (mod_le_mod_succ (h.2 i hi hi')).2 (hbits.2 i hi hi')⟩

lemma IsPoint.set (h : IsPoint n bits coords) (i : ℕ) {w : ℕ} (hw : w < 2 ^ bits) :
    IsPoint n bits (coords.set i w) := by
  refine ⟨by simpa using h.1, fun v hv => ?_⟩
  rcases List.mem_or_eq_of_mem_set hv with hmem | rfl
  · exact h.2 v hmem
  · exact hw

lemma IsPoint.forall₂_set (h : IsPoint n bits coords) {i v w : ℕ} (hi : coords[i]? = some v)
    (hle : v ≤ w) (hw : w < 2 ^ bits) :
    List.Forall₂ (fun v w => v % 2 ^ bits ≤ w % 2 ^ bits) coords (coords.set i w) := by
  rw [List.forall₂_iff_get]
  refine ⟨by simp, fun j hj hj' => ?_⟩
  simp only [List.get_eq_getElem, List.getElem_set]
  split_ifs with hij
  · subst hij
    obtain ⟨hlt, rfl⟩ := List.getElem?_eq_some_iff.1 hi
    rwa [Nat.mod_eq_of_lt hw, Nat.mod_eq_of_lt (h.2 _ (List.getElem_mem _))]
  · exact le_rfl

/-! ### What the scores are for -/

/-- Every row with `n` coordinates of `bits` bits has a score of `n * bits` bits that no other row
has. -/
def Separates (curve : Curve) (n bits : ℕ) : Prop :=
  ∀ coords, IsPoint n bits coords → ∃ s, curve.score bits coords = some s ∧ s < 2 ^ (n * bits) ∧
    ∀ coords', IsPoint n bits coords' → curve.score bits coords' = some s → coords' = coords

/-- A score does not decrease when one coordinate grows. -/
def Grows (curve : Curve) (n bits : ℕ) : Prop :=
  ∀ coords i v w, IsPoint n bits coords → coords[i]? = some v → v ≤ w → w < 2 ^ bits →
    ∃ s s', curve.score bits coords = some s ∧ curve.score bits (coords.set i w) = some s' ∧ s ≤ s'

section

variable (hn : 1 ≤ n) (hbits : 1 ≤ bits) (hfit : n * bits ≤ 64)

include hn hbits hfit

lemma IsPoint.score_eq (h : IsPoint n bits coords) (hfits : curve.Fits n) :
    curve.score bits coords = some (curve.position bits coords) := by
  obtain rfl := h.1
  exact score_eq_position ((Nat.le_mul_of_pos_left bits hn).trans hfit) hfit
    fun hcurve => ⟨hbits, hfits hcurve⟩

lemma Fits.separates (hfits : curve.Fits n) : curve.Separates n bits := by
  intro coords h
  refine ⟨_, h.score_eq hn hbits hfit hfits, h.1 ▸ position_lt coords, fun coords' h' hscore => ?_⟩
  rw [h'.score_eq hn hbits hfit hfits, Option.some.injEq] at hscore
  exact h'.position_inj h hscore

/-- With 64 columns a level is as wide as a word, and no row has a score. -/
lemma Separates.fits (h : curve.Separates n bits) : curve.Fits n := by
  rintro rfl
  by_contra! hge
  have hzero : IsPoint n bits (List.replicate n 0) :=
    ⟨List.length_replicate, fun v hv => by
      rw [List.eq_of_mem_replicate hv]
      exact Nat.two_pow_pos _⟩
  obtain ⟨s, hs, -⟩ := h _ hzero
  have hle : n ≤ 64 := (Nat.le_mul_of_pos_right n hbits).trans hfit
  obtain rfl : n = 64 := le_antisymm hle hge
  have hone : bits = 1 := by omega
  have hnone : hilbert.score (64 / (List.replicate 64 0).length) (List.replicate 64 0) = none :=
    hilbert_overflow List.length_replicate.ge
  rw [List.length_replicate, Nat.div_self (by decide), ← hone, hs] at hnone
  exact Option.some_ne_none _ hnone

lemma grows_zorder : zorder.Grows n bits := by
  intro coords i v w h hi hle hw
  have hfits : zorder.Fits n := by
    rintro ⟨⟩
  exact ⟨_, _, h.score_eq hn hbits hfit hfits, (h.set i hw).score_eq hn hbits hfit hfits,
    position_zorder_mono (h.forall₂_set hi hle hw)⟩

end

end Curve

/-- Both curves have different scores for different rows, and Z-order scores grow with the
coordinates, with up to 63 columns. With 64 columns only Z-order has scores. -/
theorem curves_separate_iff (n bits : ℕ) (hn : 1 ≤ n) (hbits : 1 ≤ bits) (hfit : n * bits ≤ 64) :
    Curve.zorder.Separates n bits ∧ Curve.zorder.Grows n bits ∧
      (Curve.hilbert.Separates n bits ↔ n < 64) := by
  have hzorder : Curve.zorder.Fits n := by
    rintro ⟨⟩
  refine ⟨hzorder.separates hn hbits hfit, Curve.grows_zorder hn hbits hfit, fun h => ?_,
    fun h => ?_⟩
  · exact h.fits hn hbits hfit rfl
  · have hhilbert : Curve.hilbert.Fits n := fun _ => h
    exact hhilbert.separates hn hbits hfit

theorem curves_separate_three_columns :
    Curve.zorder.Separates 3 21 ∧ Curve.zorder.Grows 3 21 ∧
      (Curve.hilbert.Separates 3 21 ↔ 3 < 64) :=
  curves_separate_iff 3 21 (by decide) (by decide) (by decide)

/-- The loop shifts `h` by the number of columns, here by all 64 bits. -/
theorem hilbert_not_separates_64 : ¬Curve.hilbert.Separates 64 1 := by
  intro h
  have hlt : 64 < 64 := h.fits (by decide) (by decide) (by decide) rfl
  exact lt_irrefl _ hlt

end BenoStreamDB

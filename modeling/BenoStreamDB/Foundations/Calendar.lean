import Mathlib.Data.Int.ConditionallyCompleteOrder
import Mathlib.Order.ConditionallyCompleteLattice.Basic

/-!
# Calendar periods

Years and months of the proleptic Gregorian calendar are periods on the line of days, which are
counted from 1970-01-01. A sequence of periods is given by the strictly increasing sequence of their
starts; the period of a time is the last one that has started, `IsFloor`.
-/

namespace Calendar

/-! ### Periods -/

section Periods

variable {start : ℤ → ℤ} {k l t u : ℤ}

/-- The time `t` is in the period `k`. -/
def IsFloor (start : ℤ → ℤ) (k t : ℤ) : Prop := start k ≤ t ∧ t < start (k + 1)

lemma IsFloor.le_of_le (hstart : StrictMono start) (hk : IsFloor start k t)
    (hl : IsFloor start l u) (h : t ≤ u) : k ≤ l := by
  have hlt : start k < start (l + 1) := hk.1.trans_lt (h.trans_lt hl.2)
  exact Int.lt_add_one_iff.1 (hstart.lt_iff_lt.1 hlt)

lemma IsFloor.eq (hstart : StrictMono start) (hk : IsFloor start k t) (hl : IsFloor start l t) :
    k = l :=
  le_antisymm (hk.le_of_le hstart hl le_rfl) (hl.le_of_le hstart hk le_rfl)

/-- A period of `n` periods contains the times of its parts. -/
lemma IsFloor.ediv {n : ℤ} (hn : 0 < n) (hstart : StrictMono start) (h : IsFloor start k t) :
    IsFloor (fun l => start (n * l)) (k / n) t := by
  have hdiv := Int.mul_ediv_self_le (x := k) hn.ne'
  have hlt := Int.lt_mul_ediv_self_add (x := k) hn
  constructor
  · exact (hstart.monotone hdiv).trans h.1
  · refine h.2.trans_le (hstart.monotone ?_)
    rw [mul_add, mul_one]
    exact hlt

end Periods

/-! ### Years and months -/

def IsLeap (y : ℤ) : Prop := 4 ∣ y ∧ (¬ 100 ∣ y ∨ 400 ∣ y)

instance (y : ℤ) : Decidable (IsLeap y) := inferInstanceAs (Decidable (_ ∧ (_ ∨ _)))

/-- The first day of a year. -/
def yearStart (y : ℤ) : ℤ := 365 * (y - 1970) + ((y - 1) / 4 - (y - 1) / 100 + (y - 1) / 400 - 477)

lemma yearStart_succ (y : ℤ) :
    yearStart (y + 1) = yearStart y + 365 + if IsLeap y then 1 else 0 := by
  simp only [yearStart, IsLeap]
  split_ifs <;> omega

/-- The lengths of the months of a year. -/
def monthLengths (y : ℤ) : List ℤ :=
  [31, if IsLeap y then 29 else 28, 31, 30, 31, 30, 31, 31, 30, 31, 30, 31]

lemma length_monthLengths (y : ℤ) : (monthLengths y).length = 12 := rfl

lemma sum_monthLengths (y : ℤ) :
    (monthLengths y).sum = 365 + if IsLeap y then 1 else 0 := by
  by_cases h : IsLeap y <;> simp [monthLengths, h]

lemma pos_of_mem_monthLengths {y n : ℤ} (h : n ∈ monthLengths y) : 0 < n := by
  by_cases hleap : IsLeap y
  all_goals
    simp only [monthLengths, hleap, if_true, if_false, List.mem_cons, List.not_mem_nil,
      or_false] at h
    omega

/-- The first day of a month; the months are counted from January 1970. -/
def monthStart (m : ℤ) : ℤ :=
  yearStart (1970 + m / 12) + ((monthLengths (1970 + m / 12)).take (m % 12).toNat).sum

@[simp]
lemma monthStart_mul (k : ℤ) : monthStart (12 * k) = yearStart (1970 + k) := by
  simp [monthStart]

/-- The year has the days of its months up to the end of each. -/
lemma monthStart_eq {m y : ℤ} {k : ℕ} (hk : k ≤ 12) (hm : m = 12 * (y - 1970) + k) :
    monthStart m = yearStart y + ((monthLengths y).take k).sum := by
  rcases Nat.lt_or_eq_of_le hk with hlt | rfl
  · have hdiv : 1970 + m / 12 = y := by omega
    have hmod : (m % 12).toNat = k := by omega
    rw [monthStart, hdiv, hmod]
  · have hmul : m = 12 * (y + 1 - 1970) := by omega
    rw [hmul, monthStart_mul, add_sub_cancel, yearStart_succ,
      List.take_of_length_le (length_monthLengths y).le, sum_monthLengths, add_assoc]

lemma monthStart_strictMono : StrictMono monthStart := by
  apply strictMono_int_of_lt_succ
  intro m
  have hk : (m % 12).toNat < 12 := by omega
  have hm : m = 12 * (1970 + m / 12 - 1970) + (m % 12).toNat := by omega
  generalize 1970 + m / 12 = y at hm
  generalize (m % 12).toNat = k at hk hm
  have hlt : k < (monthLengths y).length := hk
  have hnext : m + 1 = 12 * (y - 1970) + (k + 1 : ℕ) := by omega
  rw [monthStart_eq hk.le hm, monthStart_eq hk hnext, List.take_succ_eq_append_getElem hlt,
    List.sum_append, List.sum_singleton]
  have hpos := pos_of_mem_monthLengths (List.getElem_mem hlt)
  omega

lemma yearStart_strictMono : StrictMono fun k => yearStart (1970 + k) := by
  intro k l h
  simp only [← monthStart_mul]
  exact monthStart_strictMono (by omega)

/-! ### The date of a day -/

/-- An estimate of the year of a day, from the days of four hundred years. -/
def yearEstimate (d : ℤ) : ℤ := 1970 + 400 * d / 146097

lemma yearStart_yearEstimate (d : ℤ) :
    yearStart (yearEstimate d - 1) ≤ d ∧ d < yearStart (yearEstimate d + 2) := by
  simp only [yearStart, yearEstimate]
  omega

/-- The month of a day, counted from January 1970: the estimated year and its neighbours have 36
months. -/
def monthOfDay (d : ℤ) : ℤ :=
  12 * (yearEstimate d - 1 - 1970) +
    Nat.findGreatest (fun k => monthStart (12 * (yearEstimate d - 1 - 1970) + k) ≤ d) 35

lemma isFloor_monthOfDay (d : ℤ) : IsFloor monthStart (monthOfDay d) d := by
  obtain ⟨hlo, hhi⟩ := yearStart_yearEstimate d
  simp only [monthOfDay]
  generalize hfirst : 12 * (yearEstimate d - 1 - 1970) = first
  have hstart : monthStart (first + (0 : ℕ)) ≤ d := by
    rw [← hfirst, Nat.cast_zero, add_zero, monthStart_mul, add_sub_cancel]
    exact hlo
  have hend : d < monthStart (first + 36) := by
    have : first + 36 = 12 * (yearEstimate d + 2 - 1970) := by omega
    rwa [this, monthStart_mul, add_sub_cancel]
  constructor
  · exact Nat.findGreatest_spec (P := fun k : ℕ => monthStart (first + k) ≤ d) (Nat.zero_le 35)
      hstart
  · by_contra hle
    rw [not_lt] at hle
    generalize hk : Nat.findGreatest (fun k : ℕ => monthStart (first + k) ≤ d) 35 = k at hle
    have hnext : k + 1 ≤ 35 := by
      have hlt := monthStart_strictMono.lt_iff_lt.1 (hle.trans_lt hend)
      omega
    have hgreatest := Nat.le_findGreatest (P := fun k : ℕ => monthStart (first + k) ≤ d) hnext
      (by push_cast; rwa [← add_assoc])
    omega

end Calendar

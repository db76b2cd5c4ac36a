import BenoStreamDB.Foundations.Calendar
import BenoStreamDB.Query.Partitioning
import Mathlib.Tactic.Ring

/-!
# The time transforms

`year`, `month`, `day` and `hour` are to count the periods since 1970 up to a date or a timestamp,
so that earlier times have negative counts. `apply_multi` handles dates and timestamps in
microseconds, and divides the microseconds by machine division, which rounds towards zero; chrono
then finds the date of a number of seconds.

Arithmetic is that of release builds. Where `days + 719163` overflows it wraps around to a number of
days for which chrono has no date; with overflow checks it panics.
-/

namespace BenoStreamDB

open Calendar

namespace IcebergTransform

/-! ### What the transforms are to count -/

def timeTransforms : List IcebergTransform := [.year, .month, .day, .hour]

/-- The types of dates and timestamps. -/
def timeTypes : List DataType :=
  [.date32, .date64, .timestamp .second, .timestamp .millisecond, .timestamp .microsecond,
    .timestamp .nanosecond]

/-- The nanoseconds in a unit of the type. -/
def nanosPerTick : DataType → ℤ
  | .date32 => 86400000000000
  | .date64 | .timestamp .millisecond => 1000000
  | .timestamp .second => 1000000000
  | .timestamp .microsecond => 1000
  | .timestamp .nanosecond => 1
  | _ => 0

/-- The start of a period, in nanoseconds since 1970. -/
def periodStart : IcebergTransform → ℤ → ℤ
  | .year, k => yearStart (1970 + k) * 86400000000000
  | .month, k => monthStart k * 86400000000000
  | .day, k => k * 86400000000000
  | .hour, k => k * 3600000000000
  | _, _ => 0

/-- The transform of a value `i` of the type. -/
def ofTime (lib : TransformLib) (tr : IcebergTransform) (t : DataType) (i : ℤ) :
    Except String Value :=
  tr.applyMulti lib [(t, some (.temporal t i))]

/-- The transform gives the number of the period that the value is in. -/
def CountsPeriods (lib : TransformLib) (tr : IcebergTransform) (t : DataType) (i : ℤ) : Prop :=
  ∃ k, tr.ofTime lib t i = .ok (.int k) ∧ IsFloor tr.periodStart k (i * nanosPerTick t)

/-! ### The calendar of chrono -/

/-- The day is in one of the years. -/
def InYears (minYear maxYear d : ℤ) : Prop := yearStart minYear ≤ d ∧ d < yearStart (maxYear + 1)

instance {minYear maxYear d : ℤ} : Decidable (InYears minYear maxYear d) :=
  inferInstanceAs (Decidable (_ ∧ _))

/-- The documented behaviour of chrono, which has the days of a range of years. -/
structure CivilDates (lib : TransformLib) (minYear maxYear : ℤ) : Prop where
  epoch : minYear ≤ 1970 ∧ 1970 ≤ maxYear
  days : ∀ d, lib.dateOfDays d =
    if InYears minYear maxYear d then some (1970 + monthOfDay d / 12, monthOfDay d % 12 + 1)
    else none
  seconds : ∀ s, lib.dateOfSeconds s = lib.dateOfDays (s / 86400)

/-- A time before 1970 is in the last second before a period, but does not start it. -/
def BeforePeriod (tr : IcebergTransform) (i : ℤ) : Prop :=
  i < 0 ∧ ∃ k, tr.periodStart k - 1000000000 < i * 1000 ∧ i * 1000 < tr.periodStart k

/-- The values for which the periods are counted right. -/
def CountsRight (minYear maxYear : ℤ) (tr : IcebergTransform) (t : DataType) (i : ℤ) : Prop :=
  match t, tr with
  | .date32, .year | .date32, .month => InYears minYear maxYear i
  | .date32, .day => True
  | .timestamp .microsecond, .year | .timestamp .microsecond, .month =>
    InYears minYear maxYear (i / 86400000000) ∧ ¬ tr.BeforePeriod i
  | .timestamp .microsecond, .day => 0 ≤ i ∨ 86400000000 ∣ i
  | .timestamp .microsecond, .hour => 0 ≤ i ∨ 3600000000 ∣ i
  | _, _ => False

/-! ### Days and hours -/

lemma tdiv_isFloor_iff {n i : ℤ} (hn : 0 < n) :
    IsFloor (fun k => k * (n * 1000)) (i.tdiv n) (i * 1000) ↔ 0 ≤ i ∨ n ∣ i := by
  have hediv : IsFloor (fun k => k * (n * 1000)) (i / n) (i * 1000) := by
    have hle := Int.mul_ediv_self_le (x := i) hn.ne'
    have hlt := Int.lt_mul_ediv_self_add (x := i) hn
    constructor <;> nlinarith
  have hmono : StrictMono fun k : ℤ => k * (n * 1000) :=
    fun k l h => mul_lt_mul_of_pos_right h (by omega)
  constructor
  · intro h
    by_contra hneg
    have heq := h.eq hmono hediv
    rw [Int.tdiv_eq_ediv, if_neg hneg, Int.sign_eq_one_of_pos hn] at heq
    omega
  · intro h
    rwa [Int.tdiv_eq_ediv, if_pos h, add_zero]

/-! ### Years and months -/

section Calendar

variable {start floor : ℤ → ℤ} {i : ℤ}

lemma tdiv_million (i : ℤ) :
    i.tdiv 1000000 = i / 1000000 + if 0 ≤ i ∨ 1000000 ∣ i then 0 else 1 := by
  rw [Int.tdiv_eq_ediv]
  rfl

/-- The seconds of a time before 1970 are rounded up, into the next period in the last second
before one. -/
lemma isFloor_seconds_iff (hstart : StrictMono start) (hfloor : ∀ d, IsFloor start (floor d) d) :
    IsFloor (fun k => start k * 86400000000000) (floor (i.tdiv 1000000 / 86400)) (i * 1000) ↔
      ¬ (i < 0 ∧ ∃ k, start k * 86400000000000 - 1000000000 < i * 1000 ∧
        i * 1000 < start k * 86400000000000) := by
  have hday := hfloor (i.tdiv 1000000 / 86400)
  have hsec := tdiv_million i
  constructor
  · rintro ⟨hle, -⟩ ⟨hneg, k, hlo, hhi⟩
    -- the second starts the period `k`
    rw [if_neg (by omega)] at hsec
    have hk : IsFloor start k (i.tdiv 1000000 / 86400) := by
      have hstartk : i.tdiv 1000000 / 86400 = start k := by omega
      rw [hstartk]
      exact ⟨le_rfl, hstart (Int.lt_succ k)⟩
    simp only [hday.eq hstart hk] at hle
    omega
  · intro hnot
    obtain ⟨hle, hlt⟩ := hday
    by_cases hneg : i < 0
    · have hk := not_exists.1 (fun h => hnot ⟨hneg, h⟩) (floor (i.tdiv 1000000 / 86400))
      constructor <;> split_ifs at hsec <;> simp only <;> omega
    · rw [if_pos (Or.inl (not_lt.1 hneg))] at hsec
      constructor <;> simp only <;> omega

/-- The date that chrono is asked for is in the years it has if the time itself is. -/
lemma inYears_seconds_iff {minYear maxYear : ℤ} (hepoch : minYear ≤ 1970 ∧ 1970 ≤ maxYear)
    (hyears : ∀ y, ∃ k, start k = yearStart y)
    (hnot : ¬ (i < 0 ∧ ∃ k, start k * 86400000000000 - 1000000000 < i * 1000 ∧
      i * 1000 < start k * 86400000000000)) :
    InYears minYear maxYear (i.tdiv 1000000 / 86400) ↔
      InYears minYear maxYear (i / 86400000000) := by
  have hsec := tdiv_million i
  by_cases hneg : i < 0
  · have hend : 0 < yearStart (maxYear + 1) := by
      have h := yearStart_strictMono (show (0 : ℤ) < maxYear + 1 - 1970 by omega)
      simpa [yearStart] using h
    obtain ⟨k, hk⟩ := hyears minYear
    have hfirst := not_exists.1 (fun h => hnot ⟨hneg, h⟩) k
    rw [hk] at hfirst
    simp only [InYears]
    split_ifs at hsec <;> omega
  · rw [if_pos (Or.inl (not_lt.1 hneg))] at hsec
    have hday : i.tdiv 1000000 / 86400 = i / 86400000000 := by omega
    rw [hday]

end Calendar

lemma isFloor_yearOfDay (d : ℤ) :
    IsFloor (fun k => yearStart (1970 + k)) (monthOfDay d / 12) d := by
  have h := (isFloor_monthOfDay d).ediv (by norm_num : (0 : ℤ) < 12) monthStart_strictMono
  simpa only [monthStart_mul] using h

lemma countsPeriods_iff_of_eq {lib : TransformLib} {tr : IcebergTransform} {t : DataType}
    {i k : ℤ} {p : Prop} [Decidable p]
    (h : tr.ofTime lib t i = .ok (if p then .int k else .null)) :
    CountsPeriods lib tr t i ↔ p ∧ IsFloor tr.periodStart k (i * nanosPerTick t) := by
  rw [CountsPeriods, h]
  by_cases hp : p <;> simp [hp]

lemma not_countsPeriods_of_eq {lib : TransformLib} {tr : IcebergTransform} {t : DataType} {i : ℤ}
    (h : tr.ofTime lib t i = .ok .null) : ¬ CountsPeriods lib tr t i := by
  simp [CountsPeriods, h]

section Transforms

variable {lib : TransformLib} {minYear maxYear i : ℤ} (hdates : CivilDates lib minYear maxYear)

include hdates

/-- Year and month of a date. -/
lemma CivilDates.year_date (i : ℤ) : year.ofTime lib .date32 i =
    .ok (if InYears minYear maxYear i then .int (monthOfDay i / 12) else .null) := by
  simp only [ofTime, applyMulti_singleton, applyCells, yearMonth, hdates.days]
  split_ifs <;> simp

lemma CivilDates.month_date (i : ℤ) : month.ofTime lib .date32 i =
    .ok (if InYears minYear maxYear i then .int (monthOfDay i) else .null) := by
  simp only [ofTime, applyMulti_singleton, applyCells, yearMonth, hdates.days]
  split_ifs
  · simp only [Except.ok.injEq, Value.int.injEq]
    omega
  · rfl

lemma CivilDates.year_micros (i : ℤ) : year.ofTime lib (.timestamp .microsecond) i =
    .ok (if InYears minYear maxYear (i.tdiv 1000000 / 86400) then
      .int (monthOfDay (i.tdiv 1000000 / 86400) / 12) else .null) := by
  simp only [ofTime, applyMulti_singleton, applyCells, yearMonth, hdates.seconds, hdates.days]
  split_ifs <;> simp

lemma CivilDates.month_micros (i : ℤ) : month.ofTime lib (.timestamp .microsecond) i =
    .ok (if InYears minYear maxYear (i.tdiv 1000000 / 86400) then
      .int (monthOfDay (i.tdiv 1000000 / 86400)) else .null) := by
  simp only [ofTime, applyMulti_singleton, applyCells, yearMonth, hdates.seconds, hdates.days]
  split_ifs
  · simp only [Except.ok.injEq, Value.int.injEq]
    omega
  · rfl

lemma CivilDates.year_date_iff :
    CountsPeriods lib .year .date32 i ↔ InYears minYear maxYear i := by
  have hfloor := isFloor_yearOfDay i
  rw [countsPeriods_iff_of_eq (hdates.year_date i), and_iff_left_iff_imp]
  intro _
  simp only [IsFloor, periodStart, nanosPerTick] at hfloor ⊢
  omega

lemma CivilDates.month_date_iff :
    CountsPeriods lib .month .date32 i ↔ InYears minYear maxYear i := by
  have hfloor := isFloor_monthOfDay i
  rw [countsPeriods_iff_of_eq (hdates.month_date i), and_iff_left_iff_imp]
  intro _
  simp only [IsFloor, periodStart, nanosPerTick] at hfloor ⊢
  omega

lemma CivilDates.year_micros_iff : CountsPeriods lib .year (.timestamp .microsecond) i ↔
    InYears minYear maxYear (i / 86400000000) ∧ ¬ year.BeforePeriod i := by
  have hyears : ∀ y, ∃ k, yearStart (1970 + k) = yearStart y := fun y => ⟨y - 1970, by simp⟩
  have hfloor := isFloor_seconds_iff (i := i) yearStart_strictMono isFloor_yearOfDay
  rw [countsPeriods_iff_of_eq (hdates.year_micros i)]
  refine (and_congr_right fun _ => hfloor).trans (and_congr_left fun hnot => ?_)
  exact inYears_seconds_iff hdates.epoch hyears hnot

lemma CivilDates.month_micros_iff : CountsPeriods lib .month (.timestamp .microsecond) i ↔
    InYears minYear maxYear (i / 86400000000) ∧ ¬ month.BeforePeriod i := by
  have hyears : ∀ y, ∃ k, monthStart k = yearStart y :=
    fun y => ⟨12 * (y - 1970), by rw [monthStart_mul, add_sub_cancel]⟩
  have hfloor := isFloor_seconds_iff (i := i) monthStart_strictMono isFloor_monthOfDay
  rw [countsPeriods_iff_of_eq (hdates.month_micros i)]
  refine (and_congr_right fun _ => hfloor).trans (and_congr_left fun hnot => ?_)
  exact inYears_seconds_iff hdates.epoch hyears hnot

omit hdates in
lemma day_micros_iff :
    CountsPeriods lib .day (.timestamp .microsecond) i ↔ 0 ≤ i ∨ 86400000000 ∣ i := by
  have h : day.ofTime lib (.timestamp .microsecond) i =
      .ok (if True then .int (i.tdiv 86400000000) else .null) := rfl
  rw [countsPeriods_iff_of_eq h, true_and]
  exact tdiv_isFloor_iff (by norm_num)

omit hdates in
lemma hour_micros_iff :
    CountsPeriods lib .hour (.timestamp .microsecond) i ↔ 0 ≤ i ∨ 3600000000 ∣ i := by
  have h : hour.ofTime lib (.timestamp .microsecond) i =
      .ok (if True then .int (i.tdiv 3600000000) else .null) := rfl
  rw [countsPeriods_iff_of_eq h, true_and]
  exact tdiv_isFloor_iff (by norm_num)

omit hdates in
lemma day_date (lib : TransformLib) (i : ℤ) : CountsPeriods lib .day .date32 i := by
  refine ⟨i, rfl, ?_⟩
  simp only [IsFloor, periodStart, nanosPerTick]
  omega

lemma CivilDates.countsPeriods_iff {tr : IcebergTransform} (htr : tr ∈ timeTransforms)
    {t : DataType} (ht : t ∈ timeTypes) :
    CountsPeriods lib tr t i ↔ CountsRight minYear maxYear tr t i := by
  simp only [timeTransforms, timeTypes, List.mem_cons, List.not_mem_nil, or_false] at htr ht
  rcases ht with rfl | rfl | rfl | rfl | rfl | rfl
  case inl =>
    rcases htr with rfl | rfl | rfl | rfl
    · exact hdates.year_date_iff
    · exact hdates.month_date_iff
    · exact iff_of_true (day_date lib i) trivial
    · exact iff_of_false (not_countsPeriods_of_eq rfl) id
  case inr.inr.inr.inr.inl =>
    rcases htr with rfl | rfl | rfl | rfl
    · exact hdates.year_micros_iff
    · exact hdates.month_micros_iff
    · exact day_micros_iff
    · exact hour_micros_iff
  -- the other types are not handled
  all_goals
    refine iff_of_false (not_countsPeriods_of_eq ?_) ?_
    · rcases htr with rfl | rfl | rfl | rfl <;> rfl
    · rcases htr with rfl | rfl | rfl | rfl <;> exact id

end Transforms

/-! ### Order and consistency -/

lemma periodStart_strictMono {tr : IcebergTransform} (htr : tr ∈ timeTransforms) :
    StrictMono tr.periodStart := by
  simp only [timeTransforms, List.mem_cons, List.not_mem_nil, or_false] at htr
  intro k l h
  rcases htr with rfl | rfl | rfl | rfl
  · have hlt := yearStart_strictMono h
    simp only [periodStart] at hlt ⊢
    omega
  · have hlt := monthStart_strictMono h
    simp only [periodStart]
    omega
  all_goals
    simp only [periodStart]
    omega

/-- The period in the result. -/
lemma CountsPeriods.isFloor {lib : TransformLib} {tr : IcebergTransform} {t : DataType} {i k : ℤ}
    (h : CountsPeriods lib tr t i) (hk : tr.ofTime lib t i = .ok (.int k)) :
    IsFloor tr.periodStart k (i * nanosPerTick t) := by
  obtain ⟨l, hl, hfloor⟩ := h
  obtain rfl : k = l := by simpa [hk] using hl
  exact hfloor

/-- Counts of smaller periods divided down give those of the larger ones that consist of `n`. -/
lemma CountsPeriods.ediv_eq {lib : TransformLib} {small large : IcebergTransform} {t : DataType}
    {i k l n : ℤ} (hsmall : CountsPeriods lib small t i) (hlarge : CountsPeriods lib large t i)
    (hmem : small ∈ timeTransforms) (hmem' : large ∈ timeTransforms) (hn : 0 < n)
    (hparts : ∀ m, small.periodStart (n * m) = large.periodStart m)
    (hk : small.ofTime lib t i = .ok (.int k)) (hl : large.ofTime lib t i = .ok (.int l)) :
    k / n = l := by
  have hdiv := (hsmall.isFloor hk).ediv hn (periodStart_strictMono hmem)
  simp only [hparts] at hdiv
  exact hdiv.eq (periodStart_strictMono hmem') (hlarge.isFloor hl)

lemma nanosPerTick_pos {t : DataType} (ht : t ∈ timeTypes) : 0 < nanosPerTick t := by
  simp only [timeTypes, List.mem_cons, List.not_mem_nil, or_false] at ht
  rcases ht with rfl | rfl | rfl | rfl | rfl | rfl <;> decide

/-- The time transforms count the periods up to a value exactly if `CountsRight`. Among such values
they are monotone, and counts of hours and months divided down give days and years. -/
theorem countsPeriods_spec {lib : TransformLib} {minYear maxYear : ℤ}
    (hdates : CivilDates lib minYear maxYear) :
    (∀ tr ∈ timeTransforms, ∀ t ∈ timeTypes, ∀ i,
      CountsPeriods lib tr t i ↔ CountsRight minYear maxYear tr t i) ∧
    (∀ tr ∈ timeTransforms, ∀ t ∈ timeTypes, ∀ i j k l, i ≤ j →
      CountsRight minYear maxYear tr t i → CountsRight minYear maxYear tr t j →
      tr.ofTime lib t i = .ok (.int k) → tr.ofTime lib t j = .ok (.int l) → k ≤ l) ∧
    (∀ t ∈ timeTypes, ∀ i k l,
      CountsRight minYear maxYear .hour t i → CountsRight minYear maxYear .day t i →
      hour.ofTime lib t i = .ok (.int k) → day.ofTime lib t i = .ok (.int l) → k / 24 = l) ∧
    ∀ t ∈ timeTypes, ∀ i k l,
      CountsRight minYear maxYear .month t i → CountsRight minYear maxYear .year t i →
      month.ofTime lib t i = .ok (.int k) → year.ofTime lib t i = .ok (.int l) → k / 12 = l := by
  have hiff {tr : IcebergTransform} (htr : tr ∈ timeTransforms) {t : DataType}
      (ht : t ∈ timeTypes) (i : ℤ) :
      CountsPeriods lib tr t i ↔ CountsRight minYear maxYear tr t i :=
    hdates.countsPeriods_iff htr ht
  refine ⟨fun tr htr t ht i => hiff htr ht i, ?_, ?_, ?_⟩
  · intro tr htr t ht i j k l hij hi hj hk hl
    have hfloor := ((hiff htr ht i).2 hi).isFloor hk
    have hfloor' := ((hiff htr ht j).2 hj).isFloor hl
    exact hfloor.le_of_le (periodStart_strictMono htr) hfloor'
      (mul_le_mul_of_nonneg_right hij (nanosPerTick_pos ht).le)
  · intro t ht i k l hhour hday hk hl
    have hmem : hour ∈ timeTransforms := by decide
    have hmem' : day ∈ timeTransforms := by decide
    refine CountsPeriods.ediv_eq ((hiff hmem ht i).2 hhour) ((hiff hmem' ht i).2 hday) hmem hmem'
      (by norm_num) ?_ hk hl
    intro m
    simp only [periodStart]
    ring
  · intro t ht i k l hmonth hyear hk hl
    have hmem : month ∈ timeTransforms := by decide
    have hmem' : year ∈ timeTransforms := by decide
    refine CountsPeriods.ediv_eq ((hiff hmem ht i).2 hmonth) ((hiff hmem' ht i).2 hyear) hmem hmem'
      (by norm_num) ?_ hk hl
    intro m
    simp only [periodStart, monthStart_mul]

/-- The calendar with the years that chrono has. -/
def civilLib : TransformLib where
  murmur3 _ _ := 0
  dateOfDays d :=
    if InYears (-262143) 262142 d then some (1970 + monthOfDay d / 12, monthOfDay d % 12 + 1)
    else none
  dateOfSeconds s :=
    if InYears (-262143) 262142 (s / 86400) then
      some (1970 + monthOfDay (s / 86400) / 12, monthOfDay (s / 86400) % 12 + 1)
    else none

lemma civilDates_civilLib : CivilDates civilLib (-262143) 262142 :=
  ⟨by decide, fun _ => rfl, fun _ => rfl⟩

theorem countsPeriods_spec_civilLib :
    CountsPeriods civilLib .month .date32 (-1) ∧
      CountsPeriods civilLib .hour (.timestamp .microsecond) 7200000001 := by
  obtain ⟨hiff, -⟩ := countsPeriods_spec civilDates_civilLib
  have hyears : InYears (-262143) 262142 (-1) := by decide
  exact ⟨(hiff .month (by decide) .date32 (by decide) (-1)).2 hyears,
    (hiff .hour (by decide) (.timestamp .microsecond) (by decide) 7200000001).2
      (Or.inl (by decide))⟩

/-- The microsecond before 1970 is counted to the first day and the first hour of 1970. -/
theorem not_countsPeriods :
    ¬ CountsPeriods civilLib .day (.timestamp .microsecond) (-1) ∧
      ¬ CountsPeriods civilLib .hour (.timestamp .microsecond) (-1) := by
  rw [day_micros_iff, hour_micros_iff]
  decide

end IcebergTransform

end BenoStreamDB

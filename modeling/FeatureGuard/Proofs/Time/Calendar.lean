import Mathlib
import FeatureGuard.Time.Calendar

/-!
The Gregorian calendar by its rules: which years have a leap day, how long the months are, and which
date follows another one. The dates of the days are reckoned in accordance with them: every day has
a date of the calendar, the next day has the next date, and the number of a day is found again in
its date.
-/

namespace FeatureGuard.Date

/-! ### The rules of the calendar -/

/-- Every fourth year has a leap day, but of the last years of the centuries only every fourth. -/
def IsLeap (year : ℤ) : Prop := 4 ∣ year ∧ (100 ∣ year → 400 ∣ year)

instance (year : ℤ) : Decidable (IsLeap year) := inferInstanceAs (Decidable (_ ∧ _))

/-- How many leap days a year has. -/
def leapDays (year : ℤ) : ℕ := if IsLeap year then 1 else 0

def monthLength (year : ℤ) (month : ℕ) : ℕ :=
  if month = 2 then 28 + leapDays year else if month ∈ [4, 6, 9, 11] then 30 else 31

/-- A date that the calendar has. -/
structure Valid (d : Date) : Prop where
  month_pos : 1 ≤ d.month
  month_le : d.month ≤ 12
  day_pos : 1 ≤ d.day
  day_le : d.day ≤ monthLength d.year d.month

/-- The date of the day after. -/
def next (d : Date) : Date :=
  if d.day < monthLength d.year d.month then { d with day := d.day + 1 }
  else if d.month < 12 then { d with month := d.month + 1, day := 1 }
  else { year := d.year + 1, month := 1, day := 1 }

/-! ### The number of a day -/

/-- The days from the first of January of the year 1 to that of a given year. -/
def yearStart (year : ℤ) : ℤ :=
  365 * (year - 1) + (year - 1) / 4 - (year - 1) / 100 + (year - 1) / 400

/-- The days of the months before a given one. -/
def monthStart (year : ℤ) (month : ℕ) : ℕ := ∑ m ∈ Finset.Ico 1 month, monthLength year m

/-- The number of the day with a given date, counted from the first of January 1970. -/
def number (d : Date) : ℤ :=
  yearStart d.year + monthStart d.year d.month + d.day - 1 - yearStart 1970

theorem yearStart_succ (year : ℤ) : yearStart (year + 1) = yearStart year + 365 + leapDays year := by
  by_cases hleap : IsLeap year
  · rw [leapDays, if_pos hleap]
    obtain ⟨hfour, hcentury⟩ := hleap
    simp only [yearStart]
    omega
  · rw [leapDays, if_neg hleap]
    rw [IsLeap] at hleap
    simp only [yearStart]
    omega

theorem monthStart_one (year : ℤ) : monthStart year 1 = 0 := rfl

theorem monthStart_succ (year : ℤ) {month : ℕ} (h : 1 ≤ month) :
    monthStart year (month + 1) = monthStart year month + monthLength year month :=
  Finset.sum_Ico_succ_top h _

/-- The months from March on have the lengths that 153 days in every five months give. -/
theorem monthStart_eq (year : ℤ) {month : ℕ} (hpos : 1 ≤ month) (hle : month ≤ 12) :
    monthStart year month =
      if month ≤ 2 then 31 * (month - 1)
      else (153 * (month - 3) + 2) / 5 + 59 + leapDays year := by
  interval_cases month <;>
    simp [monthStart, Finset.sum_Ico_succ_top, monthLength] <;> omega

theorem monthStart_thirteen (year : ℤ) : monthStart year 13 = 365 + leapDays year := by
  rw [monthStart_succ year (by omega), monthStart_eq year (by omega) (by omega)]
  simp [monthLength]
  omega

theorem number_next {d : Date} (h : d.Valid) : d.next.number = d.number + 1 := by
  have hday := h.day_le
  have hmonth := h.month_le
  rw [next]
  split_ifs with hwithin hearlier
  · simp only [number]
    omega
  · simp only [number, monthStart_succ d.year h.month_pos]
    omega
  · have hlast : d.month = 12 := by omega
    have hlength := monthStart_succ d.year (show 1 ≤ 12 by omega)
    rw [monthStart_thirteen] at hlength
    rw [hlast] at hday hwithin
    simp only [number, yearStart_succ, monthStart_one, hlast]
    omega

/-! ### The date of a day -/

/-- A day within 400 years: the full centuries before it, the full four years within its century,
the full years within these, and the days of its year. -/
structure Splits (day century four last rest : ℕ) : Prop where
  day_eq : day = 36524 * century + 1461 * four + 365 * last + rest
  century_le : century ≤ 3
  four_le : four ≤ 24
  last_le : last ≤ 3
  rest_le : rest ≤ 365
  /-- a leap day ends four years, and the last of a century only at the end of all -/
  leap : rest = 365 → last = 3 ∧ (four = 24 → century = 3)

theorem exists_splits {day : ℕ} (h : day < 146097) : ∃ century four last rest,
    yearOf day = 100 * century + 4 * four + last ∧ Splits day century four last rest := by
  obtain ⟨century, hcentury⟩ : ∃ century, century = min (day / 36524) 3 := ⟨_, rfl⟩
  obtain ⟨ofCentury, hofCentury⟩ : ∃ rest, rest = day - century * 36524 := ⟨_, rfl⟩
  obtain ⟨four, hfour⟩ : ∃ four, four = ofCentury / 1461 := ⟨_, rfl⟩
  obtain ⟨ofFour, hofFour⟩ : ∃ rest, rest = ofCentury - four * 1461 := ⟨_, rfl⟩
  obtain ⟨last, hlast⟩ : ∃ last, last = min (ofFour / 365) 3 := ⟨_, rfl⟩
  have hday : day = 36524 * century + ofCentury ∧ century ≤ 3 ∧
      (century < 3 → ofCentury < 36524) ∧ ofCentury < 36525 := by omega
  have hofCentury : ofCentury = 1461 * four + ofFour ∧ ofFour < 1461 := by omega
  have hofFour : ofFour = 365 * last + (ofFour - 365 * last) ∧ last ≤ 3 ∧
      (last < 3 → ofFour - 365 * last < 365) := by omega
  refine ⟨century, four, last, ofFour - 365 * last, by subst_vars; rfl, ?_⟩
  constructor <;> omega

/-- The days before a year, by its centuries, periods of four years, and single years. -/
theorem daysBefore_eq {century four last : ℕ} (hcentury : century ≤ 3) (hfour : four ≤ 24)
    (hlast : last ≤ 3) : daysBefore (100 * century + 4 * four + last) =
      36524 * century + 1461 * four + 365 * last := by
  simp only [daysBefore]
  omega

theorem daysBefore_century {century : ℕ} (h : century ≤ 4) :
    daysBefore (100 * century) = 36524 * century + century / 4 := by
  simp only [daysBefore]
  omega

theorem yearOf_spec {day : ℕ} (h : day < 146097) :
    yearOf day < 400 ∧ daysBefore (yearOf day) ≤ day ∧ day < daysBefore (yearOf day + 1) := by
  obtain ⟨century, four, last, rest, hyear, hday, hcentury, hfour, hlast, hrest, hleap⟩ :=
    exists_splits h
  rw [hyear]
  have hbefore := daysBefore_eq hcentury hfour hlast
  refine ⟨by omega, by omega, ?_⟩
  -- the year after is one of the same four, or of the same century, or the first of the next one
  rcases Nat.lt_or_ge last 3 with hinside | hend
  · have hafter := daysBefore_eq hcentury hfour (show last + 1 ≤ 3 by omega)
    rw [← Nat.add_assoc] at hafter
    omega
  rcases Nat.lt_or_ge four 24 with hinside | hlater
  · have hnext : 100 * century + 4 * four + last + 1 = 100 * century + 4 * (four + 1) + 0 := by
      omega
    have hafter := daysBefore_eq hcentury (show four + 1 ≤ 24 by omega) (Nat.zero_le 3)
    rw [hnext]
    omega
  · have hnext : 100 * century + 4 * four + last + 1 = 100 * (century + 1) := by omega
    have hafter := daysBefore_century (show century + 1 ≤ 4 by omega)
    rw [hnext]
    omega

/-- The year that starts with March lies within two years of the calendar. -/
theorem yearStart_cycle (cycle : ℤ) {year : ℕ} (h : year ≤ 400) :
    yearStart (400 * cycle + year + 1) = 146097 * cycle + daysBefore year := by
  simp only [yearStart, daysBefore]
  omega

theorem leapDays_cycle (cycle : ℤ) {year : ℕ} (h : year < 400) :
    daysBefore (year + 1) = daysBefore year + 365 + leapDays (400 * cycle + year + 1) := by
  have hthis := yearStart_cycle cycle h.le
  have hnext := yearStart_cycle cycle (Nat.succ_le_of_lt h)
  rw [Nat.succ_eq_add_one, Nat.cast_add, Nat.cast_one, ← add_assoc, yearStart_succ] at hnext
  omega

/-- What the reckoning makes of a day: the 400 years that it lies in, its year among these, which
starts with March, and its month and day in that year. -/
structure Reckons (n : ℤ) (cycle : ℤ) (year month day : ℕ) : Prop where
  number_eq : n + epoch = 146097 * cycle + daysBefore year + (153 * month + 2) / 5 + day
  year_lt : year < 400
  month_lt : month < 12
  day_lt : (153 * month + 2) / 5 + day < (153 * (month + 1) + 2) / 5
  within : (153 * month + 2) / 5 + day < 365 + leapDays (400 * cycle + year + 1)

theorem exists_reckons (n : ℤ) : ∃ cycle year month day, Reckons n cycle year month day ∧
    ofDay n =
      if month < 10 then ⟨400 * cycle + year, month + 3, day + 1⟩
      else ⟨400 * cycle + year + 1, month - 9, day + 1⟩ := by
  obtain ⟨cycle, hcycle⟩ : ∃ cycle, cycle = (n + epoch) / 146097 := ⟨_, rfl⟩
  obtain ⟨shifted, hshifted⟩ : ∃ day, day = ((n + epoch) % 146097).toNat := ⟨_, rfl⟩
  have hn : n + epoch = 146097 * cycle + shifted ∧ shifted < 146097 := by omega
  obtain ⟨hyear, hstart, hend⟩ := yearOf_spec hn.2
  rw [leapDays_cycle cycle hyear] at hend
  obtain ⟨ofYear, hofYear⟩ : ∃ day, day = shifted - daysBefore (yearOf shifted) := ⟨_, rfl⟩
  obtain ⟨month, hmonth⟩ : ∃ month, month = (5 * ofYear + 2) / 153 := ⟨_, rfl⟩
  have hleap : leapDays (400 * cycle + (yearOf shifted : ℕ) + 1) ≤ 1 := by
    rw [leapDays]
    split_ifs <;> omega
  refine ⟨cycle, yearOf shifted, month, ofYear - (153 * month + 2) / 5, ?_, ?_⟩
  · constructor <;> omega
  · have hdate : ofDay n = ⟨400 * cycle + (yearOf shifted : ℕ) +
        (if (if month < 10 then month + 3 else month - 9) ≤ 2 then 1 else 0),
        if month < 10 then month + 3 else month - 9, ofYear - (153 * month + 2) / 5 + 1⟩ := by
      subst hcycle hshifted hofYear hmonth
      rfl
    rw [hdate]
    split_ifs with hearly hjanuary hjanuary
    · omega
    · rw [add_zero]
    · rfl
    · omega

theorem yearStart_epoch : yearStart 1970 = 719162 := by decide

/-- The number of a day is found again in its date. -/
theorem number_ofDay (n : ℤ) : (ofDay n).number = n := by
  obtain ⟨cycle, year, month, day, ⟨hnumber, hyear, hmonth, hday, hwithin⟩, hdate⟩ :=
    exists_reckons n
  have hstart := yearStart_cycle cycle hyear.le
  have hnext := yearStart_succ (400 * cycle + year)
  rw [epoch] at hnumber
  rw [hdate]
  split_ifs with hearly
  · have hmonths := monthStart_eq (400 * cycle + year) (show 1 ≤ month + 3 by omega) (by omega)
    rw [if_neg (by omega)] at hmonths
    simp only [number, hmonths, yearStart_epoch]
    omega
  · have hmonths :=
      monthStart_eq (400 * cycle + year + 1) (show 1 ≤ month - 9 by omega) (by omega)
    rw [if_pos (by omega)] at hmonths
    simp only [number, hmonths, hstart, yearStart_epoch]
    omega

/-- Every day has a date of the calendar. -/
theorem valid_ofDay (n : ℤ) : (ofDay n).Valid := by
  obtain ⟨cycle, year, month, day, ⟨hnumber, hyear, hmonth, hday, hwithin⟩, hdate⟩ :=
    exists_reckons n
  rw [hdate]
  split_ifs with hearly
  · refine ⟨by simp, by simp; omega, by simp, ?_⟩
    show day + 1 ≤ monthLength _ (month + 3)
    interval_cases month <;> simp [monthLength] <;> omega
  · refine ⟨by simp; omega, by simp; omega, by simp, ?_⟩
    show day + 1 ≤ monthLength _ (month - 9)
    interval_cases month <;> simp [monthLength] <;> omega

/-! ### The date of the next day -/

theorem monotone_yearStart : Monotone yearStart :=
  monotone_int_of_le_succ fun year => by
    rw [yearStart_succ]
    omega

theorem monotone_monthStart (year : ℤ) : Monotone (monthStart year) := fun _ _ h =>
  Finset.sum_le_sum_of_subset (Finset.Ico_subset_Ico_right h)

theorem monthLength_pos (year : ℤ) (month : ℕ) : 1 ≤ monthLength year month := by
  rw [monthLength]
  split_ifs <;> omega

theorem Valid.le_monthStart {d : Date} (h : d.Valid) {month : ℕ} (hmonth : d.month < month) :
    monthStart d.year d.month + d.day ≤ monthStart d.year month :=
  calc monthStart d.year d.month + d.day
      ≤ monthStart d.year d.month + monthLength d.year d.month := Nat.add_le_add_left h.day_le _
    _ = monthStart d.year (d.month + 1) := (monthStart_succ d.year h.month_pos).symm
    _ ≤ monthStart d.year month := monotone_monthStart d.year hmonth

theorem Valid.number_lt_of_year_lt {d e : Date} (hd : d.Valid) (he : e.Valid)
    (h : d.year < e.year) : d.number < e.number := by
  have hlast := hd.le_monthStart (show d.month < 13 from Nat.lt_succ_of_le hd.month_le)
  rw [monthStart_thirteen] at hlast
  have hyears : yearStart (d.year + 1) ≤ yearStart e.year := monotone_yearStart h
  rw [yearStart_succ] at hyears
  have hday := he.day_pos
  simp only [number]
  omega

theorem Valid.number_lt_of_month_lt {d e : Date} (hd : d.Valid) (he : e.Valid)
    (hyear : d.year = e.year) (h : d.month < e.month) : d.number < e.number := by
  have hmonths := hd.le_monthStart h
  have hday := he.day_pos
  simp only [number, ← hyear]
  omega

/-- Different dates have different numbers. -/
theorem Valid.eq_of_number_eq {d e : Date} (hd : d.Valid) (he : e.Valid)
    (h : d.number = e.number) : d = e := by
  have hyear : d.year = e.year := by
    rcases lt_trichotomy d.year e.year with hlt | heq | hlt
    · exact absurd h (hd.number_lt_of_year_lt he hlt).ne
    · exact heq
    · exact absurd h (he.number_lt_of_year_lt hd hlt).ne'
  have hmonth : d.month = e.month := by
    rcases lt_trichotomy d.month e.month with hlt | heq | hlt
    · exact absurd h (hd.number_lt_of_month_lt he hyear hlt).ne
    · exact heq
    · exact absurd h (he.number_lt_of_month_lt hd hyear.symm hlt).ne'
  have hday : d.day = e.day := by
    simp only [number, hyear, hmonth] at h
    omega
  obtain ⟨_, _, _⟩ := d
  obtain ⟨_, _, _⟩ := e
  simp_all

theorem Valid.next {d : Date} (h : d.Valid) : d.next.Valid := by
  rw [Date.next]
  split_ifs with hday hmonth
  · exact ⟨h.month_pos, h.month_le, by simp, hday⟩
  · exact ⟨by simp, hmonth, le_rfl, monthLength_pos _ _⟩
  · exact ⟨le_rfl, by simp, le_rfl, monthLength_pos _ _⟩

/-- The day after has the date after. -/
theorem ofDay_succ (n : ℤ) : ofDay (n + 1) = (ofDay n).next := by
  refine (valid_ofDay (n + 1)).eq_of_number_eq (valid_ofDay n).next ?_
  rw [number_ofDay, number_next (valid_ofDay n), number_ofDay]

end FeatureGuard.Date

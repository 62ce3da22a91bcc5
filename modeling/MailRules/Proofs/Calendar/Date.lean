import Mathlib
import MailRules.Calendar.Date
/-!
The calendar day by day. Day numbers count the days from the first of January of year 1 on, each the
day after the one before by the lengths of months and the rule of leap years; and the date of a day
number is the day that has it.
-/
namespace MailRules.Calendar

/-- A day of the calendar, in whatever year from 1 on. -/
def Date.Proper (d : Date) : Prop :=
  1 ≤ d.year ∧ 1 ≤ d.month ∧ d.month ≤ 12 ∧ 1 ≤ d.day ∧ d.day ≤ daysInMonth d.year d.month

instance (d : Date) : Decidable d.Proper := by unfold Date.Proper; infer_instance

def Date.first : Date := ⟨1, 1, 1⟩

def Date.next (d : Date) : Date :=
  if d.day < daysInMonth d.year d.month then ⟨d.year, d.month, d.day + 1⟩
  else if d.month < 12 then ⟨d.year, d.month + 1, 1⟩
  else ⟨d.year + 1, 1, 1⟩

variable {d e : Date} {year month day : Nat}

theorem Date.proper_mk (start : 1 ≤ year) (low : 1 ≤ month) (high : month ≤ 12) (first : 1 ≤ day)
    (last : day ≤ daysInMonth year month) : (Date.mk year month day).Proper :=
  ⟨start, low, high, first, last⟩

theorem Date.valid_iff : d.Valid ↔ d.Proper ∧ d.year ≤ maxYear := by
  unfold Date.Valid Date.Proper
  constructor
  · rintro ⟨start, limit, rest⟩
    exact ⟨⟨start, rest⟩, limit⟩
  · rintro ⟨⟨start, rest⟩, limit⟩
    exact ⟨start, limit, rest⟩

/-! Lengths of months and years -/

theorem isLeap_iff (year : Nat) : isLeap year = true ↔ year % 4 = 0 ∧ (year % 100 ≠ 0 ∨ year % 400 = 0) := by
  simp [isLeap]

def yearLength (year : Nat) : Nat := if isLeap year then 366 else 365

theorem month_positive (year : Nat) (low : 1 ≤ month) (high : month ≤ 12) : 28 ≤ daysInMonth year month := by
  unfold daysInMonth monthLengths
  cases isLeap year <;> interval_cases month <;> decide

theorem daysBeforeMonth_succ (year : Nat) (low : 1 ≤ month) (high : month < 12) :
    daysBeforeMonth year (month + 1) = daysBeforeMonth year month + daysInMonth year month := by
  unfold daysBeforeMonth daysInMonth monthLengths
  cases isLeap year <;> interval_cases month <;> rfl

theorem december (year : Nat) :
    daysInMonth year 12 = 31 ∧ daysBeforeMonth year 12 + 31 = yearLength year := by
  unfold daysBeforeMonth daysInMonth monthLengths yearLength
  cases isLeap year <;> decide

theorem daysBeforeMonth_le (year : Nat) (low : 1 ≤ month) (high : month ≤ 12) :
    daysBeforeMonth year month + daysInMonth year month ≤ yearLength year := by
  unfold daysBeforeMonth daysInMonth monthLengths yearLength
  cases isLeap year <;> interval_cases month <;> decide

theorem daysBeforeYear_succ (start : 1 ≤ year) :
    daysBeforeYear (year + 1) = daysBeforeYear year + yearLength year := by
  obtain ⟨y, rfl⟩ : ∃ y, year = y + 1 := ⟨year - 1, by omega⟩
  have fewer : y / 100 ≤ y / 4 := Nat.div_le_div_left (by decide) (by decide)
  have fours : (y + 1) / 4 = y / 4 + if 4 ∣ y + 1 then 1 else 0 := Nat.succ_div
  have hundreds : (y + 1) / 100 = y / 100 + if 100 ∣ y + 1 then 1 else 0 := Nat.succ_div
  have cycles : (y + 1) / 400 = y / 400 + if 400 ∣ y + 1 then 1 else 0 := Nat.succ_div
  have rule := isLeap_iff (y + 1)
  simp only [Nat.dvd_iff_mod_eq_zero] at fours hundreds cycles
  simp only [daysBeforeYear, yearLength, Nat.add_sub_cancel, fours, hundreds, cycles, rule]
  generalize y / 4 = a, y / 100 = b, y / 400 = c at fewer
  split_ifs <;> omega

theorem daysBeforeYear_mono {y z : Nat} (start : 1 ≤ y) (le : y ≤ z) :
    daysBeforeYear y ≤ daysBeforeYear z := by
  induction z, le using Nat.le_induction with
  | base => exact Nat.le_refl _
  | succ z le ih =>
    rw [daysBeforeYear_succ (Nat.le_trans start le)]
    omega

/-! Counting days -/

theorem Date.proper_first : Date.first.Proper := by decide

/-- The day after is a day of the calendar, and its number is the next one. -/
theorem Date.next_counts (proper : d.Proper) :
    d.next.Proper ∧ d.next.dayNumber = d.dayNumber + 1 := by
  obtain ⟨start, low, high, first, last⟩ := proper
  unfold Date.next
  split
  · rename_i within
    exact ⟨Date.proper_mk start low high (by omega) within, rfl⟩
  · split
    · rename_i notWithin within
      have positive := month_positive d.year (show 1 ≤ d.month + 1 by omega) within
      refine ⟨Date.proper_mk start (by omega) within (Nat.le_refl 1) (by omega), ?_⟩
      have before := daysBeforeMonth_succ d.year low within
      simp only [Date.dayNumber, before]
      omega
    · have last_month : d.month = 12 := by omega
      have lengths := december d.year
      have positive := month_positive (d.year + 1) (Nat.le_refl 1) (by decide)
      refine ⟨Date.proper_mk (by omega) (by decide) (by decide) (Nat.le_refl 1) (by omega), ?_⟩
      have before := daysBeforeYear_succ start
      have none : daysBeforeMonth (d.year + 1) 1 = 0 := rfl
      have day : d.day = 31 := by
        rename_i full _
        rw [last_month] at full last
        omega
      simp only [Date.dayNumber, before, none, last_month, day]
      omega

theorem Date.exists_before (proper : d.Proper) (later : d ≠ .first) :
    ∃ e : Date, e.Proper ∧ e.next = d := by
  obtain ⟨y, m, n⟩ := d
  obtain ⟨start, low, high, first, last⟩ := proper
  dsimp only at start low high first last
  by_cases sameMonth : 1 < n
  · refine ⟨⟨y, m, n - 1⟩, Date.proper_mk start low high (by omega) (by omega), ?_⟩
    have within : n - 1 < daysInMonth y m := by omega
    have one : n - 1 + 1 = n := by omega
    simp [Date.next, within, one]
  · have one : n = 1 := by omega
    subst one
    by_cases sameYear : 1 < m
    · have positive := month_positive y (show 1 ≤ m - 1 by omega) (by omega)
      refine ⟨⟨y, m - 1, daysInMonth y (m - 1)⟩,
        Date.proper_mk start (by omega) (by omega) (by omega) (Nat.le_refl _), ?_⟩
      have within : m - 1 < 12 := by omega
      have same : m - 1 + 1 = m := by omega
      simp [Date.next, within, same]
    · have january : m = 1 := by omega
      subst january
      have after : 1 < y := by
        by_contra early
        have one : y = 1 := by omega
        exact later (by rw [one]; rfl)
      refine ⟨⟨y - 1, 12, 31⟩, Date.proper_mk (by omega) (by decide) (by decide) (by decide)
        (Nat.le_of_eq (december _).1.symm), ?_⟩
      have same : y - 1 + 1 = y := by omega
      simp [Date.next, december, same]

theorem Date.dayNumber_first : Date.first.dayNumber = 1 := by decide

theorem Date.dayNumber_pos (proper : d.Proper) : 1 ≤ d.dayNumber := by
  have first : 1 ≤ d.day := proper.2.2.2.1
  simp only [Date.dayNumber]
  omega

/-- Every day is come to from the first by going on day by day, and its number is the count. -/
theorem Date.eq_iterate (n : Nat) (proper : d.Proper) (number : d.dayNumber = n + 1) :
    d = Date.next^[n] .first := by
  induction n generalizing d with
  | zero =>
    by_contra later
    obtain ⟨e, properBefore, rfl⟩ := Date.exists_before proper later
    have := Date.next_counts properBefore
    have := Date.dayNumber_pos properBefore
    omega
  | succ n ih =>
    have later : d ≠ .first := by
      rintro rfl
      rw [Date.dayNumber_first] at number
      omega
    obtain ⟨e, properBefore, rfl⟩ := Date.exists_before proper later
    have next := (Date.next_counts properBefore).2
    have before : e.dayNumber = n + 1 := by omega
    rw [Function.iterate_succ_apply', ← ih properBefore before]

theorem Date.dayNumber_injective (proper : d.Proper) (properToo : e.Proper)
    (same : d.dayNumber = e.dayNumber) : d = e := by
  have positive := Date.dayNumber_pos proper
  obtain ⟨n, number⟩ : ∃ n, d.dayNumber = n + 1 := ⟨d.dayNumber - 1, by omega⟩
  rw [Date.eq_iterate n proper number, Date.eq_iterate n properToo (by omega)]

theorem Date.dayNumber_bounds (proper : d.Proper) :
    daysBeforeYear d.year < d.dayNumber ∧ d.dayNumber ≤ daysBeforeYear (d.year + 1) := by
  obtain ⟨start, low, high, first, last⟩ := proper
  have within := daysBeforeMonth_le d.year low high
  rw [daysBeforeYear_succ start]
  simp only [Date.dayNumber]
  omega

theorem Date.dayNumber_le_iff (proper : d.Proper) : d.dayNumber ≤ maxDayNumber ↔ d.year ≤ maxYear := by
  have bounds := Date.dayNumber_bounds proper
  have limit : daysBeforeYear (maxYear + 1) = maxDayNumber := by decide
  constructor
  · intro within
    by_contra beyond
    have := daysBeforeYear_mono (y := maxYear + 1) (z := d.year) (by decide) (by omega)
    omega
  · intro within
    have := daysBeforeYear_mono (y := d.year + 1) (z := maxYear + 1) (by omega) (by omega)
    omega

/-! The date of a day number -/

theorem monthAndDay_within (lengths : List Nat) (month days : Nat) (within : days < lengths.sum) :
    ∃ i < lengths.length, ∃ day, monthAndDay month days lengths = (month + i, day) ∧
      1 ≤ day ∧ day ≤ lengths.getD i 0 ∧ (lengths.take i).sum + day = days + 1 := by
  induction lengths generalizing month days with
  | nil => simp at within
  | cons length rest ih =>
    by_cases here : days < length
    · refine ⟨0, by simp, days + 1, ?_⟩
      simp [monthAndDay, here]
    · rw [List.sum_cons] at within
      obtain ⟨i, inside, day, found, first, last, count⟩ := ih (month + 1) (days - length) (by omega)
      refine ⟨i + 1, by simpa using inside, day, ?_, first, by simpa using last, ?_⟩
      · rw [monthAndDay, if_neg here, found, Nat.add_assoc, Nat.add_comm 1]
      · rw [List.take_succ_cons, List.sum_cons]
        omega

theorem monthLengths_sum : (monthLengths year).sum = yearLength year := by
  unfold monthLengths yearLength
  cases isLeap year <;> rfl

theorem Date.ofYearDay (start : 1 ≤ year) {days : Nat} (within : days < yearLength year) :
    (Date.mk year (monthAndDay 1 days (monthLengths year)).1
      (monthAndDay 1 days (monthLengths year)).2).Proper ∧
    (Date.mk year (monthAndDay 1 days (monthLengths year)).1
      (monthAndDay 1 days (monthLengths year)).2).dayNumber = daysBeforeYear year + days + 1 := by
  rw [← monthLengths_sum] at within
  obtain ⟨i, inside, day, found, first, last, count⟩ := monthAndDay_within _ 1 days within
  have twelve : (monthLengths year).length = 12 := rfl
  have same : 1 + i - 1 = i := by omega
  rw [found]
  refine ⟨Date.proper_mk start (by omega) (by omega) first ?_, ?_⟩
  · rw [daysInMonth, same]
    exact last
  · simp only [Date.dayNumber, daysBeforeMonth, same, ← List.sum_eq_foldl]
    omega

theorem daysBeforeYear_cycles {a b c e : Nat} (centuries : b ≤ 3) (fours : c ≤ 24) (years : e ≤ 3) :
    daysBeforeYear (a * 400 + b * 100 + c * 4 + e + 1) = a * 146097 + b * 36524 + c * 1461 + e * 365 := by
  have four : (a * 400 + b * 100 + c * 4 + e) / 4 = a * 100 + b * 25 + c := by omega
  have hundred : (a * 400 + b * 100 + c * 4 + e) / 100 = a * 4 + b := by omega
  have cycle : (a * 400 + b * 100 + c * 4 + e) / 400 = a := by omega
  simp only [daysBeforeYear, Nat.add_sub_cancel, four, hundred, cycle]
  omega

theorem Date.lastDay (leap : isLeap year = true) (start : 1 ≤ year) :
    (Date.mk year 12 31).Proper ∧ (Date.mk year 12 31).dayNumber = daysBeforeYear year + 366 := by
  have lengths := december year
  refine ⟨Date.proper_mk start (by decide) (by decide) (by decide) (Nat.le_of_eq lengths.1.symm), ?_⟩
  have length : yearLength year = 366 := by simp [yearLength, leap]
  simp only [Date.dayNumber]
  omega

theorem Date.ofDayNumber_counts {n : Nat} (positive : 1 ≤ n) :
    (Date.ofDayNumber n).Proper ∧ (Date.ofDayNumber n).dayNumber = n := by
  obtain ⟨m, rfl⟩ : ∃ m, n = m + 1 := ⟨n - 1, by omega⟩
  simp only [Date.ofDayNumber, Nat.add_sub_cancel]
  have days := Nat.div_add_mod m 146097
  have left := Nat.mod_lt m (show 0 < 146097 by decide)
  generalize m / 146097 = a, m % 146097 = r at days left
  have days100 := Nat.div_add_mod r 36524
  have left100 := Nat.mod_lt r (show 0 < 36524 by decide)
  generalize r / 36524 = b, r % 36524 = s at days100 left100
  have days4 := Nat.div_add_mod s 1461
  have left4 := Nat.mod_lt s (show 0 < 1461 by decide)
  generalize s / 1461 = c, s % 1461 = t at days4 left4
  have days1 := Nat.div_add_mod t 365
  have left1 := Nat.mod_lt t (show 0 < 365 by decide)
  generalize t / 365 = e, t % 365 = u at days1 left1
  split
  · rename_i last
    -- The day left over ends the fourth part of a cycle, which is a leap year.
    have cycle_end : ∃ b' c', b' ≤ 3 ∧ c' ≤ 24 ∧ (c' = 24 → b' = 3) ∧
        a * 400 + b * 100 + c * 4 + e = a * 400 + b' * 100 + c' * 4 + 3 + 1 ∧
        m + 1 = a * 146097 + b' * 36524 + c' * 1461 + 3 * 365 + 366 := by
      rcases last with rfl | rfl
      · exact ⟨b, c, by omega, by omega, by omega, by omega, by omega⟩
      · exact ⟨3, 24, by omega, by omega, by omega, by omega, by omega⟩
    obtain ⟨b', c', centuries, fours, whole, year, number⟩ := cycle_end
    have leap : isLeap (a * 400 + b' * 100 + c' * 4 + 3 + 1) = true := by
      rw [isLeap_iff]
      omega
    rw [year, number, ← daysBeforeYear_cycles centuries fours (Nat.le_refl 3)]
    exact Date.lastDay leap (by omega)
  · rename_i inside
    have centuries : b ≤ 3 := by omega
    have fours : c ≤ 24 := by omega
    have years : e ≤ 3 := by omega
    have before := daysBeforeYear_cycles (a := a) centuries fours years
    have within : u < yearLength (a * 400 + b * 100 + c * 4 + e + 1) := by
      unfold yearLength
      split <;> omega
    obtain ⟨proper, number⟩ := Date.ofYearDay (by omega) within
    refine ⟨proper, ?_⟩
    rw [number, before]
    omega

/-- The date of a day number is the valid date that has the number. -/
theorem Date.ofDayNumber?_iff {n : Int} :
    Date.ofDayNumber? n = some d ↔ d.Valid ∧ (d.dayNumber : Int) = n := by
  unfold Date.ofDayNumber?
  constructor
  · intro found
    split at found
    · rename_i inside
      cases found
      obtain ⟨proper, number⟩ := Date.ofDayNumber_counts (n := n.toNat) (by omega)
      have early := (Date.dayNumber_le_iff proper).mp (by omega)
      exact ⟨Date.valid_iff.mpr ⟨proper, early⟩, by omega⟩
    · cases found
  · rintro ⟨valid, rfl⟩
    obtain ⟨proper, early⟩ := Date.valid_iff.mp valid
    have positive := Date.dayNumber_pos proper
    have limit := (Date.dayNumber_le_iff proper).mpr early
    obtain ⟨properToo, number⟩ := Date.ofDayNumber_counts positive
    rw [if_pos (by omega), Int.toNat_natCast, Date.dayNumber_injective properToo proper number]

end MailRules.Calendar

import MailRules.Proofs.Calendar.Date
import MailRules.Calendar.Moment
/-!
Going back from a moment. A wall clock goes on microsecond by microsecond, and from the last one of a
day to the first one of the day after; the date that lies a span before a moment is the date from which
the clock comes to the moment in as many steps.
-/
namespace MailRules.Calendar

theorem microsecondsPerDay_pos : 0 < microsecondsPerDay := by decide

/-- What a wall clock shows: a day, and the microseconds that have passed of it. -/
structure Reading where
  date : Date
  time : Nat
  deriving DecidableEq

namespace Reading

def Proper (r : Reading) : Prop := r.date.Proper ∧ r.time < microsecondsPerDay

instance (r : Reading) : Decidable r.Proper := by unfold Proper; infer_instance

def tick (r : Reading) : Reading :=
  if r.time + 1 < microsecondsPerDay then ⟨r.date, r.time + 1⟩ else ⟨r.date.next, 0⟩

def instant (r : Reading) : Nat := r.date.dayNumber * microsecondsPerDay + r.time

variable {r s now : Reading}

theorem tick_counts (proper : r.Proper) : r.tick.Proper ∧ r.tick.instant = r.instant + 1 := by
  obtain ⟨day, within⟩ := proper
  unfold tick
  split
  · rename_i sameDay
    exact ⟨⟨day, sameDay⟩, by simp only [instant, Nat.add_assoc]⟩
  · obtain ⟨next, number⟩ := Date.next_counts day
    refine ⟨⟨next, microsecondsPerDay_pos⟩, ?_⟩
    simp only [instant, number, microsecondsPerDay] at *
    omega

theorem iterate_counts (proper : r.Proper) (n : Nat) :
    (tick^[n] r).Proper ∧ (tick^[n] r).instant = r.instant + n := by
  induction n with
  | zero => exact ⟨proper, (Nat.add_zero _).symm⟩
  | succ n ih =>
    rw [Function.iterate_succ_apply']
    obtain ⟨properNext, later⟩ := tick_counts ih.1
    exact ⟨properNext, by omega⟩

theorem instant_injective (proper : r.Proper) (properToo : s.Proper)
    (same : r.instant = s.instant) : r = s := by
  obtain ⟨day, time⟩ := r
  obtain ⟨day', time'⟩ := s
  obtain ⟨properDay, within⟩ := proper
  obtain ⟨properDay', within'⟩ := properToo
  simp only [instant, microsecondsPerDay] at same within within'
  have sameNumber : day.dayNumber = day'.dayNumber := by omega
  have sameDay := Date.dayNumber_injective properDay properDay' sameNumber
  subst sameDay
  have sameTime : time = time' := by omega
  rw [sameTime]

theorem iterate_eq_iff (proper : r.Proper) (properToo : s.Proper) (n : Nat) :
    tick^[n] r = s ↔ r.instant + n = s.instant := by
  obtain ⟨properThen, later⟩ := iterate_counts proper n
  constructor
  · intro same
    rw [← same, later]
  · intro same
    exact instant_injective properThen properToo (later.trans same)

/-- The reading lies so many microseconds before `now`; where the number is negative, after it. -/
def Before (n : Int) (r now : Reading) : Prop := tick^[n.toNat] r = tick^[(-n).toNat] now

theorem before_iff (proper : r.Proper) (properNow : now.Proper) (n : Int) :
    r.Before n now ↔ (r.instant : Int) = now.instant - n := by
  obtain ⟨properThen, later⟩ := iterate_counts properNow (-n).toNat
  unfold Before
  rw [iterate_eq_iff proper properThen, later]
  omega

/-- Going back leads beyond the first microsecond of year 1, or to a year after 9999. -/
def LeavesCalendar (n : Int) (now : Reading) : Prop :=
  (∃ k : Nat, (k : Int) < n ∧ tick^[k] ⟨.first, 0⟩ = now) ∨
    maxYear < (tick^[(-n).toNat] now).date.year

theorem leavesCalendar_iff (proper : now.Proper) (early : now.date.year ≤ maxYear) (n : Int) :
    now.LeavesCalendar n ↔
      ¬ (microsecondsPerDay ≤ now.instant - n ∧
        now.instant - n < (maxDayNumber + 1) * microsecondsPerDay) := by
  have firstProper : Proper ⟨.first, 0⟩ := ⟨Date.proper_first, microsecondsPerDay_pos⟩
  have start : instant ⟨.first, 0⟩ = microsecondsPerDay := by decide
  have back : (∃ k : Nat, (k : Int) < n ∧ tick^[k] ⟨.first, 0⟩ = now) ↔
      (now.instant : Int) - n < microsecondsPerDay := by
    have after : microsecondsPerDay ≤ now.instant := by
      have positive := Date.dayNumber_pos proper.1
      simp only [instant, microsecondsPerDay]
      omega
    constructor
    · rintro ⟨k, less, same⟩
      rw [iterate_eq_iff firstProper proper, start] at same
      omega
    · intro less
      refine ⟨now.instant - microsecondsPerDay, by omega, ?_⟩
      rw [iterate_eq_iff firstProper proper, start]
      omega
  have forward : maxYear < (tick^[(-n).toNat] now).date.year ↔
      ((maxDayNumber + 1) * microsecondsPerDay : Int) ≤ now.instant - n := by
    obtain ⟨properThen, later⟩ := iterate_counts proper (-n).toNat
    have limit := Date.dayNumber_le_iff properThen.1
    have limitNow := (Date.dayNumber_le_iff proper.1).mpr early
    have within := properThen.2
    have withinNow := proper.2
    simp only [instant, microsecondsPerDay] at later within withinNow ⊢
    omega
  unfold LeavesCalendar
  rw [back, forward]
  omega

end Reading

namespace Moment

def Valid (m : Moment) : Prop :=
  m.date.Valid ∧ m.hour < 24 ∧ m.minute < 60 ∧ m.second < 60 ∧ m.microsecond < 1000000

instance (m : Moment) : Decidable m.Valid := by unfold Valid; infer_instance

def reading (m : Moment) : Reading := ⟨m.date, m.timeOfDay⟩

variable {now : Moment} {span : Span} {d : Date}

theorem reading_proper (valid : now.Valid) : now.reading.Proper := by
  obtain ⟨date, hour, minute, second, microsecond⟩ := valid
  refine ⟨(Date.valid_iff.mp date).1, ?_⟩
  simp only [reading, timeOfDay, microsecondsPerDay]
  omega

theorem wallClock_eq (m : Moment) : m.wallClock = (m.reading.instant : Int) := by
  simp [wallClock, Reading.instant, reading]

/-- The date before a moment is the one from which the clock comes to the moment. -/
theorem dateBefore?_iff (valid : now.Valid) :
    now.dateBefore? span = some d ↔ d.Valid ∧ ∃ time < microsecondsPerDay,
      Reading.Before span.microseconds ⟨d, time⟩ now.reading := by
  unfold dateBefore?
  rw [Date.ofDayNumber?_iff, wallClock_eq]
  constructor
  · rintro ⟨validDate, number⟩
    have positive : 0 < (microsecondsPerDay : Int) := Int.natCast_pos.mpr microsecondsPerDay_pos
    have whole := Int.mul_ediv_add_emod (now.reading.instant - span.microseconds) microsecondsPerDay
    have low := Int.emod_nonneg (now.reading.instant - span.microseconds) (Int.ne_of_gt positive)
    have high := Int.emod_lt_of_pos (now.reading.instant - span.microseconds) positive
    generalize ((now.reading.instant : Int) - span.microseconds) % microsecondsPerDay = time at *
    have within : time.toNat < microsecondsPerDay := by omega
    refine ⟨validDate, time.toNat, within, ?_⟩
    rw [Reading.before_iff ⟨(Date.valid_iff.mp validDate).1, within⟩ (reading_proper valid)]
    simp only [Reading.instant, microsecondsPerDay] at *
    omega
  · rintro ⟨validDate, time, within, before⟩
    rw [Reading.before_iff ⟨(Date.valid_iff.mp validDate).1, within⟩ (reading_proper valid)] at before
    refine ⟨validDate, ?_⟩
    rw [← before]
    simp only [Reading.instant, microsecondsPerDay] at *
    omega

theorem dateBefore?_none_iff (valid : now.Valid) :
    now.dateBefore? span = none ↔ now.reading.LeavesCalendar span.microseconds := by
  have early := (Date.valid_iff.mp valid.1).2
  rw [Reading.leavesCalendar_iff (reading_proper valid) early, dateBefore?, wallClock_eq,
    Date.ofDayNumber?]
  generalize (now.reading.instant : Int) - span.microseconds = instant
  have inside : (1 ≤ instant / microsecondsPerDay ∧ instant / microsecondsPerDay ≤ maxDayNumber) ↔
      (microsecondsPerDay ≤ instant ∧ instant < (maxDayNumber + 1) * microsecondsPerDay) := by
    simp only [microsecondsPerDay]
    omega
  rw [← inside]
  by_cases within : 1 ≤ instant / microsecondsPerDay ∧ instant / microsecondsPerDay ≤ maxDayNumber
  · simp [within]
  · simp [within]

end Moment
end MailRules.Calendar

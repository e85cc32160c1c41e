import PipelineAtlas.Proofs.Schedule.Firing
import Mathlib.Tactic.IntervalCases

/-! Dates and days are two names for one thing: the count of days of a date on the calendar leads back to the
date, and an instant made of a date and a time of day shows both again. -/
namespace PipelineAtlas

namespace Date

/-- The days of an era that lie before one of its years, which begin in March. -/
def daysBefore (year : Int) : Int := year * 365 + year / 4 - year / 100

/-- A day of a year that begins in March; only a year that ends in a leap day has the last one. -/
structure DayOfYear (year day : Int) : Prop where
  first : 0 ≤ day
  last : day ≤ 364 ∨ day = 365 ∧ isLeapYear (year + 1) = true

theorem yearOfEra_of_days {year day days : Int} (early : 0 ≤ year) (late : year < 400)
    (within : DayOfYear year day) (sum : days = daysBefore year + day) :
    (days - days / 1460 + days / 36524 - days / 146096) / 365 = year := by
  -- With centuries, leap cycles and years apart each quotient is known up to the last day of its span.
  obtain ⟨c,q,r,rfl,c₀,c₁,q₀,q₁,r₀,r₁⟩ : ∃ c q r, year = 100 * c + 4 * q + r ∧ 0 ≤ c ∧ c < 4 ∧
      0 ≤ q ∧ q < 25 ∧ 0 ≤ r ∧ r < 4 :=
    ⟨year / 100,year % 100 / 4,year % 4,by omega⟩
  obtain ⟨first,last⟩ := within
  have closing : day ≤ 364 ∨ day = 365 ∧ r = 3 ∧ (q ≠ 24 ∨ c = 3) := by
    simp only [isLeapYear,Bool.and_eq_true,Bool.or_eq_true,beq_iff_eq,bne_iff_ne] at last
    omega
  have count : days = 36524 * c + 1461 * q + 365 * r + day := by
    unfold daysBefore at sum
    omega
  have century : 1461 * q + 365 * r + day ≤ 36523 ∨ days = 146096 ∧ c = 3 := by
    rcases closing with usual | ⟨rfl,rfl,inner | rfl⟩ <;> omega
  have centuries : days / 36524 - days / 146096 = c := by
    rcases century with inner | ⟨rfl,rfl⟩ <;> omega
  have cycles : days / 1460 = 25 * c + q + if 1460 ≤ 24 * c + q + 365 * r + day then 1 else 0 := by
    split <;> omega
  have rest : days - days / 1460 + days / 36524 - days / 146096 = 365 * (100 * c + 4 * q + r) +
      (day - if 1460 ≤ 24 * c + q + 365 * r + day then 1 else 0) := by
    omega
  rw [rest]
  split <;> omega

theorem days_within_era {year day : Int} (early : 0 ≤ year) (late : year < 400)
    (within : DayOfYear year day) :
    0 ≤ daysBefore year + day ∧ daysBefore year + day < 146097 := by
  obtain ⟨first,last⟩ := within
  constructor
  · unfold daysBefore
    omega
  · simp only [isLeapYear,Bool.and_eq_true,Bool.or_eq_true,beq_iff_eq,bne_iff_ne] at last
    unfold daysBefore
    omega

theorem OnCalendar.month {d : Date} (real : d.OnCalendar) : 1 ≤ d.month ∧ d.month ≤ 12 := by
  have days : 1 ≤ daysInMonth d.year d.month := Nat.le_trans real.first real.last
  unfold daysInMonth at days
  split at days
  case h_13 => contradiction
  all_goals omega

/-- The year of a date and its day in it, both counted from March. -/
def marchYear (d : Date) : Int := if d.month ≤ 2 then d.year - 1 else d.year

def marchDay (d : Date) : Int := (153 * ((d.month + 9) % 12) + 2) / 5 + d.day - 1

theorem toDays_eq (d : Date) : d.toDays =
    d.marchYear / 400 * 146097 + (daysBefore (d.marchYear % 400) + d.marchDay) - 719468 := by
  simp only [toDays,marchYear,marchDay,daysBefore]

theorem isLeapYear_era (year : Int) : isLeapYear (year % 400 + 1) = isLeapYear (year + 1) := by
  have four : (year % 400 + 1) % 4 = (year + 1) % 4 := by omega
  have century : (year % 400 + 1) % 100 = (year + 1) % 100 := by omega
  have era : (year % 400 + 1) % 400 = (year + 1) % 400 := by omega
  simp only [isLeapYear,four,century,era]

theorem OnCalendar.marchDay {d : Date} (real : d.OnCalendar) :
    DayOfYear (d.marchYear % 400) d.marchDay ∧ (5 * d.marchDay + 2) / 153 = (d.month + 9) % 12 := by
  obtain ⟨least,most⟩ := real.month
  obtain ⟨first,last⟩ := real
  obtain ⟨year,month,day⟩ := d
  dsimp only at first last least most ⊢
  interval_cases month
  case «2» =>
    simp only [daysInMonth] at last
    simp only [Date.marchDay,marchYear]
    have before : year - 1 + 1 = year := by omega
    split at last
    next leap =>
      refine ⟨⟨by omega,?_⟩,by omega⟩
      simp only [isLeapYear_era,if_pos (Nat.le_refl 2),before,leap,and_true]
      omega
    next => exact ⟨⟨by omega,by omega⟩,by omega⟩
  all_goals
    simp only [daysInMonth] at last
    simp only [Date.marchDay]
    exact ⟨⟨by omega,by omega⟩,by omega⟩

/-- The count of days leads back to its date. -/
theorem ofDays_toDays {d : Date} (real : d.OnCalendar) : ofDays d.toDays = d := by
  obtain ⟨within,month⟩ := real.marchDay
  have early : 0 ≤ d.marchYear % 400 := by omega
  have late : d.marchYear % 400 < 400 := by omega
  obtain ⟨least,most⟩ := days_within_era early late within
  have year := yearOfEra_of_days early late within rfl
  have era : (d.toDays + 719468) / 146097 = d.marchYear / 400 := by
    rw [toDays_eq]
    omega
  have days : (d.toDays + 719468) % 146097 = daysBefore (d.marchYear % 400) + d.marchDay := by
    rw [toDays_eq]
    omega
  have day : daysBefore (d.marchYear % 400) + d.marchDay -
      (365 * (d.marchYear % 400) + d.marchYear % 400 / 4 - d.marchYear % 400 / 100) = d.marchDay := by
    unfold daysBefore
    omega
  obtain ⟨january,december⟩ := real.month
  have monthBack : (if ((d.month : Int) + 9) % 12 < 10 then ((d.month : Int) + 9) % 12 + 3
      else ((d.month : Int) + 9) % 12 - 9) = d.month := by
    omega
  have yearBack : (if (d.month : Int) ≤ 2 then d.marchYear % 400 + d.marchYear / 400 * 400 + 1
      else d.marchYear % 400 + d.marchYear / 400 * 400) = d.year := by
    unfold marchYear
    split <;> split <;> omega
  have dayBack : (d.marchDay - (153 * (((d.month : Int) + 9) % 12) + 2) / 5 + 1).toNat = d.day := by
    unfold marchDay
    omega
  simp only [ofDays,days,era,year,day,month,monthBack,yearBack,dayBack,Int.toNat_natCast]

end Date

namespace Instant

/-- A time of day that a clock shows, a leap second in any minute included. -/
structure OnClock (c : Clock) : Prop where
  hour : c.hour < 24
  minute : c.minute < 60
  second : c.second ≤ 60
  nanos : c.nanos < nanosPerSecond

theorem date_ofUniversal {d : Date} {c : Clock} (real : d.OnCalendar) (onClock : OnClock c) :
    (ofUniversal d c).date = d := by
  obtain ⟨hour,minute,second,-⟩ := onClock
  have days : (ofUniversal d c).seconds / 86400 = d.toDays := by
    simp only [ofUniversal,ofLocal]
    omega
  rw [date,days,Date.ofDays_toDays real]

theorem clock_ofUniversal {d : Date} {c : Clock} (onClock : OnClock c) :
    (ofUniversal d c).clock = c := by
  obtain ⟨hour,minute,second,nanos⟩ := onClock
  obtain ⟨h,m,s,n⟩ := c
  dsimp only at hour minute second nanos
  simp only [clock,ofUniversal,ofLocal,nanosPerSecond,Clock.mk.injEq] at nanos ⊢
  refine ⟨?_,?_,?_,?_⟩
  · omega
  · omega
  · split <;> split <;> omega
  · split <;> split <;> omega

end Instant

end PipelineAtlas

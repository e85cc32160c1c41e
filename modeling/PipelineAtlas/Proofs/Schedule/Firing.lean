import PipelineAtlas.Instant
import PipelineAtlas.Proofs.Schedule.CronLine

/-! When cron lines fire. A line fires at the times whose hour, minute and second its fields cover, on
the days whose day, month, weekday and year they cover. No field covers a number that its kind does not
admit, and so no line fires before 1970 or after 2100. -/
namespace PipelineAtlas

namespace Date

/-- The day of the week, from Sunday, which is 1, to Saturday. The first of January 1970 was a Thursday. -/
def weekday (d : Date) : Nat := ((d.toDays + 4) % 7).toNat + 1

structure OnCalendar (d : Date) : Prop where
  first : 1 ≤ d.day
  last : d.day ≤ daysInMonth d.year d.month

end Date

namespace Cron

namespace FieldKind

def bounds? (kind : FieldKind) : Span → Option (Nat × Nat)
  | .all => some (kind.least,kind.greatest)
  | .one n => some (n,n)
  | .range first last => some (first,last)
  | .named first last => do return (← kind.number? first,← kind.number? last)

/-- Steps from a single number go on to the greatest. -/
def stepBounds? (kind : FieldKind) : Span → Option (Nat × Nat)
  | .one n => some (n,kind.greatest)
  | s => kind.bounds? s

def holds (kind : FieldKind) (n : Nat) : Item → Bool
  | .span s => (kind.bounds? s).any fun (a,b) => decide (a ≤ n) && decide (n ≤ b)
  | .stepped s step =>
    (kind.stepBounds? s).any fun (a,b) => decide (a ≤ n) && decide (n ≤ b) && (n - a) % step == 0
  | .name text => kind.number? text == some n

def covers (kind : FieldKind) (items : List Item) (n : Nat) : Bool := items.any (kind.holds n)

theorem covers_one {kind : FieldKind} {m n : Nat} :
    kind.covers [.span (.one m)] n = true ↔ n = m := by
  simp only [covers,holds,bounds?,List.any_cons,List.any_nil,Bool.or_false,Option.any_some,
    Bool.and_eq_true,decide_eq_true_eq]
  omega

theorem covers_all {kind : FieldKind} {n : Nat} :
    kind.covers [.span .all] n = true ↔ kind.least ≤ n ∧ n ≤ kind.greatest := by
  simp [covers,holds,bounds?]

end FieldKind

namespace Line

/-- Whether a line fires in a year. A line without a seventh field fires in all years of this field. -/
def firesIn (l : Line) (year : Int) : Bool :=
  decide (0 ≤ year) && Cron.year.covers (l.year.getD [.span .all]) year.toNat

/-- Whether a line fires on a day at a time, whatever part of the second has passed. -/
def fires (l : Line) (d : Date) (c : Clock) : Bool :=
  Cron.second.covers l.second c.second && Cron.minute.covers l.minute c.minute &&
    Cron.hour.covers l.hour c.hour && Cron.dayOfMonth.covers l.dayOfMonth d.day &&
    Cron.month.covers l.month d.month && Cron.dayOfWeek.covers l.dayOfWeek d.weekday &&
    l.firesIn d.year

example : (Cron.read? "0 */15 8-17 ? * mon-fri".toList).map
    (fun l => [l.fires ⟨2024,2,29⟩ ⟨9,45,0,0⟩,l.fires ⟨2024,2,29⟩ ⟨9,50,0,0⟩,
      l.fires ⟨2024,3,2⟩ ⟨9,45,0,0⟩,l.fires ⟨2101,3,1⟩ ⟨9,45,0,0⟩]) =
    some [true,false,false,false] := by decide +kernel

/-- A line that fires at one time of every day from 1970 to 2100, which is always the same. -/
def Daily (l : Line) : Prop :=
  ∃ hour minute second, hour < 24 ∧ minute < 60 ∧ second < 60 ∧ ∀ d : Date, d.OnCalendar →
    ∀ c, l.fires d c = true ↔
      (1970 ≤ d.year ∧ d.year ≤ 2100) ∧ c.hour = hour ∧ c.minute = minute ∧ c.second = second

/-- A line that fires once in every hour of every day from 1970 to 2100, at a minute and second that are
always the same. -/
def Hourly (l : Line) : Prop :=
  ∃ minute second, minute < 60 ∧ second < 60 ∧ ∀ d : Date, d.OnCalendar →
    ∀ c, l.fires d c = true ↔
      (1970 ≤ d.year ∧ d.year ≤ 2100) ∧ c.hour < 24 ∧ c.minute = minute ∧ c.second = second

theorem firesIn_of_missing {l : Line} (missing : l.year = none) {year : Int} :
    l.firesIn year = true ↔ 1970 ≤ year ∧ year ≤ 2100 := by
  simp only [firesIn,missing,Option.getD_none,Bool.and_eq_true,decide_eq_true_eq,
    FieldKind.covers_all,Cron.year]
  omega

end Line

theorem covers_month {d : Date} (real : d.OnCalendar) :
    Cron.month.covers [.span .all] d.month = true := by
  have days : 1 ≤ daysInMonth d.year d.month := Nat.le_trans real.first real.last
  rw [FieldKind.covers_all]
  unfold daysInMonth at days
  split at days <;> simp_all [Cron.month]

theorem covers_day {d : Date} (real : d.OnCalendar) :
    dayOfMonth.covers [.span .all] d.day = true := by
  have most : daysInMonth d.year d.month ≤ 31 := by
    unfold daysInMonth
    split <;> (try split) <;> decide
  exact FieldKind.covers_all.mpr ⟨real.first,Nat.le_trans real.last most⟩

theorem covers_weekday (d : Date) : dayOfWeek.covers [.span .all] d.weekday = true := by
  rw [FieldKind.covers_all,Date.weekday]
  simp only [dayOfWeek]
  omega

theorem Means.of_star {kind : FieldKind} {items : List Item} (means : Means kind ['*'] items) :
    items = [.span .all] := by
  cases means with
  | number value _ => exact absurd ((numeral_of_decimal? value).digits '*' (by simp)) (by decide)
  | star => rfl

theorem Means.of_other {kind : FieldKind} {t : List Char} {items : List Item}
    (means : Means kind t items) (other : t ≠ ['*']) :
    ∃ n, items = [.span (.one n)] ∧ kind.least ≤ n ∧ n ≤ kind.greatest := by
  cases means with
  | @number _ n _ admitted =>
    simp only [FieldKind.admits,Bool.and_eq_true,decide_eq_true_eq] at admitted
    exact ⟨n,rfl,admitted⟩
  | star => exact absurd rfl other

variable {second minute hour : List Char} {line : Line}
  (means : MeansAll second minute hour ['*'] ['*'] ['*'] line)
include means

/-- Of stars for day, month and weekday the year and the time of day are left. -/
theorem MeansAll.fires_iff {d : Date} (real : d.OnCalendar) (c : Clock) : line.fires d c = true ↔
    (1970 ≤ d.year ∧ d.year ≤ 2100) ∧ Cron.hour.covers line.hour c.hour = true ∧
      Cron.minute.covers line.minute c.minute = true ∧
      Cron.second.covers line.second c.second = true := by
  rw [← Line.firesIn_of_missing means.year]
  simp only [Line.fires,means.day.of_star,means.month.of_star,means.weekday.of_star,
    covers_day real,covers_month real,covers_weekday,Bool.and_true,Bool.and_eq_true]
  constructor
  · rintro ⟨⟨⟨inSecond,inMinute⟩,inHour⟩,inYear⟩
    exact ⟨inYear,inHour,inMinute,inSecond⟩
  · rintro ⟨inYear,inHour,inMinute,inSecond⟩
    exact ⟨⟨⟨inSecond,inMinute⟩,inHour⟩,inYear⟩

variable (numberSecond : second ≠ ['*']) (numberMinute : minute ≠ ['*'])
include numberSecond numberMinute

theorem MeansAll.daily (numberHour : hour ≠ ['*']) : line.Daily := by
  obtain ⟨s,meantSecond,-,atMostSecond⟩ := means.second.of_other numberSecond
  obtain ⟨m,meantMinute,-,atMostMinute⟩ := means.minute.of_other numberMinute
  obtain ⟨h,meantHour,-,atMostHour⟩ := means.hour.of_other numberHour
  refine ⟨h,m,s,Nat.lt_succ_of_le atMostHour,Nat.lt_succ_of_le atMostMinute,
    Nat.lt_succ_of_le atMostSecond,fun d real c => ?_⟩
  rw [means.fires_iff real,meantSecond,meantMinute,meantHour]
  simp only [FieldKind.covers_one]

theorem MeansAll.hourly (anyHour : hour = ['*']) : line.Hourly := by
  subst anyHour
  obtain ⟨s,meantSecond,-,atMostSecond⟩ := means.second.of_other numberSecond
  obtain ⟨m,meantMinute,-,atMostMinute⟩ := means.minute.of_other numberMinute
  refine ⟨m,s,Nat.lt_succ_of_le atMostMinute,Nat.lt_succ_of_le atMostSecond,fun d real c => ?_⟩
  have inDay : Cron.hour.covers [.span .all] c.hour = true ↔ c.hour < 24 :=
    FieldKind.covers_all.trans ⟨fun bounds => Nat.lt_succ_of_le bounds.2,
      fun below => ⟨Nat.zero_le _,Nat.le_of_lt_succ below⟩⟩
  rw [means.fires_iff real,meantSecond,meantMinute,means.hour.of_star]
  simp only [FieldKind.covers_one,inDay]

end Cron

end PipelineAtlas

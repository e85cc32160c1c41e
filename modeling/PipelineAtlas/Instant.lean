import PipelineAtlas.Calendar
import PipelineAtlas.Text.Number

/-! Instants of universal time and the two forms in which they are written. -/
namespace PipelineAtlas

/-- Seconds since 1970-01-01T00:00:00Z and nanoseconds after that. In a leap second the seconds
stay at the one before and the nanoseconds are a thousand million or more. -/
structure Instant where
  seconds : Int
  nanos : Nat
deriving DecidableEq, Repr

/-- A time of day. Second 60 is a leap second. -/
structure Clock where
  hour : Nat
  minute : Nat
  second : Nat
  nanos : Nat
deriving DecidableEq, Repr

namespace Clock

def midnight : Clock := ⟨0,0,0,0⟩

def of? (hour minute second nanos : Nat) : Option Clock :=
  if hour < 24 ∧ minute < 60 ∧ second ≤ 60 then some ⟨hour,minute,second,nanos⟩ else none

end Clock

namespace Instant

def nanosPerSecond : Nat := 1000000000

/-- The instant at which a clock that is `offset` seconds ahead of universal time shows a date and a
time. -/
def ofLocal (date : Date) (clock : Clock) (offset : Int) : Instant :=
  let second := min clock.second 59
  ⟨date.toDays * 86400 + (clock.hour * 3600 + clock.minute * 60 + second : Nat) - offset,
    clock.nanos + if clock.second = 60 then nanosPerSecond else 0⟩

def ofUniversal (date : Date) (clock : Clock) : Instant := ofLocal date clock 0

def date (i : Instant) : Date := Date.ofDays (i.seconds / 86400)

def clock (i : Instant) : Clock :=
  let s := (i.seconds % 86400).toNat
  let leap := nanosPerSecond ≤ i.nanos
  ⟨s / 3600,s / 60 % 60,s % 60 + if leap then 1 else 0,
    if leap then i.nanos - nanosPerSecond else i.nanos⟩

/-- Four digits, and a sign in front of a year that they do not hold. -/
def yearText (year : Int) : String :=
  if 0 ≤ year ∧ year ≤ 9999 then Text.padded 4 year.toNat
  else (if year < 0 then "-" else "+") ++ Text.padded 4 year.natAbs

def dateText (d : Date) : String :=
  yearText d.year ++ "-" ++ Text.padded 2 d.month ++ "-" ++ Text.padded 2 d.day

def clockText (c : Clock) : String :=
  Text.padded 2 c.hour ++ ":" ++ Text.padded 2 c.minute ++ ":" ++ Text.padded 2 c.second

/-- The fraction of a second in as few groups of three digits as hold it. -/
def fractionText (nanos : Nat) : String :=
  if nanos = 0 then ""
  else if nanos % 1000000 = 0 then "." ++ Text.padded 3 (nanos / 1000000)
  else if nanos % 1000 = 0 then "." ++ Text.padded 6 (nanos / 1000)
  else "." ++ Text.padded 9 nanos

def text (i : Instant) : String :=
  dateText i.date ++ "T" ++ clockText i.clock ++ fractionText i.clock.nanos ++ "Z"

def display (i : Instant) : String :=
  dateText i.date ++ " " ++ clockText i.clock ++ " UTC"

end Instant

end PipelineAtlas

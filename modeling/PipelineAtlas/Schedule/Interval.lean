import PipelineAtlas.Text.Number

/-! Interval texts: groups of digits and a unit, as in `1h30m`. Every number, every product and the
sum must fit 64 bits, and the sum must not be zero. -/
namespace PipelineAtlas.Interval

def hour : Nat := 3600

def day : Nat := 86400

def bound : Nat := 0x10000000000000000

def unitSeconds (c : Char) : Option Nat :=
  if c = 's' then some 1
  else if c = 'm' then some 60
  else if c = 'h' then some hour
  else if c = 'd' then some day
  else none

def fit? (n : Nat) : Option Nat := if n < bound then some n else none

def addUnits (total count unit : Nat) : Option Nat := do
  let n ← fit? count
  let seconds ← fit? (n * unit)
  fit? (total + seconds)

/-- Continues reading with the total of the groups read and the digits of the group begun. -/
def readFrom (total : Nat) (begun : Option Nat) : List Char → Option Nat
  | [] => if begun.isNone && total != 0 then some total else none
  | c :: cs =>
    if c.isDigit then readFrom total (some (begun.getD 0 * 10 + (c.toNat - '0'.toNat))) cs
    else
      match begun,unitSeconds c with
      | some count,some unit =>
        match addUnits total count unit with
        | some sum => readFrom sum none cs
        | none => none
      | _,_ => none

def read? (s : List Char) : Option Nat := readFrom 0 none s

/-- One group, left out if its count is zero. -/
def group (count : Nat) (unit : Char) : String :=
  if count = 0 then "" else toString count ++ unit.toString

/-- A number of seconds as an interval text, the largest unit first. -/
def write (seconds : Nat) : String :=
  group (seconds / day) 'd' ++ group (seconds % day / hour) 'h' ++
    group (seconds % hour / 60) 'm' ++ group (seconds % 60) 's'

/-- A fraction `part / 10 ^ width` without trailing zeros, the point included. -/
def fraction (width part : Nat) : String :=
  let digits := ((Text.padded width part).toList.reverse.dropWhile (· == '0')).reverse
  if digits.isEmpty then "" else "." ++ String.ofList digits

/-- A time of less than a second in the largest unit that is not larger than it. -/
def briefText (nanos : Nat) : String :=
  if 1000000 ≤ nanos then toString (nanos / 1000000) ++ fraction 6 (nanos % 1000000) ++ "ms"
  else if 1000 ≤ nanos then toString (nanos / 1000) ++ fraction 3 (nanos % 1000) ++ "µs"
  else toString nanos ++ "ns"

end PipelineAtlas.Interval

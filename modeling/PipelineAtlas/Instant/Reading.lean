import PipelineAtlas.Instant
import PipelineAtlas.Text.Blank

/-! Reading an instant: a plain date, a date and time of universal time, or a timestamp with an
offset. The three forms are tried with the timestamp first. -/
namespace PipelineAtlas.Instant

/-- Between `least` and `most` decimal digits: their value and the text after them. -/
def takeDigits (least most : Nat) (s : List Char) : Option (Nat × List Char) :=
  let run := (s.take most).takeWhile Char.isDigit
  if run.length < least then none
  else (Text.digitsFrom 10 0 run).map fun n => (n,s.drop run.length)

/-- The fraction of a second in nanoseconds, digits after the ninth left out; 0 if there is none. -/
def takeFraction : List Char → Option (Nat × List Char)
  | '.' :: s =>
    match takeDigits 1 9 s with
    | some (n,rest) =>
      some (n * Nat.pow 10 (9 - (s.length - rest.length)),rest.dropWhile Char.isDigit)
    | none => none
  | s => some (0,s)

def takeOffsetSize (s : List Char) : Option (Nat × List Char) := do
  let (hours,s) ← takeDigits 2 2 s
  let s ← Text.skipChar ':' s
  let (minutes,s) ← takeDigits 2 2 s
  if hours < 24 ∧ minutes < 60 then some (hours * 3600 + minutes * 60,s) else none

/-- The offset from universal time in seconds. A minus sign may also be the mathematical one. -/
def takeOffset : List Char → Option (Int × List Char)
  | [] => none
  | c :: s =>
    if c = 'Z' ∨ c = 'z' then some (0,s)
    else if c = '+' then (takeOffsetSize s).map fun (n,rest) => ((n : Int),rest)
    else if c = '-' ∨ c = '−' then (takeOffsetSize s).map fun (n,rest) => (-(n : Int),rest)
    else none

def skipDateMark : List Char → Option (List Char)
  | [] => none
  | c :: s => if c = 'T' ∨ c = 't' ∨ c = ' ' then some s else none

/-- `YYYY-MM-DD`, a mark, `HH:MM:SS`, an optional fraction and an offset; each of full width. -/
def timestamp? (s : List Char) : Option Instant := do
  let (year,s) ← takeDigits 4 4 s
  let s ← Text.skipChar '-' s
  let (month,s) ← takeDigits 2 2 s
  let s ← Text.skipChar '-' s
  let (day,s) ← takeDigits 2 2 s
  let s ← skipDateMark s
  let (hour,s) ← takeDigits 2 2 s
  let s ← Text.skipChar ':' s
  let (minute,s) ← takeDigits 2 2 s
  let s ← Text.skipChar ':' s
  let (second,s) ← takeDigits 2 2 s
  let (nanos,s) ← takeFraction s
  let (offset,s) ← takeOffset s
  let date ← Date.of? year month day
  let clock ← Clock.of? hour minute second nanos
  if s.isEmpty then some (ofLocal date clock offset) else none

/-- A year after optional white space: up to four digits, or any number of them after a sign. -/
def takeYear (s : List Char) : Option (Int × List Char) :=
  match Text.trimLeft s with
  | '-' :: rest => (takeDigits 1 rest.length rest).map fun (n,r) => (-(n : Int),r)
  | '+' :: rest => (takeDigits 1 rest.length rest).map fun (n,r) => ((n : Int),r)
  | rest => (takeDigits 1 4 rest).map fun (n,r) => ((n : Int),r)

def takePair (s : List Char) : Option (Nat × List Char) := takeDigits 1 2 (Text.trimLeft s)

def takeDate (s : List Char) : Option (Date × List Char) := do
  let (year,s) ← takeYear s
  let s ← Text.skipChar '-' s
  let (month,s) ← takePair s
  let s ← Text.skipChar '-' s
  let (day,s) ← takePair s
  let date ← Date.of? year month day
  some (date,s)

def takeClock (s : List Char) : Option (Clock × List Char) := do
  let (hour,s) ← takePair s
  let s ← Text.skipChar ':' s
  let (minute,s) ← takePair s
  let s ← Text.skipChar ':' s
  let (second,s) ← takePair s
  let clock ← Clock.of? hour minute second 0
  some (clock,s)

def dateTime? (s : List Char) : Option Instant := do
  let (date,s) ← takeDate s
  let s ← Text.skipChar 'T' s
  let (clock,s) ← takeClock s
  if s.isEmpty then some (ofUniversal date clock) else none

def plainDate? (s : List Char) : Option Instant := do
  let (date,s) ← takeDate s
  if s.isEmpty then some (ofUniversal date Clock.midnight) else none

/-- Any of the three forms, white space around it left out. -/
def read? (s : List Char) : Option Instant :=
  let s := Text.trim s
  timestamp? s <|> dateTime? s <|> plainDate? s

end PipelineAtlas.Instant

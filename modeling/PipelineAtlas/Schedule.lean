import PipelineAtlas.Schedule.Cron
import PipelineAtlas.Schedule.Interval
import PipelineAtlas.Text.Blank
import PipelineAtlas.Text.Lowercase

/-! Schedules: presets, intervals, cron lines and the manual schedule. A schedule keeps the text it
was read from, and two schedules with one text are equal. -/
namespace PipelineAtlas

inductive ScheduleError where
  | invalidCron (detail : String)
  | invalidInterval (text : String)
  | unknownShortcut (text : String)
deriving DecidableEq, Repr

def ScheduleError.message : ScheduleError → String
  | .invalidCron detail => "invalid cron expression: " ++ detail
  | .invalidInterval text => "invalid interval expression: " ++ text
  | .unknownShortcut text => "unknown schedule shortcut: " ++ text

/-- When runs start. Periods are in seconds. -/
inductive Recurrence where
  | manual
  | once
  | continuous
  | cron (period : Option Nat)
  | interval (period : Nat)
deriving DecidableEq, Repr

namespace Recurrence

def period : Recurrence → Option Nat
  | .cron p => p
  | .interval p => some p
  | .manual | .once | .continuous => none

def describe : Recurrence → String
  | .manual => "manual"
  | .once => "once"
  | .continuous => "continuous"
  | .cron _ => "cron"
  | .interval _ => "interval"

def isNumber (field : List Char) : Bool := (Text.unsigned? (0xFFFFFFFF) field).isSome

def isStar (field : List Char) : Bool := field == ['*']

/-- Period of a line that fires at one second of one minute, every hour or every day. -/
def fixedPeriod : List (List Char) → Option Nat
  | [second,minute,hour,day,month,weekday] =>
    if isNumber second && isNumber minute && isStar day && isStar month && isStar weekday then
      if isNumber hour then some Interval.day
      else if isStar hour then some Interval.hour
      else none
    else none
  | _ => none

def spaced : List (List Char) → List Char
  | [] => []
  | [t] => t
  | t :: ts => t ++ ' ' :: spaced ts

/-- A cron line of five or six tokens. Five tokens are read with second 0 in front. -/
def readCron (text : List Char) : Except ScheduleError Recurrence :=
  let tokens := Text.tokens text
  let fields? :=
    if tokens.length = 5 then some (['0'] :: tokens)
    else if tokens.length = 6 then some tokens
    else none
  match fields? with
  | none =>
    .error (.invalidCron ("expected 5 or 6 fields, got " ++ toString tokens.length))
  | some fields =>
    match Cron.read? (spaced fields) with
    | some _ => .ok (.cron (fixedPeriod fields))
    | none =>
      .error (.invalidCron
        (String.ofList text ++ ": Invalid expression: Invalid cron expression."))

def presets : List (String × Recurrence) :=
  [("@once",.once),("@continuous",.continuous),
    ("@hourly",.cron (some Interval.hour)),
    ("@daily",.cron (some Interval.day)),("@midnight",.cron (some Interval.day)),
    ("@weekly",.cron (some (7 * Interval.day))),
    ("@monthly",.cron none),("@quarterly",.cron none),
    ("@yearly",.cron none),("@annually",.cron none)]

def everyMark : List Char := "@every ".toList

def readShortcut (text : List Char) : Except ScheduleError Recurrence :=
  let low := Text.lower text
  match presets.find? fun p => p.1.toList == low with
  | some p => .ok p.2
  | none =>
    if everyMark.isPrefixOf low then
      let interval := Text.trim (low.drop everyMark.length)
      match Interval.read? interval with
      | some seconds => .ok (.interval seconds)
      | none => .error (.invalidInterval (String.ofList interval))
    else .error (.unknownShortcut (String.ofList text))

def read (text : List Char) : Except ScheduleError Recurrence :=
  let text := Text.trim text
  if text.map Char.toLower == "none".toList then .ok .manual
  else if text.head? = some '@' then readShortcut text
  else readCron text

end Recurrence

structure Schedule where
  expression : String
  recurrence : Recurrence
deriving DecidableEq, Repr

namespace Schedule

/-- Schedules are compared by their texts. -/
instance : BEq Schedule := ⟨fun a b => a.expression == b.expression⟩

def parse (expression : String) : Except ScheduleError Schedule :=
  (Recurrence.read expression.toList).map fun r => ⟨expression,r⟩

def manual : Schedule := ⟨"None",.manual⟩

/-- The schedule with a fixed time between runs. Nanoseconds count as far as they make whole
seconds; what is less than a second is left out. -/
def every (seconds nanos : Nat) : Except ScheduleError Schedule :=
  let seconds := seconds + nanos / 1000000000
  if seconds = 0 then .error (.invalidInterval (Interval.briefText nanos))
  else .ok ⟨"@every " ++ Interval.write seconds,.interval seconds⟩

/-- Schedules travel as their texts. A format brings a reader of texts and makes errors of
messages. -/
def receive (readText : α → Except ε String) (custom : String → ε) (source : α) :
    Except ε Schedule := do
  (parse (← readText source)).mapError fun e => custom e.message

def period (s : Schedule) : Option Nat := s.recurrence.period

def describe (s : Schedule) : String := s.recurrence.describe

def isManual (s : Schedule) : Bool := s.recurrence == .manual

def isDaily (s : Schedule) : Bool := s.period == some Interval.day

end Schedule

end PipelineAtlas

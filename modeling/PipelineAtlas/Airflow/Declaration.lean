import PipelineAtlas.Airflow.Error
import PipelineAtlas.Instant.Reading
import PipelineAtlas.Script.Value

/-! The declaration of a DAG: the arguments of the `DAG(...)` call, read one after another. The
first argument that does not fit decides. -/
namespace PipelineAtlas.Airflow

open Script

def invalid (name : String) (v : Value) (line : Nat) : Error :=
  .invalidArgument name v.describe line

def readId (args : Arguments) (line : Nat) : Except Error String :=
  match args.byKey "dag_id" <|> args.positional.head? with
  | some (.string id) => .ok id
  | some v => .error (invalid "dag_id" v line)
  | none => .error (.missingArgument "DAG" "dag_id" line)

def integers? : List Value → Option (List Int)
  | [] => some []
  | .int n :: vs => (integers? vs).map (n :: ·)
  | _ :: _ => none

def natural? (n : Int) : Option Nat := if n < 0 then none else some n.toNat

/-- The instant of a year, month, day, hour, minute and second; parts not given are zero. -/
def instantOf? (parts : List Int) : Option Instant := do
  let month ← natural? (parts.getD 1 0)
  let day ← natural? (parts.getD 2 0)
  let hour ← natural? (parts.getD 3 0)
  let minute ← natural? (parts.getD 4 0)
  let second ← natural? (parts.getD 5 0)
  let date ← Date.of? (parts.getD 0 0) month day
  let clock ← Clock.of? hour minute second 0
  if second < 60 then some (Instant.ofUniversal date clock) else none

def namesFunction (ending : String) (function : String) : Bool :=
  ending.toList.isSuffixOf function.toList

/-- The start of a call that makes a date and time; up to six positional arguments count. -/
def readDateCall (v : Value) (args : Arguments) (line : Nat) : Except Error Instant :=
  match integers? (args.positional.take 6) with
  | none => .error (invalid "start_date" v line)
  | some parts =>
    match instantOf? parts with
    | some i => .ok i
    | none => .error (.dag (.invalidStartDate v.describe))

def readStart (args : Arguments) (line : Nat) : Except Error Instant :=
  match args.byKey "start_date" with
  | none => .error (.missingArgument "DAG" "start_date" line)
  | some (.call function inner) =>
    if namesFunction "datetime" function then readDateCall (.call function inner) inner line
    else .error (invalid "start_date" (.call function inner) line)
  | some (.string text) =>
    match Instant.read? text.toList with
    | some i => .ok i
    | none => .error (.dag (.invalidStartDate text))
  | some v => .error (invalid "start_date" v line)

def spanUnit (key : String) : Option Nat :=
  if key = "weeks" then some 604800
  else if key = "days" then some 86400
  else if key = "hours" then some 3600
  else if key = "minutes" then some 60
  else if key = "seconds" then some 1
  else none

def addSpan (total : Nat) (a : Argument Value) : Option Nat := do
  let .int n := a.value | none
  let count ← natural? n
  let unit ← spanUnit (← a.key)
  Interval.addUnits total count unit

/-- The seconds of a time span, every argument of which must be understood. -/
def spanSeconds (args : Arguments) : Option Nat := args.foldlM addSpan 0

/-- The schedule of the DAG, daily unless given. -/
def readSchedule (args : Arguments) (line : Nat) : Except Error Schedule :=
  match args.byKey "schedule" <|> args.byKey "schedule_interval" with
  | none => (Schedule.parse "@daily").mapError Error.schedule
  | some .none => .ok Schedule.manual
  | some (.string expression) => (Schedule.parse expression).mapError Error.schedule
  | some (.call function inner) =>
    if namesFunction "timedelta" function then
      match spanSeconds inner with
      | some seconds => (Schedule.every seconds 0).mapError Error.schedule
      | none => .error (.invalidArgument "schedule" (function ++ "(...)") line)
    else .error (invalid "schedule" (.call function inner) line)
  | some v => .error (invalid "schedule" v line)

def readCatchup (args : Arguments) (line : Nat) : Except Error Bool :=
  match args.byKey "catchup" with
  | none => .ok false
  | some (.bool b) => .ok b
  | some v => .error (invalid "catchup" v line)

def readDescription (args : Arguments) (line : Nat) : Except Error (Option String) :=
  match args.byKey "description" with
  | none | some .none => .ok none
  | some (.string text) => .ok (some text)
  | some v => .error (invalid "description" v line)

def readDeclaration (args : Arguments) (line : Nat) : Except Error Dag := do
  let id ← readId args line
  let start ← readStart args line
  let schedule ← readSchedule args line
  let catchup ← readCatchup args line
  let d ← (Dag.new id start schedule catchup).mapError Error.dag
  let description ← readDescription args line
  return { d with description := description }

end PipelineAtlas.Airflow

import PipelineAtlas.Airflow.Call
import PipelineAtlas.Airflow.Error
import PipelineAtlas.Script.Statement

/-! Dependency statements: `>>` and `<<` chains, calls of methods that link a task to others, and
`chain(...)`. An operand is a task variable or a list of task variables. -/
namespace PipelineAtlas.Airflow

open Script

/-- Task variables, the latest assignment first. -/
abbrev Variables := List (String × TaskHandle)

inductive Dependency where
  /-- The groups of a chain, each linked to the next. -/
  | groups (first : List (List Char)) (rest : List (Shift × List (List Char)))
  /-- A call on a task that links it to others. -/
  | call (task : List Char) (shift : Shift) (others : List (List Char))
deriving DecidableEq, Repr

def expression (statement : List Char) : List Char :=
  let inTarget : Char → Bool := fun c => Text.isWord c || c == '.'
  match Text.trimLeft (statement.dropWhile inTarget) with
  | '=' :: rest =>
    if startsName statement && rest.head? != some '=' then rest else statement
  | _ => statement

def operandNames? (operand : List Cell) : Option (List (List Char)) :=
  let operand := trimCells operand
  if Text.isIdentifier (text operand) then some [text operand]
  else
    match listBody? operand with
    | some inside =>
      let names := (splitTopLevel ',' inside).map fun part => text (trimCells part)
      if names.all Text.isIdentifier then some names else none
    | none => none

/-- The text between some opening and a parenthesis at the very end. -/
def bodyOf? (opening : String) (cells : List Cell) : Option (List Cell) :=
  if opening.toList.isPrefixOf (text cells) then
    let inside := cells.drop opening.toList.length
    if (inside.getLast?.map (·.char)) == some ')' then some inside.dropLast else none
  else none

/-- A call of a linking method that is the whole expression: the task, the
direction and the argument. -/
def setCall? (cells : List Cell) : Option (List Char × Shift × List Cell) :=
  let task := text (cells.takeWhile fun x => Text.isWord x.char)
  let rest := cells.dropWhile fun x => Text.isWord x.char
  if startsName task then
    (bodyOf? ".set_downstream(" rest).map (fun body => (task,Shift.forward,body)) <|>
      (bodyOf? ".set_upstream(" rest).map (fun body => (task,Shift.backward,body))
  else none

/-- The arguments of a `chain(...)` call that is the whole expression. Modules may precede the
name. -/
def chainCall? (cells : List Cell) : Option (List Cell) :=
  let inPath : Cell → Bool := fun x => Text.isWord x.char || x.char == '.'
  let names := segments (text (cells.takeWhile inPath))
  if names.all (fun name => !name.isEmpty) && names.getLast? == some "chain".toList then
    bodyOf? "(" (cells.dropWhile inPath)
  else none

def readGroups (first : List Cell) (rest : List (Shift × List Cell)) : Option Dependency := do
  let first ← operandNames? first
  let rest ← rest.mapM fun (s,operand) => (operandNames? operand).map fun names => (s,names)
  some (.groups first rest)

/-- How a statement reads: not as a dependency, as one that makes no sense, or as a dependency. The
task of a call on a task is given also when its argument makes no sense. -/
inductive Reading where
  | other
  | unreadable
  | unreadableCall (task : List Char)
  | dependency (d : Dependency)
deriving DecidableEq, Repr

def Reading.ofOption : Option Dependency → Reading
  | some d => .dependency d
  | none => .unreadable

def readDependency (statement : List Char) : Reading :=
  let cells := unwrap (scan (expression statement))
  match setCall? cells with
  | some (task,shift,body) =>
    match operandNames? body with
    | some others => .dependency (.call task shift others)
    | none => .unreadableCall task
  | none =>
  match chainCall? cells with
  | some body =>
    match splitTopLevel ',' body with
    | [] => .dependency (.groups [] [])
    | first :: rest => .ofOption (readGroups first (rest.map fun part => (.forward,part)))
  | none =>
    let chain := shiftChain cells
    if chain.rest.isEmpty then .other else .ofOption (readGroups chain.first chain.rest)

def resolve (vars : Variables) (line : Nat) (name : List Char) : Except Error TaskHandle :=
  match vars.lookup (String.ofList name) with
  | some h => .ok h
  | none => .error (.unknownTask (String.ofList name) line)

def linkTasks (d : Dag) (shift : Shift) (left right : TaskHandle) : Except Error Dag :=
  (match shift with
    | .forward => d.link left right
    | .backward => d.link right left).mapError Error.dag

def linkEach (vars : Variables) (line : Nat) (shift : Shift) (left : TaskHandle) (d : Dag)
    (rights : List (List Char)) : Except Error Dag :=
  rights.foldlM (fun d name => do linkTasks d shift left (← resolve vars line name)) d

def linkGroups (vars : Variables) (line : Nat) (shift : Shift) (lefts rights : List (List Char))
    (d : Dag) : Except Error Dag :=
  lefts.foldlM (fun d name => do linkEach vars line shift (← resolve vars line name) d rights) d

def linkChain (vars : Variables) (line : Nat) (d : Dag) (first : List (List Char)) :
    List (Shift × List (List Char)) → Except Error Dag
  | [] => .ok d
  | (shift,next) :: rest => do
    let d ← linkGroups vars line shift first next d
    linkChain vars line d next rest

def Dependency.apply (vars : Variables) (line : Nat) (d : Dag) : Dependency → Except Error Dag
  | .groups first rest => linkChain vars line d first rest
  | .call task shift others => do
    linkEach vars line shift (← resolve vars line task) d others

def applyStatement (vars : Variables) (d : Dag) (s : Statement) : Except Error Dag :=
  match readDependency s.text with
  | .other => .ok d
  | .unreadable => .error (.unreadableDependency (String.ofList s.text) s.line)
  | .unreadableCall task => do
    let _ ← resolve vars s.line task
    .error (.unreadableDependency (String.ofList s.text) s.line)
  | .dependency dep => dep.apply vars s.line d

end PipelineAtlas.Airflow

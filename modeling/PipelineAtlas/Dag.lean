import PipelineAtlas.ExecutionOrder
import PipelineAtlas.Identifier
import PipelineAtlas.Instant
import PipelineAtlas.Json
import PipelineAtlas.Schedule

/-! DAGs of shell tasks. Declaring tasks and edges checks names only; cycles are looked for when an
execution order is asked for. -/
namespace PipelineAtlas

inductive DagError where
  | cycleDetected (task : String)
  | missingDependency (task dependency : String)
  | duplicateTask (task : String)
  | taskNotFound (task : String)
  | foreignTask (task owner dag : String)
  | invalidDagId (id : String)
  | invalidTaskId (id : String)
  | invalidStartDate (text : String)
  | missingStartDate (dag : String)
  | schedule (e : ScheduleError)
deriving DecidableEq, Repr

def DagError.message : DagError → String
  | .cycleDetected task => "cycle detected involving task: " ++ task
  | .missingDependency task dependency =>
    "missing dependency: task '" ++ task ++ "' depends on non-existent task '" ++ dependency ++ "'"
  | .duplicateTask task => "duplicate task: " ++ task
  | .taskNotFound task => "task not found: " ++ task
  | .foreignTask task owner dag =>
    "task '" ++ task ++ "' belongs to DAG '" ++ owner ++ "', not '" ++ dag ++ "'"
  | .invalidDagId id => "invalid DAG id: '" ++ id ++ "'"
  | .invalidTaskId id => "invalid task id: '" ++ id ++ "'"
  | .invalidStartDate text => "invalid start date: " ++ text
  | .missingStartDate dag => "DAG '" ++ dag ++ "' has no start date"
  | .schedule e => "invalid schedule: " ++ e.message

/-- Tasks and edges stand in the order in which they were declared. -/
structure Dag where
  id : String
  description : Option String
  start : Instant
  schedule : Schedule
  catchup : Bool
  tasks : List Task
  edges : List Edge
deriving BEq, DecidableEq, Repr

namespace Dag

def new (id : String) (start : Instant) (schedule : Schedule) (catchup : Bool) :
    Except DagError Dag :=
  if isWellFormed id then .ok ⟨id,none,start,schedule,catchup,[],[]⟩
  else .error (.invalidDagId id)

def describe (d : Dag) (text : String) : Dag := { d with description := some text }

def ids (d : Dag) : List String := d.tasks.map (·.id)

def task? (d : Dag) (id : String) : Option Task := d.tasks.find? (·.id == id)

def position? (d : Dag) (id : String) : Option Nat := d.tasks.findIdx? (·.id == id)

def contains (d : Dag) (id : String) : Bool := d.tasks.any (·.id == id)

def handle? (d : Dag) (id : String) : Option TaskHandle :=
  if d.contains id then some ⟨d.id,id⟩ else none

def addTask (d : Dag) (t : Task) : Except DagError (Dag × TaskHandle) :=
  if !isWellFormed t.id then .error (.invalidTaskId t.id)
  else if d.contains t.id then .error (.duplicateTask t.id)
  else .ok ({ d with tasks := d.tasks ++ [t] },⟨d.id,t.id⟩)

/-- A handle must come from this DAG and name a registered task. -/
def checkHandle (d : Dag) (h : TaskHandle) : Except DagError Unit :=
  if h.dag ≠ d.id then .error (.foreignTask h.task h.dag d.id)
  else if d.contains h.task then .ok ()
  else .error (.taskNotFound h.task)

def link (d : Dag) (source target : TaskHandle) : Except DagError Dag := do
  d.checkHandle source
  d.checkHandle target
  return { d with edges := Edge.insert d.edges ⟨source.task,target.task⟩ }

def linkAfter (d : Dag) (task earlier : TaskHandle) : Except DagError Dag :=
  d.link earlier task

/-- Links each task to the next. The edges declared before a failure stay. -/
def chain (d : Dag) : List TaskHandle → Dag × Option DagError
  | a :: b :: rest =>
    match d.link a b with
    | .ok d' => d'.chain (b :: rest)
    | .error e => (d,some e)
  | _ => (d,none)

def hasEdge (d : Dag) (source target : String) : Bool :=
  d.edges.any fun e => e.source == source && e.target == target

def predecessors (d : Dag) (id : String) : List String := Edge.predecessors d.edges id

def successors (d : Dag) (id : String) : List String := Edge.successors d.edges id

def roots (d : Dag) : List String :=
  d.ids.filter fun id => !d.edges.any (·.target == id)

def leaves (d : Dag) : List String :=
  d.ids.filter fun id => !d.edges.any (·.source == id)

/-- The first end of an edge that is no registered task. -/
def danglingEnd? (d : Dag) : Option String :=
  (d.edges.flatMap fun e => [e.source,e.target]).find? fun id => !d.contains id

def topologicalSort (d : Dag) : Except DagError (List String) :=
  match d.danglingEnd? with
  | some id => .error (.taskNotFound id)
  | none =>
    let sweep := Sweep.complete d.ids d.edges
    match sweep.blocked d.ids with
    | [] => .ok sweep.order
    | id :: _ => .error (.cycleDetected id)

def validate (d : Dag) : Except DagError Unit := do
  let _ ← d.topologicalSort
  return ()

/-- The JSON form. A missing description is left out. -/
def toJson (d : Dag) : Json :=
  .object <|
    [("id",.string d.id)] ++
    (match d.description with
      | some text => [("description",.string text)]
      | none => []) ++
    [("start_date",.string d.start.text),
      ("schedule",.string d.schedule.expression),
      ("catchup",.bool d.catchup),
      ("tasks",.array (d.tasks.map fun t =>
        .object [("id",.string t.id),("command",.string t.command)])),
      ("edges",.array (d.edges.map fun e =>
        .object [("upstream",.string e.source),("downstream",.string e.target)]))]

end Dag

end PipelineAtlas

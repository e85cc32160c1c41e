import PipelineAtlas.Dag

/-! Building a DAG by task names. Nothing is checked before the DAG is built, so a dependency may be
named before its tasks. -/
namespace PipelineAtlas

/-- The schedule set last, as a text still to be read or as it is. -/
inductive ScheduleChoice where
  | preset
  | text (expression : String)
  | given (s : Schedule)
deriving DecidableEq, Repr

def ScheduleChoice.resolve : ScheduleChoice → Except ScheduleError Schedule
  | .preset => Schedule.parse "@daily"
  | .text expression => Schedule.parse expression
  | .given s => .ok s

/-- The two places in which a schedule may be kept until it is read, for one that is given and for a
text. To fill one is to empty the other. -/
structure ScheduleSlots where
  given : Option Schedule := none
  text : Option String := none
deriving DecidableEq, Repr

namespace ScheduleSlots

def setText (slots : ScheduleSlots) (expression : String) : ScheduleSlots :=
  { slots with given := none,text := some expression }

def setGiven (slots : ScheduleSlots) (s : Schedule) : ScheduleSlots :=
  { slots with text := none,given := some s }

/-- A schedule that is given goes before a text. -/
def resolve (slots : ScheduleSlots) : Except ScheduleError Schedule :=
  match slots.given,slots.text with
  | some s,_ => .ok s
  | none,some expression => Schedule.parse expression
  | none,none => Schedule.parse "@daily"

end ScheduleSlots

structure DagBuilder where
  id : String
  description : Option String := none
  start : Option Instant := none
  schedule : ScheduleChoice := .preset
  catchup : Bool := false
  tasks : List Task := []
  dependencies : List Edge := []
deriving DecidableEq, Repr

namespace DagBuilder

def new (id : String) : DagBuilder := { id := id }

def setDescription (b : DagBuilder) (text : String) : DagBuilder :=
  { b with description := some text }

def setStart (b : DagBuilder) (start : Instant) : DagBuilder := { b with start := some start }

def setScheduleText (b : DagBuilder) (expression : String) : DagBuilder :=
  { b with schedule := .text expression }

def setSchedule (b : DagBuilder) (s : Schedule) : DagBuilder := { b with schedule := .given s }

def setCatchup (b : DagBuilder) (catchup : Bool) : DagBuilder := { b with catchup := catchup }

def addTask (b : DagBuilder) (t : Task) : DagBuilder := { b with tasks := b.tasks ++ [t] }

def addDependency (b : DagBuilder) (source target : String) : DagBuilder :=
  { b with dependencies := b.dependencies ++ [⟨source,target⟩] }

def addTaskAfter (b : DagBuilder) (t : Task) (sources : List String) : DagBuilder :=
  { b with
    tasks := b.tasks ++ [t]
    dependencies := b.dependencies ++ sources.map fun u => ⟨u,t.id⟩ }

def register (d : Dag) (tasks : List Task) : Except DagError Dag :=
  tasks.foldlM (fun d t => (d.addTask t).map (·.1)) d

def link (d : Dag) (e : Edge) : Except DagError Dag :=
  match d.handle? e.target,d.handle? e.source with
  | none,_ => .error (.taskNotFound e.target)
  | some _,none => .error (.missingDependency e.target e.source)
  | some target,some source => d.link source target

def build (b : DagBuilder) : Except DagError Dag := do
  let some start := b.start | .error (.missingStartDate b.id)
  let schedule ← b.schedule.resolve.mapError DagError.schedule
  let d ← Dag.new b.id start schedule b.catchup
  let d ← register { d with description := b.description } b.tasks
  let d ← b.dependencies.foldlM link d
  d.validate
  return d

end DagBuilder

end PipelineAtlas

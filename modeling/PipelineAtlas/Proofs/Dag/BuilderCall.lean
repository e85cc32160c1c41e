import Mathlib.Data.List.Induction
import PipelineAtlas.Dag.Builder

/-! Calls on a builder and what they declare. Of the calls that set one thing the last counts; tasks and
dependencies are kept in the order of the calls, each kind by itself. -/
namespace PipelineAtlas.DagBuilder

inductive Call where
  | description (text : String)
  | start (i : Instant)
  | scheduleText (expression : String)
  | schedule (s : Schedule)
  | catchup (flag : Bool)
  | task (t : Task)
  | taskAfter (t : Task) (sources : List String)
  | dependency (source target : String)
deriving DecidableEq, Repr

def after (b : DagBuilder) : Call → DagBuilder
  | .description text => b.setDescription text
  | .start i => b.setStart i
  | .scheduleText expression => b.setScheduleText expression
  | .schedule s => b.setSchedule s
  | .catchup flag => b.setCatchup flag
  | .task t => b.addTask t
  | .taskAfter t sources => b.addTaskAfter t sources
  | .dependency source target => b.addDependency source target

namespace Call

def description? : Call → Option String
  | .description text => some text
  | _ => none

def start? : Call → Option Instant
  | .start i => some i
  | _ => none

def schedule? : Call → Option ScheduleChoice
  | .scheduleText expression => some (.text expression)
  | .schedule s => some (.given s)
  | _ => none

def catchup? : Call → Option Bool
  | .catchup flag => some flag
  | _ => none

def task? : Call → Option Task
  | .task t | .taskAfter t _ => some t
  | _ => none

def dependencies : Call → List Edge
  | .taskAfter t sources => sources.map fun source => ⟨source,t.id⟩
  | .dependency source target => [⟨source,target⟩]
  | _ => []

end Call

def lastOf (reading : Call → Option α) (calls : List Call) : Option α :=
  (calls.filterMap reading).getLast?

def declared (id : String) (calls : List Call) : DagBuilder where
  id := id
  description := lastOf Call.description? calls
  start := lastOf Call.start? calls
  schedule := (lastOf Call.schedule? calls).getD .preset
  catchup := (lastOf Call.catchup? calls).getD false
  tasks := calls.filterMap Call.task?
  dependencies := calls.flatMap Call.dependencies

theorem lastOf_concat (reading : Call → Option α) (calls : List Call) (c : Call) :
    lastOf reading (calls ++ [c]) = (reading c).or (lastOf reading calls) := by
  unfold lastOf
  rw [List.filterMap_append]
  cases read : reading c with
  | none => simp [read]
  | some value => simp [read]

theorem declared_concat (id : String) (calls : List Call) (c : Call) :
    declared id (calls ++ [c]) = (declared id calls).after c := by
  unfold declared
  simp only [lastOf_concat,List.filterMap_append,List.flatMap_append]
  cases c <;> simp [after,Call.description?,Call.start?,Call.schedule?,Call.catchup?,Call.task?,
    Call.dependencies,setDescription,setStart,setScheduleText,setSchedule,setCatchup,addTask,
    addTaskAfter,addDependency]

theorem foldl_after (id : String) (calls : List Call) :
    calls.foldl after (new id) = declared id calls := by
  induction calls using List.reverseRecOn with
  | nil => rfl
  | append_singleton calls c ih =>
    rw [List.foldl_append,ih,declared_concat,List.foldl_cons,List.foldl_nil]

end PipelineAtlas.DagBuilder

namespace PipelineAtlas.ScheduleSlots

open DagBuilder

def after (slots : ScheduleSlots) : Call → ScheduleSlots
  | .scheduleText expression => slots.setText expression
  | .schedule s => slots.setGiven s
  | _ => slots

def ofChoice : ScheduleChoice → ScheduleSlots
  | .preset => {}
  | .text expression => { text := some expression }
  | .given s => { given := some s }

theorem after_ofChoice (choice : ScheduleChoice) (c : Call) :
    (ofChoice choice).after c = ofChoice (c.schedule?.getD choice) := by
  cases c <;> rfl

theorem resolve_ofChoice (choice : ScheduleChoice) :
    (ofChoice choice).resolve = choice.resolve := by
  cases choice <;> rfl

theorem foldl_after (id : String) (calls : List Call) :
    calls.foldl after {} = ofChoice (declared id calls).schedule := by
  induction calls using List.reverseRecOn with
  | nil => rfl
  | append_singleton calls c ih =>
    have last : (declared id (calls ++ [c])).schedule =
        c.schedule?.getD (declared id calls).schedule := by
      rw [declared_concat]
      cases c <;> rfl
    rw [List.foldl_append,ih,List.foldl_cons,List.foldl_nil,after_ofChoice,last]

end PipelineAtlas.ScheduleSlots

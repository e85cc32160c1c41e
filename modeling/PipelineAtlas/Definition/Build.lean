import PipelineAtlas.Definition

/-! From a definition to a DAG. -/
namespace PipelineAtlas.Definition

def readSchedule (d : Definition) : Except DefinitionError Schedule :=
  match d.schedule with
  | none => .ok Schedule.manual
  | some expression =>
    (Schedule.parse expression).mapError (DefinitionError.invalidSchedule expression)

def toBuilder (d : Definition) (start : Instant) (schedule : Schedule) : DagBuilder :=
  let b := ((DagBuilder.new d.id).setStart start).setSchedule schedule |>.setCatchup d.catchup
  d.tasks.foldl (fun b t => b.addTaskAfter ⟨t.id,t.command⟩ t.dependsOn)
    { b with description := d.description }

def build (d : Definition) : Except DefinitionError Dag := do
  let start ← readStart d.start
  let schedule ← d.readSchedule
  (d.toBuilder start schedule).build.mapError DefinitionError.dag

end PipelineAtlas.Definition

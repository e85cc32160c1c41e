import PipelineAtlas.Dag.Indexed

/-! Changes to a DAG in place. A change goes step by step and may stop with an error; what it did
before it stopped stays. -/
namespace PipelineAtlas.IndexedDag

abbrev Change := ExceptT DagError (StateM IndexedDag)

namespace Change

def describe (text : String) : Change Unit := modify (·.describe text)

def addTask (t : Task) : Change TaskHandle := do
  if !isWellFormed t.id then throw (.invalidTaskId t.id)
  let d ← get
  if t.id ∈ d.index then throw (.duplicateTask t.id)
  modify fun d => { d with index := d.index.insert t.id d.tasks.length }
  modify fun d => { d with tasks := d.tasks ++ [t] }
  return ⟨d.id,t.id⟩

def checkHandle (h : TaskHandle) : Change Unit := do
  let d ← get
  if h.dag ≠ d.id then throw (.foreignTask h.task h.dag d.id)
  if h.task ∉ d.index then throw (.taskNotFound h.task)

def insertEdge (e : Edge) : Change Unit := do
  let d ← get
  if e ∉ d.edgeSet then
    modify fun d => { d with edgeSet := insert e d.edgeSet }
    modify fun d => { d with edges := d.edges ++ [e] }

def link (source target : TaskHandle) : Change Unit := do
  checkHandle source
  checkHandle target
  insertEdge ⟨source.task,target.task⟩

def linkAfter (task earlier : TaskHandle) : Change Unit := link earlier task

/-- Links each task to the next, one pair after the other. -/
def chain (handles : List TaskHandle) : Change Unit :=
  (handles.zip handles.tail).forM fun (a,b) => link a b

end Change

end PipelineAtlas.IndexedDag

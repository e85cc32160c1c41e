import PipelineAtlas.Dag
import Mathlib.Data.Finmap

/-! DAGs with an index. The places of the tasks are kept by name and the edges once more as a set, so
that no list is searched when a task or an edge is added or looked up. -/
namespace PipelineAtlas

structure IndexedDag extends Dag where
  index : Finmap fun _ : String => Nat
  edgeSet : Finset Edge
deriving BEq, DecidableEq

namespace IndexedDag

def new (id : String) (start : Instant) (schedule : Schedule) (catchup : Bool) :
    Except DagError IndexedDag :=
  if isWellFormed id then
    .ok
      { id := id,description := none,start := start,schedule := schedule,catchup := catchup,
        tasks := [],edges := [],index := ∅,edgeSet := ∅ }
  else .error (.invalidDagId id)

def describe (d : IndexedDag) (text : String) : IndexedDag := { d with description := some text }

def handle? (d : IndexedDag) (id : String) : Option TaskHandle :=
  if id ∈ d.index then some ⟨d.id,id⟩ else none

def addTask (d : IndexedDag) (t : Task) : Except DagError (IndexedDag × TaskHandle) :=
  if !isWellFormed t.id then .error (.invalidTaskId t.id)
  else if t.id ∈ d.index then .error (.duplicateTask t.id)
  else
    .ok
      ({ d with index := d.index.insert t.id d.tasks.length,tasks := d.tasks ++ [t] },
        ⟨d.id,t.id⟩)

def checkHandle (d : IndexedDag) (h : TaskHandle) : Except DagError Unit :=
  if h.dag ≠ d.id then .error (.foreignTask h.task h.dag d.id)
  else if h.task ∈ d.index then .ok ()
  else .error (.taskNotFound h.task)

/-- The set says whether the edge is new; only then does the list grow. -/
def insertEdge (d : IndexedDag) (e : Edge) : IndexedDag :=
  if e ∈ d.edgeSet then d
  else { d with edgeSet := insert e d.edgeSet,edges := d.edges ++ [e] }

def link (d : IndexedDag) (source target : TaskHandle) : Except DagError IndexedDag := do
  d.checkHandle source
  d.checkHandle target
  return d.insertEdge ⟨source.task,target.task⟩

def linkAfter (d : IndexedDag) (task earlier : TaskHandle) : Except DagError IndexedDag :=
  d.link earlier task

def chain (d : IndexedDag) : List TaskHandle → IndexedDag × Option DagError
  | a :: b :: rest =>
    match d.link a b with
    | .ok d' => d'.chain (b :: rest)
    | .error e => (d,some e)
  | _ => (d,none)

/-- The task at the place that the index gives. There is `some none` where no task is at that
place. -/
def task? (d : IndexedDag) (id : String) : Option (Option Task) :=
  (d.index.lookup id).map fun i => d.tasks[i]?

end IndexedDag

end PipelineAtlas

import PipelineAtlas.Dag.Change
import PipelineAtlas.Proofs.Dag.Indexed

/-! Changes in place, one operation after the other. An operation that is no chain happens as a whole
or not at all, and answers and DAGs are those of the operations that give a new DAG. -/
namespace PipelineAtlas

namespace IndexedDag.Change

def result (c : Change α) (d : IndexedDag) : Except DagError α × IndexedDag := c.run.run d

@[simp]
theorem result_pure (a : α) (d : IndexedDag) : (pure a : Change α).result d = (.ok a,d) := rfl

@[simp]
theorem result_throw (e : DagError) (d : IndexedDag) :
    (throw e : Change α).result d = (.error e,d) := rfl

@[simp]
theorem result_get (d : IndexedDag) : (get : Change IndexedDag).result d = (.ok d,d) := rfl

@[simp]
theorem result_modify (f : IndexedDag → IndexedDag) (d : IndexedDag) :
    (modify f : Change Unit).result d = (.ok (),f d) := rfl

theorem result_bind (c : Change α) (next : α → Change β) (d : IndexedDag) :
    (c >>= next).result d =
      match c.result d with
      | (.ok a,d') => (next a).result d'
      | (.error e,d') => (.error e,d') := by
  have unfolded : (c >>= next).result d =
      ExceptT.bindCont next (c.result d).1 (c.result d).2 := rfl
  rw [unfolded]
  rcases c.result d with ⟨answer,d'⟩
  cases answer <;> rfl

theorem result_map (f : α → β) (c : Change α) (d : IndexedDag) :
    (f <$> c).result d = ((c.result d).1.map f,(c.result d).2) := by
  rw [← bind_pure_comp,result_bind]
  rcases c.result d with ⟨answer,d'⟩
  cases answer <;> rfl

theorem result_addTask (t : Task) (d : IndexedDag) : (addTask t).result d =
    match d.addTask t with
    | .ok (d',h) => (.ok h,d')
    | .error e => (.error e,d) := by
  unfold addTask IndexedDag.addTask
  cases isWellFormed t.id with
  | false => rfl
  | true => by_cases old : t.id ∈ d.index <;> simp [result_bind,result_map,Except.map,old]

theorem result_checkHandle (h : TaskHandle) (d : IndexedDag) :
    (checkHandle h).result d = (d.checkHandle h,d) := by
  unfold checkHandle IndexedDag.checkHandle
  by_cases own : h.dag = d.id <;> by_cases known : h.task ∈ d.index <;>
    simp [result_bind,own,known]

theorem result_insertEdge (e : Edge) (d : IndexedDag) :
    (insertEdge e).result d = (.ok (),d.insertEdge e) := by
  unfold insertEdge IndexedDag.insertEdge
  by_cases old : e ∈ d.edgeSet <;> simp [result_bind,old]

theorem result_link (source target : TaskHandle) (d : IndexedDag) : (link source target).result d =
    match d.link source target with
    | .ok d' => (.ok (),d')
    | .error e => (.error e,d) := by
  unfold link IndexedDag.link
  simp only [result_bind,result_checkHandle,result_insertEdge]
  cases d.checkHandle source with
  | error e => rfl
  | ok _ =>
    dsimp only
    cases d.checkHandle target <;> rfl

theorem result_chain (handles : List TaskHandle) (d : IndexedDag) : (chain handles).result d =
    match d.chain handles with
    | (d',none) => (.ok (),d')
    | (d',some e) => (.error e,d') := by
  induction handles generalizing d with
  | nil => rfl
  | cons a rest ih =>
    cases rest with
    | nil => rfl
    | cons b rest =>
      have unfolded : chain (a :: b :: rest) = (link a b >>= fun _ => chain (b :: rest)) := rfl
      rw [unfolded,result_bind,result_link,IndexedDag.chain]
      cases d.link a b with
      | error e => rfl
      | ok d' => exact ih d'

end IndexedDag.Change

namespace Dag

/-- What an operation answers: the handle if it registers a task. -/
def answer (d : Dag) : Operation → Except DagError (Option TaskHandle)
  | .describe _ => .ok none
  | .addTask t => (d.addTask t).map (some ·.2)
  | .bashTask id command => (d.addTask ⟨id,command⟩).map (some ·.2)
  | .link source target => (d.link source target).map fun _ => none
  | .linkAfter task earlier => (d.linkAfter task earlier).map fun _ => none
  | .chain handles =>
    match (d.chain handles).2 with
    | none => .ok none
    | some e => .error e

end Dag

namespace IndexedDag

def change : Dag.Operation → Change (Option TaskHandle)
  | .describe text => do
    Change.describe text
    return none
  | .addTask t => some <$> Change.addTask t
  | .bashTask id command => some <$> Change.addTask ⟨id,command⟩
  | .link source target => do
    Change.link source target
    return none
  | .linkAfter task earlier => do
    Change.linkAfter task earlier
    return none
  | .chain handles => do
    Change.chain handles
    return none

def perform (d : IndexedDag) (operation : Dag.Operation) :
    Except DagError (Option TaskHandle) × IndexedDag :=
  (change operation).result d

/-- A change in place leaves the DAG that the operation gives, and the old one if it gives none. -/
theorem perform_snd (d : IndexedDag) (operation : Dag.Operation) :
    (d.perform operation).2 = d.after operation := by
  have added (t : Task) : (d.perform (.addTask t)).2 = d.kept ((d.addTask t).map (·.1)) := by
    rw [perform,change,Change.result_map,Change.result_addTask]
    cases d.addTask t <;> rfl
  have linked (source target : TaskHandle) :
      (d.perform (.link source target)).2 = d.kept (d.link source target) := by
    rw [perform,change,Change.result_bind,Change.result_link]
    cases d.link source target <;> rfl
  cases operation with
  | describe text => rfl
  | addTask t => exact added t
  | bashTask id command => exact added ⟨id,command⟩
  | link source target => exact linked source target
  | linkAfter task earlier => exact linked earlier task
  | chain handles =>
    rw [perform,change,Change.result_bind,Change.result_chain,IndexedDag.after]
    rcases d.chain handles with ⟨d',_ | e⟩ <;> rfl

theorem perform_of_error {d : IndexedDag} {operation : Dag.Operation} {e : DagError}
    (failed : (d.perform operation).1 = .error e)
    (whole : ∀ handles, operation ≠ .chain handles) : (d.perform operation).2 = d := by
  have added (t : Task) (failed : (d.perform (.addTask t)).1 = .error e) :
      (d.perform (.addTask t)).2 = d := by
    rw [perform,change,Change.result_map,Change.result_addTask] at failed ⊢
    cases stored : d.addTask t with
    | error _ => rfl
    | ok pair => simp [stored,Except.map] at failed
  have linked (source target : TaskHandle) (failed : (d.perform (.link source target)).1 = .error e) :
      (d.perform (.link source target)).2 = d := by
    rw [perform,change,Change.result_bind,Change.result_link] at failed ⊢
    cases done : d.link source target with
    | error _ => rfl
    | ok d' => simp [done] at failed
  cases operation with
  | describe text => cases failed
  | addTask t => exact added t failed
  | bashTask id command => exact added ⟨id,command⟩ failed
  | link source target => exact linked source target failed
  | linkAfter task earlier => exact linked earlier task failed
  | chain handles => exact absurd rfl (whole handles)

theorem InStep.perform_fst {d : IndexedDag} (inStep : InStep d) (operation : Dag.Operation) :
    (d.perform operation).1 = d.toDag.answer operation := by
  have added (t : Task) :
      (d.perform (.addTask t)).1 = (d.toDag.addTask t).map (some ·.2) := by
    rw [perform,change,Change.result_map,Change.result_addTask,← inStep.addTask]
    cases d.addTask t <;> rfl
  have linked (source target : TaskHandle) : (d.perform (.link source target)).1 =
      (d.toDag.link source target).map fun _ => none := by
    rw [perform,change,Change.result_bind,Change.result_link,← inStep.link]
    cases d.link source target <;> rfl
  cases operation with
  | describe text => rfl
  | addTask t => exact added t
  | bashTask id command => exact added ⟨id,command⟩
  | link source target => exact linked source target
  | linkAfter task earlier => exact linked earlier task
  | chain handles =>
    have plain := congrArg Prod.snd (inStep.of_chain handles).2
    rw [perform,change,Change.result_bind,Change.result_chain,Dag.answer,← plain]
    rcases d.chain handles with ⟨d',_ | e⟩ <;> rfl

theorem InStep.of_perform {d : IndexedDag} (inStep : InStep d) (operation : Dag.Operation) :
    InStep (d.perform operation).2 ∧
      (d.perform operation).2.toDag = d.toDag.after operation := by
  rw [perform_snd]
  exact ⟨inStep.of_after operation,inStep.toDag_after operation⟩

end IndexedDag

end PipelineAtlas

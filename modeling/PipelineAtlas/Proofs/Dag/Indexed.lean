import PipelineAtlas.Dag.Indexed
import PipelineAtlas.Proofs.Dag.Operation
import PipelineAtlas.Proofs.Fallible

/-! The index of a DAG and its set of edges stay in step with its tasks and edges, whatever operations
led to it and whether they succeeded. Without them, it is the DAG that the same operations lead to. -/
namespace PipelineAtlas.IndexedDag

open Fallible

def kept (d : IndexedDag) (result : Except DagError IndexedDag) : IndexedDag :=
  match result with
  | .ok d' => d'
  | .error _ => d

def after (d : IndexedDag) : Dag.Operation → IndexedDag
  | .describe text => d.describe text
  | .addTask t => d.kept ((d.addTask t).map (·.1))
  | .bashTask id command => d.kept ((d.addTask ⟨id,command⟩).map (·.1))
  | .link source target => d.kept (d.link source target)
  | .linkAfter task earlier => d.kept (d.linkAfter task earlier)
  | .chain handles => (d.chain handles).1

inductive Reachable : IndexedDag → Prop
  | new {id start schedule catchup d} (made : new id start schedule catchup = .ok d) : Reachable d
  | after {d} (before : Reachable d) (operation : Dag.Operation) : Reachable (d.after operation)

theorem Reachable.afterAll {d : IndexedDag} (before : Reachable d)
    (operations : List Dag.Operation) : Reachable (operations.foldl IndexedDag.after d) := by
  induction operations generalizing d with
  | nil => exact before
  | cons operation operations ih => exact ih (before.after operation)

/-- What is kept twice agrees. -/
structure InStep (d : IndexedDag) : Prop where
  index : ∀ id i, d.index.lookup id = some i ↔ d.ids[i]? = some id
  edgeSet : ∀ e, e ∈ d.edgeSet ↔ e ∈ d.edges

namespace InStep

variable {d : IndexedDag} (inStep : InStep d)

include inStep

theorem mem_index (id : String) : id ∈ d.index ↔ id ∈ d.ids := by
  simp only [Finmap.mem_iff,inStep.index,List.mem_iff_getElem?]

theorem handle? (id : String) : d.handle? id = d.toDag.handle? id := by
  simp only [IndexedDag.handle?,Dag.handle?,inStep.mem_index,Dag.contains_iff]

theorem checkHandle (h : TaskHandle) : d.checkHandle h = d.toDag.checkHandle h := by
  simp only [IndexedDag.checkHandle,Dag.checkHandle,inStep.mem_index,Dag.contains_iff]

theorem addTask (t : Task) :
    (d.addTask t).map (fun (d',h) => (d'.toDag,h)) = d.toDag.addTask t := by
  simp only [IndexedDag.addTask,Dag.addTask,inStep.mem_index,Dag.contains_iff]
  split
  · rfl
  · split <;> rfl

theorem insertEdge (e : Edge) :
    (d.insertEdge e).toDag = { d.toDag with edges := Edge.insert d.edges e } := by
  by_cases old : e ∈ d.edges
  · simp [IndexedDag.insertEdge,Edge.insert,inStep.edgeSet,old]
  · simp [IndexedDag.insertEdge,Edge.insert,inStep.edgeSet,old]

theorem link (source target : TaskHandle) :
    (d.link source target).map (·.toDag) = d.toDag.link source target := by
  simp only [IndexedDag.link,Dag.link,inStep.checkHandle]
  cases d.toDag.checkHandle source with
  | error e => rfl
  | ok _ =>
    cases d.toDag.checkHandle target with
    | error e => rfl
    | ok _ => exact congrArg Except.ok (inStep.insertEdge _)

end InStep

theorem InStep.of_addTask {d d' : IndexedDag} {t : Task} {h : TaskHandle} (inStep : InStep d)
    (added : d.addTask t = .ok (d',h)) : InStep d' := by
  unfold IndexedDag.addTask at added
  split at added
  · cases added
  split at added
  · cases added
  rename_i absent
  rw [inStep.mem_index] at absent
  cases added
  have ids : Dag.ids { d.toDag with tasks := d.tasks ++ [t] } = d.ids ++ [t.id] := by
    simp [Dag.ids]
  have size : d.tasks.length = d.ids.length := by simp [Dag.ids]
  refine ⟨fun id i => ?_,inStep.edgeSet⟩
  rw [ids,size]
  by_cases same : id = t.id
  · subst same
    rw [Finmap.lookup_insert,Option.some.injEq,List.getElem?_append]
    split
    next old =>
      have other : d.ids[i]? ≠ some t.id := fun found => absent (List.mem_of_getElem? found)
      simp only [other,iff_false]
      omega
    next =>
      rw [List.getElem?_singleton]
      split <;> simp <;> omega
  · rw [Finmap.lookup_insert_of_ne _ same,inStep.index,List.getElem?_append]
    split
    · rfl
    next behind =>
      rw [List.getElem?_eq_none (by omega),List.getElem?_singleton]
      split <;> simp [Ne.symm same]

theorem InStep.of_insertEdge {d : IndexedDag} (inStep : InStep d) (e : Edge) :
    InStep (d.insertEdge e) := by
  unfold IndexedDag.insertEdge
  split
  · exact inStep
  · refine ⟨inStep.index,fun x => ?_⟩
    rw [Finset.mem_insert,inStep.edgeSet,List.mem_append,List.mem_singleton,or_comm]

theorem InStep.of_link {d d' : IndexedDag} {source target : TaskHandle} (inStep : InStep d)
    (linked : d.link source target = .ok d') : InStep d' := by
  obtain ⟨_,-,linked⟩ := bind_ok.mp linked
  obtain ⟨_,-,linked⟩ := bind_ok.mp linked
  cases linked
  exact inStep.of_insertEdge _

theorem InStep.of_chain {d : IndexedDag} (inStep : InStep d) (handles : List TaskHandle) :
    InStep (d.chain handles).1 ∧
      (fun r : IndexedDag × Option DagError => (r.1.toDag,r.2)) (d.chain handles) =
        d.toDag.chain handles := by
  induction handles generalizing d with
  | nil => exact ⟨inStep,rfl⟩
  | cons a rest ih =>
    cases rest with
    | nil => exact ⟨inStep,rfl⟩
    | cons b rest =>
      have plain := inStep.link a b
      unfold IndexedDag.chain Dag.chain
      cases linked : d.link a b with
      | error e =>
        rw [linked] at plain
        rw [← plain]
        exact ⟨inStep,rfl⟩
      | ok d' =>
        rw [linked] at plain
        rw [← plain]
        exact ih (inStep.of_link linked)

theorem InStep.of_kept {d : IndexedDag} {result : Except DagError IndexedDag} (inStep : InStep d)
    (good : ∀ d', result = .ok d' → InStep d') : InStep (d.kept result) := by
  cases result with
  | error e => exact inStep
  | ok d' => exact good d' rfl

theorem toDag_kept (d : IndexedDag) (result : Except DagError IndexedDag) :
    (d.kept result).toDag = d.toDag.kept (result.map (·.toDag)) := by
  cases result <;> rfl

theorem InStep.of_after {d : IndexedDag} (inStep : InStep d) (operation : Dag.Operation) :
    InStep (d.after operation) := by
  have added : ∀ t d', (d.addTask t).map (·.1) = .ok d' → InStep d' := by
    intro t d' result
    obtain ⟨⟨_,h⟩,stored,rfl⟩ := map_ok.mp result
    exact inStep.of_addTask stored
  cases operation with
  | describe text => exact ⟨inStep.index,inStep.edgeSet⟩
  | addTask t => exact inStep.of_kept (added t)
  | bashTask id command => exact inStep.of_kept (added ⟨id,command⟩)
  | link source target => exact inStep.of_kept fun _ linked => inStep.of_link linked
  | linkAfter task earlier => exact inStep.of_kept fun _ linked => inStep.of_link linked
  | chain handles => exact (inStep.of_chain handles).1

theorem InStep.toDag_after {d : IndexedDag} (inStep : InStep d) (operation : Dag.Operation) :
    (d.after operation).toDag = d.toDag.after operation := by
  have added : ∀ t, (d.kept ((d.addTask t).map (·.1))).toDag =
      d.toDag.kept ((d.toDag.addTask t).map (·.1)) := by
    intro t
    rw [toDag_kept,← inStep.addTask]
    cases d.addTask t <;> rfl
  have linked : ∀ source target, (d.kept (d.link source target)).toDag =
      d.toDag.kept (d.toDag.link source target) := by
    intro source target
    rw [toDag_kept,inStep.link]
  cases operation with
  | describe text => rfl
  | addTask t => exact added t
  | bashTask id command => exact added ⟨id,command⟩
  | link source target => exact linked source target
  | linkAfter task earlier => exact linked earlier task
  | chain handles => exact congrArg Prod.fst (inStep.of_chain handles).2

theorem Reachable.inStep {d : IndexedDag} (reachable : Reachable d) :
    InStep d ∧ Dag.Reachable d.toDag := by
  induction reachable with
  | new made =>
    unfold IndexedDag.new at made
    split at made
    next wellFormed =>
      cases made
      exact ⟨⟨by simp [Dag.ids],by simp⟩,.new (Dag.new_ok.mpr ⟨wellFormed,rfl⟩)⟩
    next => cases made
  | after _ operation ih =>
    rw [ih.1.toDag_after]
    exact ⟨ih.1.of_after operation,ih.2.after operation⟩

theorem InStep.task?_cases {d : IndexedDag} (inStep : InStep d) (distinct : d.ids.Nodup)
    (id : String) : (d.task? id = none ∧ id ∉ d.ids) ∨
      ∃ t ∈ d.tasks, d.task? id = some (some t) ∧ t.id = id ∧
        ∀ other ∈ d.tasks, other.id = id → other = t := by
  by_cases member : id ∈ d.ids
  · right
    obtain ⟨i,place⟩ := List.mem_iff_getElem?.mp member
    have indexed := (inStep.index id i).mpr place
    rw [Dag.ids,List.getElem?_map] at place
    obtain ⟨t,found,named⟩ := Option.map_eq_some_iff.mp place
    have inside := List.mem_of_getElem? found
    refine ⟨t,inside,?_,named,fun other present same => ?_⟩
    · rw [IndexedDag.task?,indexed,Option.map_some,found]
    · exact List.inj_on_of_nodup_map distinct present inside (same.trans named.symm)
  · left
    have absent := Finmap.lookup_eq_none.mpr (mt (inStep.mem_index id).mp member)
    exact ⟨by rw [IndexedDag.task?,absent,Option.map_none],member⟩

/-- Comparing the index and the set as well makes no difference. -/
theorem InStep.beq_iff {d other : IndexedDag} (inStep : InStep d) (otherInStep : InStep other) :
    (d == other) = true ↔ (d.toDag == other.toDag) = true := by
  have parts : (d == other) = (d.toDag == other.toDag &&
      (decide (d.index = other.index) && decide (d.edgeSet = other.edgeSet))) := by
    cases d
    cases other
    rfl
  rw [parts,Bool.and_eq_true,Bool.and_eq_true,decide_eq_true_iff,decide_eq_true_iff]
  refine ⟨And.left,fun same => ⟨same,?_,?_⟩⟩
  · obtain ⟨-,-,-,-,-,tasks,-⟩ := (Dag.beq_iff _ _).mp same
    have ids : d.ids = other.ids := by rw [Dag.ids,Dag.ids,tasks]
    refine Finmap.ext_lookup fun id => Option.ext fun i => ?_
    rw [inStep.index,otherInStep.index,ids]
  · obtain ⟨-,-,-,-,-,-,edges⟩ := (Dag.beq_iff _ _).mp same
    refine Finset.ext fun e => ?_
    rw [inStep.edgeSet,otherInStep.edgeSet,edges]

/-- Whatever operations led to a DAG, its tasks have names of their own that are well formed, the
index holds the place of each and nothing else, and its edges lead from task to task and are those of
the set, each once. So looking a task up finds the only one of that name, an edge is seen alike from
both ends, the borders are the tasks without neighbours on one side, and DAGs are equal if what they
declare is. Without the index, they are the DAGs that the same operations lead to. -/
theorem represents_of_reachable (d : IndexedDag) (reachable : Reachable d) :
    (d.ids.Nodup ∧ (∀ id ∈ d.ids, isWellFormed id = true) ∧
      (∀ id i, d.index.lookup id = some i ↔ d.ids[i]? = some id) ∧
      (∀ e, e ∈ d.edgeSet ↔ e ∈ d.edges) ∧ d.edges.Nodup ∧
      ∀ e ∈ d.edges, e.source ∈ d.ids ∧ e.target ∈ d.ids) ∧
    (∀ id, (d.task? id = none ∧ id ∉ d.ids) ∨
      ∃ t ∈ d.tasks, d.task? id = some (some t) ∧ t.id = id ∧
        ∀ other ∈ d.tasks, other.id = id → other = t) ∧
    (∀ a b, (d.hasEdge a b = true ↔ a ∈ d.predecessors b) ∧
      (d.hasEdge a b = true ↔ b ∈ d.successors a)) ∧
    (∀ id, (d.predecessors id).Nodup ∧ (d.successors id).Nodup) ∧
    (d.roots = d.ids.filter fun id => (d.predecessors id).isEmpty) ∧
    (d.leaves = d.ids.filter fun id => (d.successors id).isEmpty) ∧
    (∀ other, Reachable other → ((d == other) = true ↔ d.id = other.id ∧
      d.description = other.description ∧ d.start = other.start ∧
      d.schedule.expression = other.schedule.expression ∧ d.catchup = other.catchup ∧
      d.tasks = other.tasks ∧ d.edges = other.edges)) ∧
    Dag.Reachable d.toDag ∧
    ∀ operation, (d.after operation).toDag = d.toDag.after operation := by
  obtain ⟨inStep,plain⟩ := reachable.inStep
  have consistent := plain.consistent
  refine ⟨⟨consistent.distinct,consistent.wellFormed,inStep.index,inStep.edgeSet,
    consistent.unique,consistent.closed⟩,inStep.task?_cases consistent.distinct,?_,?_,
    d.roots_eq,d.leaves_eq,?_,plain,inStep.toDag_after⟩
  · intro a b
    rw [d.hasEdge_iff]
    exact ⟨Edge.mem_predecessors.symm,Edge.mem_successors.symm⟩
  · intro id
    exact ⟨Edge.nodup_predecessors consistent.unique id,
      Edge.nodup_successors consistent.unique id⟩
  · intro other otherReachable
    rw [inStep.beq_iff otherReachable.inStep.1,Dag.beq_iff]

/-- A DAG after operations some of which fail: a name taken, a name that is malformed, a chain with a
task of another DAG, an edge declared again. -/
def rejected : IndexedDag :=
  [.bashTask "a" "true",.bashTask "b" "true",.bashTask "a" "false",.bashTask "a b" "true",
    .chain [⟨"x","a"⟩,⟨"x","b"⟩,⟨"y","a"⟩],.link ⟨"x","a"⟩ ⟨"x","b"⟩,
    .linkAfter ⟨"x","b"⟩ ⟨"x","c"⟩].foldl after
    { id := "x",description := none,start := ⟨0,0⟩,schedule := Schedule.manual,
      catchup := false,tasks := [],edges := [],index := ∅,edgeSet := ∅ }

theorem represents_of_rejected : Reachable rejected ∧
    rejected.edges = [⟨"a","b"⟩] ∧ rejected.edgeSet = {⟨"a","b"⟩} ∧
    (∀ id i, rejected.index.lookup id = some i ↔ ["a","b"][i]? = some id) ∧
    rejected.roots = ["a"] := by
  have made : new "x" ⟨0,0⟩ Schedule.manual false =
      .ok { id := "x",description := none,start := ⟨0,0⟩,schedule := Schedule.manual,
            catchup := false,tasks := [],edges := [],index := ∅,edgeSet := ∅ } := by decide
  have reachable : Reachable rejected := (Reachable.new made).afterAll _
  obtain ⟨⟨-,-,index,edgeSet,-,-⟩,-,-,-,roots,-⟩ := represents_of_reachable rejected reachable
  have ids : rejected.ids = ["a","b"] := by decide
  have edges : rejected.edges = [⟨"a","b"⟩] := by decide
  rw [ids] at index
  refine ⟨reachable,edges,?_,index,?_⟩
  · refine Finset.ext fun e => ?_
    rw [edgeSet,edges,List.mem_singleton,Finset.mem_singleton]
  · rw [roots]
    decide

end PipelineAtlas.IndexedDag

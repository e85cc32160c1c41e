import PipelineAtlas.Proofs.Dag.Operation
import PipelineAtlas.Proofs.Definition.Build
import PipelineAtlas.Proofs.Schedule.Expression

/-! DAGs written down as definitions. What a valid DAG is written down as passes the checks of definitions,
and building it restores the DAG, apart from the order of its edges. -/
namespace PipelineAtlas

namespace Dag

/-- The definition that says what a DAG is, its start given as a text. -/
def definition (d : Dag) (start : String) : Definition where
  id := d.id
  description := d.description
  start := start
  schedule := some d.schedule.expression
  catchup := d.catchup
  tasks := d.tasks.map fun t => ⟨t.id,t.command,d.predecessors t.id⟩

variable {d : Dag} {start : String}

theorem definition_ids (d : Dag) (start : String) : (d.definition start).ids = d.ids := by
  simp [definition,Definition.ids,Dag.ids]

theorem definition_tasks (d : Dag) (start : String) :
    (d.definition start).tasks.map (fun t => (⟨t.id,t.command⟩ : Task)) = d.tasks := by
  rw [definition,List.map_map]
  exact List.map_id d.tasks

theorem mem_definition_edges (closed : ∀ e ∈ d.edges, e.target ∈ d.ids) (e : Edge) :
    e ∈ (d.definition start).edges ↔ e ∈ d.edges := by
  simp only [Definition.mem_edges,definition,List.mem_map,exists_exists_and_eq_and,predecessors,
    Edge.mem_predecessors]
  constructor
  · rintro ⟨t,-,inside,target⟩
    rwa [← target] at inside
  · intro inside
    obtain ⟨t,member,target⟩ := List.mem_map.mp (closed e inside)
    exact ⟨t,member,by rwa [target],target.symm⟩

/-- What a valid DAG is written down as passes all checks. -/
theorem Consistent.accepted (consistent : Consistent d) (valid : d.validate = .ok ())
    (nonempty : d.tasks ≠ []) (started : Definition.readStart start = .ok d.start) :
    (d.definition start).Accepted := by
  have acyclic := consistent.validate_ok.mp valid
  have edges : ∀ e, e ∈ (d.definition start).edges ↔ e ∈ d.edges :=
    mem_definition_edges fun e inside => (consistent.closed e inside).2
  refine ⟨Definition.ne_empty_of_wellFormed consistent.named,Definition.readStart_given started,
    ⟨d.start,started⟩,?_,?_,?_,?_,?_⟩
  · simpa [definition] using nonempty
  · rw [definition_ids]
    exact consistent.distinct
  · rw [definition_ids]
    intro t inside u named
    have edge : (⟨u,t.id⟩ : Edge) ∈ d.edges :=
      (edges _).mp (Definition.mem_edges.mpr ⟨t,inside,named,rfl⟩)
    refine ⟨?_,(consistent.closed _ edge).1⟩
    rintro rfl
    exact acyclic ⟨t.id,.single edge⟩
  · simp only [definition,List.mem_map]
    rintro _ ⟨t,-,rfl⟩
    exact Edge.nodup_predecessors consistent.unique t.id
  · exact (Edge.cyclic_congr edges).not.mpr acyclic

theorem Consistent.perm_edges (consistent : Consistent d) (accepted : (d.definition start).Accepted) :
    (d.definition start).edges.Perm d.edges :=
  (List.perm_ext_iff_of_nodup (Definition.nodup_edges accepted.distinct accepted.once)
    consistent.unique).mpr (mem_definition_edges fun e inside => (consistent.closed e inside).2)

theorem definition_schedule (made : Schedule.Made d.schedule) (start : String) :
    (d.definition start).readSchedule = .ok d.schedule := by
  have parsed : (Schedule.parse d.schedule.expression).mapError
      (DefinitionError.invalidSchedule d.schedule.expression) = .ok d.schedule :=
    Fallible.mapError_ok.mpr (Schedule.parse_of_made made)
  exact parsed

theorem Consistent.build_definition (consistent : Consistent d) (made : Schedule.Made d.schedule)
    (accepted : (d.definition start).Accepted)
    (started : Definition.readStart start = .ok d.start) :
    (d.definition start).build = .ok { d with edges := (d.definition start).edges } := by
  have named : ∀ t ∈ (d.definition start).tasks, isWellFormed t.id = true := by
    intro t inside
    apply consistent.wellFormed
    rw [← definition_ids d start]
    exact List.mem_map_of_mem inside
  have built : ((d.definition start).toBuilder d.start d.schedule).build =
      .ok { d with edges := (d.definition start).edges } := by
    rw [Definition.toBuilder_build_ok,accepted.insertAll_edges,definition_tasks]
    exact ⟨consistent.named,named,accepted.coherent d.start d.schedule,rfl⟩
  exact Definition.build_ok.mpr
    ⟨d.start,d.schedule,started,definition_schedule made start,built⟩

/-- A valid DAG with a task is restored from what it is written down as: the definition passes the checks,
and building it gives the DAG again, apart from the order of its edges. -/
theorem restored_of_definition (d : Dag) (start : String) (reachable : Reachable d)
    (made : Schedule.Made d.schedule) (nonempty : d.tasks ≠ []) (valid : d.validate = .ok ())
    (started : Definition.readStart start = .ok d.start) :
    (d.definition start).validate = .ok () ∧
      ∃ restored, (d.definition start).build = .ok restored ∧ restored.id = d.id ∧
        restored.description = d.description ∧ restored.start = d.start ∧
        restored.schedule = d.schedule ∧ restored.catchup = d.catchup ∧
        restored.tasks = d.tasks ∧ restored.edges.Perm d.edges := by
  have consistent := reachable.consistent
  have accepted := consistent.accepted valid nonempty started
  exact ⟨Definition.validate_ok.mpr accepted,_,
    consistent.build_definition made accepted started,rfl,rfl,rfl,rfl,rfl,rfl,
    consistent.perm_edges accepted⟩

/-- A task that waits for two others, its edges declared before those of a task in front of it. -/
def joined : Dag :=
  [.describe "nightly",.bashTask "fetch" "f",.bashTask "check" "c",.bashTask "load" "l",
    .chain [⟨"etl","check"⟩,⟨"etl","load"⟩],.link ⟨"etl","fetch"⟩ ⟨"etl","load"⟩,
    .linkAfter ⟨"etl","check"⟩ ⟨"etl","fetch"⟩].foldl after
    ⟨"etl",none,⟨1709164800,0⟩,⟨"@every 1d",.interval 86400⟩,true,[],[]⟩

theorem restored_of_joined : Reachable joined ∧ Schedule.Made joined.schedule ∧
    joined.tasks ≠ [] ∧ joined.validate = .ok () ∧
    Definition.readStart " 2024-02-29T01:00:00+01:00 " = .ok joined.start ∧
    (joined.definition " 2024-02-29T01:00:00+01:00 ").validate = .ok () ∧
    ∃ restored, (joined.definition " 2024-02-29T01:00:00+01:00 ").build = .ok restored ∧
      restored.schedule = joined.schedule ∧ restored.tasks = joined.tasks ∧
      restored.edges.Perm joined.edges := by
  have new : Dag.new "etl" ⟨1709164800,0⟩ ⟨"@every 1d",.interval 86400⟩ true =
      .ok ⟨"etl",none,⟨1709164800,0⟩,⟨"@every 1d",.interval 86400⟩,true,[],[]⟩ := by decide
  have reachable : Reachable joined := (Reachable.new new).afterAll _
  have read : Schedule.parse "@every 1d" = .ok ⟨"@every 1d",.interval 86400⟩ := by rfl
  have made : Schedule.Made joined.schedule := .parsed read
  have nonempty : joined.tasks ≠ [] := by decide
  have valid : joined.validate = .ok () := by decide
  have started : Definition.readStart " 2024-02-29T01:00:00+01:00 " = .ok joined.start := by
    decide +kernel
  obtain ⟨passes,restored,built,-,-,-,schedule,-,tasks,edges⟩ :=
    restored_of_definition joined _ reachable made nonempty valid started
  exact ⟨reachable,made,nonempty,valid,started,passes,restored,built,schedule,tasks,edges⟩

end Dag

end PipelineAtlas

import PipelineAtlas.Definition.Build
import PipelineAtlas.Proofs.Dag.BuilderFault
import PipelineAtlas.Proofs.Definition.Check

/-! The checks of a definition against the checks of the DAG that is built from it. Apart from names
and the schedule, which only building looks at, the two accept the same definitions. -/
namespace PipelineAtlas.Definition

open Fallible

private theorem addTasks (tasks : List TaskDefinition) (b : DagBuilder) :
    tasks.foldl (fun b t => b.addTaskAfter ⟨t.id,t.command⟩ t.dependsOn) b =
      { b with
        tasks := b.tasks ++ tasks.map fun t => ⟨t.id,t.command⟩
        dependencies := b.dependencies ++
          tasks.flatMap fun t => t.dependsOn.map fun u => ⟨u,t.id⟩ } := by
  induction tasks generalizing b with
  | nil => simp
  | cons t tasks ih =>
    rw [List.foldl_cons,ih]
    simp [DagBuilder.addTaskAfter]

theorem toBuilder_eq (c : Definition) (start : Instant) (schedule : Schedule) :
    c.toBuilder start schedule =
      ⟨c.id,c.description,some start,.given schedule,c.catchup,
        c.tasks.map fun t => ⟨t.id,t.command⟩,c.edges⟩ := by
  unfold toBuilder
  simp only [addTasks]
  rfl

theorem readSchedule_ok {c : Definition} : (∃ s, c.readSchedule = .ok s) ↔
    ∀ text, c.schedule = some text → ∃ s, Schedule.parse text = .ok s := by
  unfold readSchedule
  cases c.schedule with
  | none => simp
  | some text => simp [mapError_ok]

theorem readStart_given {text : String} {i : Instant} (started : readStart text = .ok i) :
    Text.trim text.toList ≠ [] := by
  intro blank
  have none : Instant.read? text.toList = none := by
    unfold Instant.read?
    rw [blank]
    rfl
  simp [readStart,none] at started

theorem ne_empty_of_wellFormed {id : String} (wellFormed : isWellFormed id = true) : id ≠ "" := by
  rintro rfl
  simp [isWellFormed] at wellFormed

theorem build_ok {c : Definition} {d : Dag} : c.build = .ok d ↔
    ∃ start schedule, readStart c.start = .ok start ∧ c.readSchedule = .ok schedule ∧
      (c.toBuilder start schedule).build = .ok d := by
  unfold build
  simp only [bind_ok,mapError_ok]
  constructor
  · rintro ⟨start,started,schedule,scheduled,built⟩
    exact ⟨start,schedule,started,scheduled,built⟩
  · rintro ⟨start,schedule,started,scheduled,built⟩
    exact ⟨start,started,schedule,scheduled,built⟩

private theorem toBuilder_start (c : Definition) (start : Instant) (schedule : Schedule) :
    (c.toBuilder start schedule).start = some start := by rw [toBuilder_eq]

private theorem toBuilder_resolve (c : Definition) (start : Instant) (schedule : Schedule) :
    (c.toBuilder start schedule).schedule.resolve = .ok schedule := by
  rw [toBuilder_eq]
  rfl

theorem toBuilder_build_ok {c : Definition} {start : Instant} {schedule : Schedule} {d : Dag} :
    (c.toBuilder start schedule).build = .ok d ↔ isWellFormed c.id = true ∧
      (∀ t ∈ c.tasks, isWellFormed t.id = true) ∧ (c.toBuilder start schedule).Coherent ∧
      d = ⟨c.id,c.description,start,schedule,c.catchup,
        c.tasks.map fun t => ⟨t.id,t.command⟩,Edge.insertAll [] c.edges⟩ := by
  rw [DagBuilder.build_ok (toBuilder_start c start schedule) (toBuilder_resolve c start schedule)]
  simp only [toBuilder_eq,DagBuilder.result,List.forall_mem_map]

theorem builder_ids (c : Definition) (start : Instant) (schedule : Schedule) :
    (c.toBuilder start schedule).tasks.map (·.id) = c.ids := by
  simp [toBuilder_eq,ids]

theorem coherent_iff {c : Definition} {start : Instant} {schedule : Schedule} :
    (c.toBuilder start schedule).Coherent ↔ c.ids.Nodup ∧
      (∀ t ∈ c.tasks, ∀ u ∈ t.dependsOn, u ∈ c.ids) ∧ ¬ Edge.Cyclic c.edges := by
  have names := builder_ids c start schedule
  have dependencies : (c.toBuilder start schedule).dependencies = c.edges := by
    rw [toBuilder_eq]
  constructor
  · rintro ⟨distinct,known,acyclic⟩
    rw [names] at distinct known
    rw [dependencies] at known acyclic
    refine ⟨distinct,?_,acyclic⟩
    intro t inside u named
    exact (known ⟨u,t.id⟩ (mem_edges.mpr ⟨t,inside,named,rfl⟩)).1
  · rintro ⟨distinct,known,acyclic⟩
    constructor
    · rw [names]
      exact distinct
    · rw [names,dependencies]
      intro e inside
      obtain ⟨t,present,named,target⟩ := mem_edges.mp inside
      exact ⟨known t present e.source named,target ▸ List.mem_map_of_mem present⟩
    · rw [dependencies]
      exact acyclic

theorem nodup_edges {c : Definition} (distinct : c.ids.Nodup)
    (once : ∀ t ∈ c.tasks, t.dependsOn.Nodup) : c.edges.Nodup := by
  unfold edges
  rw [List.nodup_flatMap]
  constructor
  · intro t inside
    exact (once t inside).map fun u v same => (Edge.mk.inj same).1
  · refine (List.pairwise_map.mp distinct).imp ?_
    intro a b apart
    refine List.disjoint_left.mpr ?_
    intro e inA inB
    obtain ⟨u,-,rfl⟩ := List.mem_map.mp inA
    obtain ⟨v,-,same⟩ := List.mem_map.mp inB
    exact apart (Edge.mk.inj same).2.symm

theorem Accepted.coherent {c : Definition} (accepted : c.Accepted) (start : Instant)
    (schedule : Schedule) : (c.toBuilder start schedule).Coherent :=
  coherent_iff.mpr ⟨accepted.distinct,
    fun t inside u named => (accepted.others t inside u named).2,accepted.acyclic⟩

theorem Accepted.insertAll_edges {c : Definition} (accepted : c.Accepted) :
    Edge.insertAll [] c.edges = c.edges := by
  have unique := nodup_edges accepted.distinct accepted.once
  rw [Edge.insertAll_of_nodup (by simpa using unique),List.nil_append]

theorem Accepted.result {c : Definition} {d : Dag} (accepted : c.Accepted)
    (built : c.build = .ok d) :
    ∃ start schedule, readStart c.start = .ok start ∧ c.readSchedule = .ok schedule ∧
      isWellFormed c.id = true ∧ (∀ t ∈ c.tasks, isWellFormed t.id = true) ∧
      d = ⟨c.id,c.description,start,schedule,c.catchup,
        c.tasks.map fun t => ⟨t.id,t.command⟩,c.edges⟩ := by
  obtain ⟨start,schedule,started,scheduled,builtBy⟩ := build_ok.mp built
  obtain ⟨named,wellFormed,-,rfl⟩ := toBuilder_build_ok.mp builtBy
  exact ⟨start,schedule,started,scheduled,named,wellFormed,by rw [accepted.insertAll_edges]⟩

theorem Accepted.build_error {c : Definition} {e : DefinitionError} (accepted : c.Accepted)
    (failed : c.build = .error e) :
    (∃ text cause, e = .invalidSchedule text cause) ∨ e = .dag (.invalidDagId c.id) ∨
      ∃ t ∈ c.tasks, e = .dag (.invalidTaskId t.id) := by
  obtain ⟨start,started⟩ := accepted.started
  unfold build at failed
  simp only [started,bind_error,reduceCtorEq,false_or] at failed
  obtain ⟨_,same,failed⟩ := failed
  cases same
  rcases failed with unscheduled | ⟨schedule,scheduled,failed⟩
  · left
    unfold readSchedule at unscheduled
    cases given : c.schedule with
    | none => simp [given] at unscheduled
    | some text =>
      simp only [given,mapError_error] at unscheduled
      obtain ⟨cause,-,rfl⟩ := unscheduled
      exact ⟨text,cause,rfl⟩
  · right
    obtain ⟨cause,refused,rfl⟩ := mapError_error.mp failed
    have faults := DagBuilder.build_error (toBuilder_start c start schedule)
      (toBuilder_resolve c start schedule) (accepted.coherent start schedule) refused
    rw [toBuilder_eq] at faults
    rcases faults with rfl | ⟨_,inside,rfl⟩
    · exact .inl rfl
    · obtain ⟨t,present,rfl⟩ := List.mem_map.mp inside
      exact .inr ⟨t,present,rfl⟩

/-- A definition passes the checks, its names are well formed and its schedule can be read, if and
only if its DAG can be built, it has a task, and no task names a dependency twice. For what passes
the checks, building fails for the schedule or a name only; otherwise the DAG has the tasks of the
definition in their order, and one edge for each dependency in their order. -/
theorem validate_iff_build (c : Definition) :
    ((c.validate = .ok () ∧ isWellFormed c.id = true ∧
        (∀ t ∈ c.tasks, isWellFormed t.id = true) ∧
        ∀ text, c.schedule = some text → ∃ s, Schedule.parse text = .ok s) ↔
      (∃ d, c.build = .ok d) ∧ c.tasks ≠ [] ∧ ∀ t ∈ c.tasks, t.dependsOn.Nodup) ∧
    (c.validate = .ok () → ∀ e, c.build = .error e →
      (∃ text cause, e = .invalidSchedule text cause) ∨ e = .dag (.invalidDagId c.id) ∨
        ∃ t ∈ c.tasks, e = .dag (.invalidTaskId t.id)) ∧
    (c.validate = .ok () → ∀ d, c.build = .ok d →
      d.tasks = c.tasks.map (fun t => ⟨t.id,t.command⟩) ∧
      d.edges = c.tasks.flatMap fun t => t.dependsOn.map fun u => ⟨u,t.id⟩) := by
  rw [validate_ok,← readSchedule_ok]
  refine ⟨⟨?_,?_⟩,?_,?_⟩
  · rintro ⟨accepted,named,wellFormed,schedule,scheduled⟩
    obtain ⟨start,started⟩ := accepted.started
    have built := toBuilder_build_ok.mpr
      ⟨named,wellFormed,accepted.coherent start schedule,rfl⟩
    exact ⟨⟨_,build_ok.mpr ⟨start,schedule,started,scheduled,built⟩⟩,accepted.nonempty,
      accepted.once⟩
  · rintro ⟨⟨d,built⟩,nonempty,once⟩
    obtain ⟨start,schedule,started,scheduled,builtBy⟩ := build_ok.mp built
    obtain ⟨named,wellFormed,coherent,-⟩ := toBuilder_build_ok.mp builtBy
    obtain ⟨distinct,known,acyclic⟩ := coherent_iff.mp coherent
    refine ⟨⟨ne_empty_of_wellFormed named,readStart_given started,⟨start,started⟩,nonempty,
      distinct,?_,once,acyclic⟩,named,wellFormed,schedule,scheduled⟩
    intro t inside u dependency
    refine ⟨?_,known t inside u dependency⟩
    rintro rfl
    exact acyclic ⟨t.id,.single (mem_edges.mpr ⟨t,inside,dependency,rfl⟩)⟩
  · intro accepted e failed
    exact accepted.build_error failed
  · intro accepted d built
    obtain ⟨_,_,_,_,_,_,rfl⟩ := accepted.result built
    exact ⟨rfl,rfl⟩

end PipelineAtlas.Definition

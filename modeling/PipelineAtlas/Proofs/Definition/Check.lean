import PipelineAtlas.Definition.Check
import PipelineAtlas.Proofs.Fallible
import PipelineAtlas.Proofs.Sweep.Outcome

/-! The definitions that the checks accept. -/
namespace PipelineAtlas.Definition

open Fallible

theorem firstRepeated_eq_none {seen ids : List String} :
    firstRepeated seen ids = none ↔ ids.Nodup ∧ ∀ id ∈ ids, id ∉ seen := by
  induction ids generalizing seen with
  | nil => simp [firstRepeated]
  | cons id rest ih =>
    unfold firstRepeated
    by_cases again : id ∈ seen
    · simp [again]
    · rw [if_neg (by simpa using again),ih,List.nodup_cons]
      simp only [List.mem_cons,forall_eq_or_imp,not_or]
      constructor
      · rintro ⟨unique,fresh⟩
        exact ⟨⟨fun later => (fresh id later).1 rfl,unique⟩,again,
          fun x later => (fresh x later).2⟩
      · rintro ⟨⟨apart,unique⟩,-,fresh⟩
        refine ⟨unique,fun x later => ⟨?_,fresh x later⟩⟩
        rintro rfl
        exact apart later

theorem checkDistinct_ok {c : Definition} : c.checkDistinct = .ok () ↔ c.ids.Nodup := by
  have none : firstRepeated [] c.ids = none ↔ _ := firstRepeated_eq_none
  unfold checkDistinct
  cases found : firstRepeated [] c.ids <;> simp_all

theorem checkDependency_ok {ids seen next : List String} {task dependency : String} :
    checkDependency ids task seen dependency = .ok next ↔
      dependency ≠ task ∧ dependency ∈ ids ∧ dependency ∉ seen ∧ next = dependency :: seen := by
  unfold checkDependency
  by_cases self : dependency = task
  · simp [self]
  · by_cases known : dependency ∈ ids <;> by_cases again : dependency ∈ seen <;>
      simp [self,known,again,eq_comm]

theorem checkEntries_ok {ids seen next : List String} {task : String} {entries : List String} :
    entries.foldlM (checkDependency ids task) seen = .ok next ↔
      (∀ u ∈ entries, u ≠ task ∧ u ∈ ids ∧ u ∉ seen) ∧ entries.Nodup ∧
        next = entries.reverse ++ seen := by
  induction entries generalizing seen with
  | nil => simp [pure,Except.pure,eq_comm]
  | cons u entries ih =>
    rw [List.foldlM_cons,bind_ok]
    simp only [checkDependency_ok,List.mem_cons,forall_eq_or_imp,List.nodup_cons,
      List.reverse_cons,List.append_assoc,List.singleton_append]
    constructor
    · rintro ⟨_,⟨other,known,fresh,rfl⟩,rest⟩
      obtain ⟨entriesOk,unique,rfl⟩ := ih.mp rest
      refine ⟨⟨⟨other,known,fresh⟩,?_⟩,⟨?_,unique⟩,rfl⟩
      · intro x later
        obtain ⟨xOther,xKnown,xFresh⟩ := entriesOk x later
        exact ⟨xOther,xKnown,fun old => xFresh (by simp [old])⟩
      · intro later
        exact (entriesOk u later).2.2 (by simp)
    · rintro ⟨⟨⟨other,known,fresh⟩,entriesOk⟩,⟨apart,unique⟩,rfl⟩
      refine ⟨_,⟨other,known,fresh,rfl⟩,ih.mpr ⟨?_,unique,rfl⟩⟩
      intro x later
      obtain ⟨xOther,xKnown,xFresh⟩ := entriesOk x later
      refine ⟨xOther,xKnown,?_⟩
      rintro (_ | ⟨_,old⟩)
      · exact apart later
      · exact xFresh old

theorem checkDependencies_ok {c : Definition} : c.checkDependencies = .ok () ↔
    ∀ t ∈ c.tasks, (∀ u ∈ t.dependsOn, u ≠ t.id ∧ u ∈ c.ids) ∧ t.dependsOn.Nodup := by
  unfold checkDependencies
  rw [forM_ok]
  apply forall₂_congr
  intro t _
  rw [bind_ok]
  simp [checkEntries_ok,pure,Except.pure]

theorem mem_edges {c : Definition} {e : Edge} :
    e ∈ c.edges ↔ ∃ t ∈ c.tasks, e.source ∈ t.dependsOn ∧ e.target = t.id := by
  simp only [edges,List.mem_flatMap,List.mem_map]
  constructor
  · rintro ⟨t,inside,u,named,rfl⟩
    exact ⟨t,inside,named,rfl⟩
  · rintro ⟨t,inside,named,target⟩
    exact ⟨t,inside,e.source,named,by rw [← target]⟩

private theorem countP_edges {tasks : List TaskDefinition} (unique : (tasks.map (·.id)).Nodup)
    (t : TaskDefinition) (member : t ∈ tasks) :
    (tasks.flatMap fun t => t.dependsOn.map fun u => (⟨u,t.id⟩ : Edge)).countP
      (fun e => e.target == t.id) = t.dependsOn.length := by
  induction tasks with
  | nil => cases member
  | cons first rest ih =>
    simp only [List.map_cons,List.nodup_cons] at unique
    rw [List.flatMap_cons,List.countP_append]
    rcases List.mem_cons.mp member with rfl | later
    · have others : (rest.flatMap fun t => t.dependsOn.map fun u => (⟨u,t.id⟩ : Edge)).countP
          (fun e => e.target == t.id) = 0 := by
        rw [List.countP_eq_zero]
        intro e inside into
        obtain ⟨x,present,u,-,rfl⟩ := by simpa using inside
        exact unique.1 (List.mem_map.mpr ⟨x,present,by simpa using into⟩)
      simp [others,List.countP_map]
    · have apart : first.id ≠ t.id := by
        intro same
        exact unique.1 (same ▸ List.mem_map_of_mem later)
      have own : (first.dependsOn.map fun u => (⟨u,first.id⟩ : Edge)).countP
          (fun e => e.target == t.id) = 0 := by
        simp [List.countP_eq_zero,apart]
      rw [own,ih unique.2 later,Nat.zero_add]

/-- The count of a task is the number of edges into it. -/
theorem count_waiting {c : Definition} (unique : c.ids.Nodup) :
    ∀ id ∈ c.ids, c.waiting.count id = c.edges.countP (·.target == id) := by
  intro id member
  obtain ⟨t,inside,rfl⟩ := List.mem_map.mp member
  have named := Waiting.count_map c.tasks (·.id) (·.dependsOn.length) unique t inside
  exact named.trans (countP_edges unique t inside).symm

theorem target_mem_ids {c : Definition} : ∀ e ∈ c.edges, e.target ∈ c.ids := by
  intro e inside
  obtain ⟨t,present,-,target⟩ := mem_edges.mp inside
  exact target ▸ List.mem_map_of_mem present

theorem finished {c : Definition} (unique : c.ids.Nodup) :
    Sweep.Finished c.ids c.edges c.sweep := by
  have size : c.ids.length = c.tasks.length := by simp [ids]
  unfold sweep
  rw [← size]
  exact Sweep.Finished.of_run unique c.waiting (count_waiting unique) target_mem_ids

theorem checkAcyclic_ok {c : Definition} (unique : c.ids.Nodup)
    (known : ∀ t ∈ c.tasks, ∀ u ∈ t.dependsOn, u ∈ c.ids) :
    c.checkAcyclic = .ok () ↔ ¬ Edge.Cyclic c.edges := by
  have size : c.ids.length = c.tasks.length := by simp [ids]
  have closed : ∀ e ∈ c.edges, e.source ∈ c.ids ∧ e.target ∈ c.ids := by
    intro e inside
    obtain ⟨t,present,named,target⟩ := mem_edges.mp inside
    exact ⟨known t present e.source named,target ▸ List.mem_map_of_mem present⟩
  rw [← (finished unique).blocked_iff closed,← (finished unique).length_iff,size]
  unfold checkAcyclic
  split <;> simp_all

theorem checkFields_ok {c : Definition} : c.checkFields = .ok () ↔
    c.id ≠ "" ∧ Text.trim c.start.toList ≠ [] ∧ (∃ i, readStart c.start = .ok i) ∧
      c.tasks ≠ [] := by
  unfold checkFields
  by_cases named : c.id = ""
  · simp [named]
  · by_cases given : Text.trim c.start.toList = []
    · simp [named,given]
    · simp only [String.isEmpty_iff,named,List.isEmpty_iff,given,if_false,bind_ok,ne_eq,
        not_false_eq_true,true_and]
      by_cases none : c.tasks = [] <;> simp [none]

/-- What a definition must be to pass all checks. -/
structure Accepted (c : Definition) : Prop where
  named : c.id ≠ ""
  given : Text.trim c.start.toList ≠ []
  started : ∃ i, readStart c.start = .ok i
  nonempty : c.tasks ≠ []
  distinct : c.ids.Nodup
  others : ∀ t ∈ c.tasks, ∀ u ∈ t.dependsOn, u ≠ t.id ∧ u ∈ c.ids
  once : ∀ t ∈ c.tasks, t.dependsOn.Nodup
  acyclic : ¬ Edge.Cyclic c.edges

theorem validate_ok {c : Definition} : c.validate = .ok () ↔ c.Accepted := by
  unfold validate
  simp only [andThen_ok,checkFields_ok,checkDistinct_ok,checkDependencies_ok]
  constructor
  · rintro ⟨⟨named,given,started,nonempty⟩,distinct,entries,acyclic⟩
    have known : ∀ t ∈ c.tasks, ∀ u ∈ t.dependsOn, u ∈ c.ids :=
      fun t inside u named => ((entries t inside).1 u named).2
    exact ⟨named,given,started,nonempty,distinct,fun t inside => (entries t inside).1,
      fun t inside => (entries t inside).2,(checkAcyclic_ok distinct known).mp acyclic⟩
  · intro accepted
    have known : ∀ t ∈ c.tasks, ∀ u ∈ t.dependsOn, u ∈ c.ids :=
      fun t inside u named => (accepted.others t inside u named).2
    exact ⟨⟨accepted.named,accepted.given,accepted.started,accepted.nonempty⟩,
      accepted.distinct,fun t inside => ⟨accepted.others t inside,accepted.once t inside⟩,
      (checkAcyclic_ok accepted.distinct known).mpr accepted.acyclic⟩

end PipelineAtlas.Definition

import PipelineAtlas.Dag.Builder
import PipelineAtlas.Proofs.Dag.TopologicalOrder
import PipelineAtlas.Proofs.Fallible

/-! When a builder succeeds, the DAG that it builds, and valid DAGs: those whose tasks and edges fit
together and that have an execution order. -/
namespace PipelineAtlas

namespace Edge

def insertAll (edges more : List Edge) : List Edge := more.foldl insert edges

theorem mem_insertAll {edges more : List Edge} {e : Edge} :
    e ∈ insertAll edges more ↔ e ∈ edges ∨ e ∈ more := by
  unfold insertAll
  induction more generalizing edges with
  | nil => simp
  | cons first more ih =>
    rw [List.foldl_cons,ih,mem_insert,List.mem_cons]
    tauto

theorem nodup_insertAll {edges more : List Edge} (unique : edges.Nodup) :
    (insertAll edges more).Nodup := by
  unfold insertAll
  induction more generalizing edges with
  | nil => exact unique
  | cons first more ih => exact ih (nodup_insert unique)

theorem insertAll_of_nodup {edges more : List Edge} (unique : (edges ++ more).Nodup) :
    insertAll edges more = edges ++ more := by
  unfold insertAll
  induction more generalizing edges with
  | nil => simp
  | cons first more ih =>
    have fresh : first ∉ edges := by
      intro again
      exact (List.nodup_append.mp unique).2.2 first again first (by simp) rfl
    rw [List.foldl_cons,insert_of_notMem fresh,ih (by simpa using unique)]
    simp

theorem leads_congr {edges others : List Edge} (same : ∀ e, e ∈ edges ↔ e ∈ others) :
    Leads edges = Leads others := by
  funext a b
  exact propext (same _)

theorem cyclic_congr {edges others : List Edge} (same : ∀ e, e ∈ edges ↔ e ∈ others) :
    Cyclic edges ↔ Cyclic others := by
  rw [Cyclic,Cyclic,leads_congr same]

theorem trapped_congr {edges others : List Edge} (same : ∀ e, e ∈ edges ↔ e ∈ others)
    (id : String) : Trapped edges id ↔ Trapped others id := by
  rw [Trapped,Trapped,leads_congr same]

end Edge

namespace DagBuilder

open Dag Fallible

theorem register_cons (d : Dag) (t : Task) (tasks : List Task) :
    register d (t :: tasks) = ((d.addTask t).map (·.1) >>= fun d => register d tasks) := rfl

theorem register_ok {d d' : Dag} {tasks : List Task} (distinct : d.ids.Nodup) :
    register d tasks = .ok d' ↔ (∀ t ∈ tasks, isWellFormed t.id = true) ∧
      (d.ids ++ tasks.map (·.id)).Nodup ∧ d' = { d with tasks := d.tasks ++ tasks } := by
  induction tasks generalizing d with
  | nil =>
    have same : register d [] = .ok d := rfl
    rw [same,Except.ok.injEq]
    constructor
    · rintro rfl
      exact ⟨by simp,by simpa using distinct,by simp⟩
    · rintro ⟨-,-,rfl⟩
      simp
  | cons t tasks ih =>
    rw [register_cons,bind_ok]
    simp only [map_ok,Prod.exists,addTask_ok]
    constructor
    · rintro ⟨_,⟨d₁,h,⟨wellFormed,fresh,rfl,-⟩,rfl⟩,rest⟩
      have ids : Dag.ids { d with tasks := d.tasks ++ [t] } = d.ids ++ [t.id] := by
        simp [Dag.ids]
      have longer : (d.ids ++ [t.id]).Nodup :=
        distinct.append (by simp) (by simpa using fresh)
      obtain ⟨allWellFormed,unique,rfl⟩ := (ih (by rw [ids]; exact longer)).mp rest
      rw [ids] at unique
      refine ⟨?_,by simpa using unique,by simp⟩
      intro x member
      rcases List.mem_cons.mp member with rfl | later
      · exact wellFormed
      · exact allWellFormed x later
    · rintro ⟨allWellFormed,unique,rfl⟩
      have ids : Dag.ids { d with tasks := d.tasks ++ [t] } = d.ids ++ [t.id] := by
        simp [Dag.ids]
      have fresh : t.id ∉ d.ids := by
        intro again
        exact (List.nodup_append.mp unique).2.2 t.id again t.id (by simp) rfl
      have regrouped : (d.ids ++ [t.id] ++ tasks.map (·.id)).Nodup := by simpa using unique
      refine ⟨_,⟨_,_,⟨allWellFormed t (by simp),fresh,rfl,rfl⟩,rfl⟩,?_⟩
      rw [ih (by rw [ids]; exact (List.nodup_append.mp regrouped).1),ids]
      exact ⟨fun x member => allWellFormed x (by simp [member]),regrouped,by simp⟩

theorem link_ok {d d' : Dag} {e : Edge} :
    link d e = .ok d' ↔ (e.source ∈ d.ids ∧ e.target ∈ d.ids) ∧
      d' = { d with edges := Edge.insert d.edges e } := by
  unfold link
  by_cases target : e.target ∈ d.ids
  · by_cases source : e.source ∈ d.ids
    · simp [handle?_of_mem target,handle?_of_mem source,Dag.link_ok,checkHandle_ok,target,source]
    · simp [handle?_of_mem target,handle?_of_notMem source,source]
  · simp [handle?_of_notMem target,target]

theorem linkAll_ok {d d' : Dag} {edges : List Edge} :
    edges.foldlM link d = .ok d' ↔ (∀ e ∈ edges, e.source ∈ d.ids ∧ e.target ∈ d.ids) ∧
      d' = { d with edges := Edge.insertAll d.edges edges } := by
  induction edges generalizing d with
  | nil => simp [pure,Except.pure,Edge.insertAll,eq_comm]
  | cons e edges ih =>
    rw [List.foldlM_cons,bind_ok]
    simp only [link_ok,List.mem_cons,forall_eq_or_imp]
    constructor
    · rintro ⟨_,⟨ends,rfl⟩,rest⟩
      obtain ⟨others,rfl⟩ := ih.mp rest
      exact ⟨⟨ends,others⟩,rfl⟩
    · rintro ⟨⟨ends,others⟩,rfl⟩
      exact ⟨_,⟨ends,rfl⟩,ih.mpr ⟨others,rfl⟩⟩

def result (b : DagBuilder) (start : Instant) (schedule : Schedule) : Dag :=
  ⟨b.id,b.description,start,schedule,b.catchup,b.tasks,Edge.insertAll [] b.dependencies⟩

/-- Tasks and dependencies that fit together. -/
structure Coherent (b : DagBuilder) : Prop where
  distinct : (b.tasks.map (·.id)).Nodup
  known : ∀ e ∈ b.dependencies, e.source ∈ b.tasks.map (·.id) ∧ e.target ∈ b.tasks.map (·.id)
  acyclic : ¬ Edge.Cyclic b.dependencies

theorem result_consistent {b : DagBuilder} {start : Instant} {schedule : Schedule}
    (named : isWellFormed b.id = true) (wellFormed : ∀ t ∈ b.tasks, isWellFormed t.id = true)
    (distinct : (b.tasks.map (·.id)).Nodup)
    (known : ∀ e ∈ b.dependencies,
      e.source ∈ b.tasks.map (·.id) ∧ e.target ∈ b.tasks.map (·.id)) :
    Consistent (b.result start schedule) where
  named := named
  distinct := distinct
  wellFormed := by
    intro id member
    obtain ⟨t,inside,rfl⟩ := List.mem_map.mp member
    exact wellFormed t inside
  unique := Edge.nodup_insertAll List.nodup_nil
  closed := by
    intro e inside
    rcases Edge.mem_insertAll.mp inside with none | given
    · simp at none
    · exact known e given

theorem build_ok {b : DagBuilder} {start : Instant} {schedule : Schedule} {d : Dag}
    (started : b.start = some start) (resolved : b.schedule.resolve = .ok schedule) :
    b.build = .ok d ↔ isWellFormed b.id = true ∧ (∀ t ∈ b.tasks, isWellFormed t.id = true) ∧
      b.Coherent ∧ d = b.result start schedule := by
  have same : ∀ e, e ∈ Edge.insertAll [] b.dependencies ↔ e ∈ b.dependencies := by
    intro e
    simp [Edge.mem_insertAll]
  unfold build
  simp only [started,resolved,mapError_of_ok,bind_ok,new_ok]
  constructor
  · rintro ⟨_,scheduled,_,⟨named,rfl⟩,_,registered,_,linked,_,validated,last⟩
    cases scheduled
    obtain ⟨wellFormed,distinct,rfl⟩ := (register_ok (by simp [Dag.ids])).mp registered
    obtain ⟨known,rfl⟩ := linkAll_ok.mp linked
    simp only [pure,Except.pure,Except.ok.injEq] at last
    simp only [Dag.ids,List.map_nil,List.nil_append] at distinct known
    have consistent : Consistent (b.result start schedule) :=
      result_consistent named wellFormed distinct known
    have acyclic := consistent.validate_ok.mp validated
    exact ⟨named,wellFormed,⟨distinct,known,(Edge.cyclic_congr same).not.mp acyclic⟩,last.symm⟩
  · rintro ⟨named,wellFormed,coherent,rfl⟩
    have consistent : Consistent (b.result start schedule) :=
      result_consistent named wellFormed coherent.distinct coherent.known
    refine ⟨_,rfl,_,⟨named,rfl⟩,_,(register_ok (by simp [Dag.ids])).mpr
      ⟨wellFormed,by simpa [Dag.ids] using coherent.distinct,rfl⟩,_,linkAll_ok.mpr
      ⟨by simpa [Dag.ids] using coherent.known,rfl⟩,(),?_,rfl⟩
    exact consistent.validate_ok.mpr ((Edge.cyclic_congr same).not.mpr coherent.acyclic)

theorem validate_of_build {b : DagBuilder} {d : Dag} (built : b.build = .ok d) :
    d.validate = .ok () := by
  unfold build at built
  cases started : b.start with
  | none => simp [started] at built
  | some start =>
    simp only [started,bind_ok] at built
    obtain ⟨_,-,_,-,_,-,_,-,_,validated,last⟩ := built
    simp only [pure,Except.pure,Except.ok.injEq] at last
    rw [← last]
    exact validated

end DagBuilder

namespace Dag

structure Valid (d : Dag) : Prop where
  consistent : Consistent d
  acyclic : ¬ Edge.Cyclic d.edges

variable {d : Dag}

theorem Consistent.valid (consistent : Consistent d) (validated : d.validate = .ok ()) : Valid d :=
  ⟨consistent,consistent.validate_ok.mp validated⟩

/-- A valid DAG has an order in which each task comes once and behind those that it waits for. -/
theorem Valid.exists_order (valid : Valid d) : ∃ order, d.topologicalSort = .ok order ∧
    order.Perm d.ids ∧ Edge.Respected d.edges order := by
  have finished := valid.consistent.finished
  have closed := valid.consistent.closed
  have free := (finished.blocked_iff closed).mpr valid.acyclic
  exact ⟨_,valid.consistent.sort_ok free,finished.perm_iff.mpr free,
    finished.respected (fun e inside => (closed e inside).2) free⟩

theorem Valid.exists_sorted (valid : Valid d) : ∃ sorted : List Task,
    d.topologicalSort = .ok (sorted.map (·.id)) ∧ sorted.Perm d.tasks ∧
      Edge.Respected d.edges (sorted.map (·.id)) := by
  obtain ⟨order,found,perm,respected⟩ := valid.exists_order
  have arranged : Relation.Comp (· = List.map Task.id ·) List.Perm order d.tasks := by
    rw [List.eq_map_comp_perm]
    exact perm
  obtain ⟨sorted,rfl,same⟩ := arranged
  exact ⟨sorted,found,same,respected⟩

theorem Consistent.task?_eq (consistent : Consistent d) {t : Task} (member : t ∈ d.tasks) :
    d.task? t.id = some t := by
  cases found : d.task? t.id with
  | none => simpa using List.find?_eq_none.mp found t member
  | some other =>
    have named : other.id = t.id := by simpa using List.find?_some found
    rw [List.inj_on_of_nodup_map consistent.distinct (List.mem_of_find?_eq_some found) member named]

end Dag

end PipelineAtlas

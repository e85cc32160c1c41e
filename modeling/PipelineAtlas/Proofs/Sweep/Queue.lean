import PipelineAtlas.Proofs.Edge.Service
import PipelineAtlas.Proofs.Sweep.Outcome

/-! The queue of a sweep. What waits for nothing stands in it first, as declared. Behind that come
the tasks as they are released: those released by one task in the order of its edges, and those
released by different tasks in the order in which these were emitted. -/
namespace PipelineAtlas

namespace Edge

theorem countP_open_eq_zero (edges : List Edge) (done : List String) (id : String) :
    edges.countP (open? done id) = 0 ↔ ∀ other ∈ predecessors edges id, other ∈ done := by
  simp only [List.countP_eq_zero,open?,Bool.and_eq_true,beq_iff_eq,Bool.not_eq_true',
    List.contains_eq_mem,decide_eq_false_iff_not,not_and,Decidable.not_not,mem_predecessors]
  constructor
  · intro shut other edge
    exact shut ⟨other,id⟩ edge rfl
  · rintro shut e inside rfl
    exact shut e.source inside

end Edge

namespace Sweep

/-- The tasks that a task releases when it is emitted behind others. -/
def freed (edges : List Edge) (done : List String) (id : String) : List String :=
  (Edge.successors edges id).filter fun target =>
    (Edge.predecessors edges target).all fun other => (id :: done).contains other

/-- What has been released when some tasks have been emitted, last first. -/
def released (edges : List Edge) : List String → List String
  | [] => []
  | id :: done => released edges done ++ freed edges done id

def free (ids : List String) (edges : List Edge) : List String :=
  ids.filter fun id => (Edge.predecessors edges id).isEmpty

/-- All that was ever ready stands in the order in which it became ready. -/
def Queued (ids : List String) (edges : List Edge) (s : Sweep) : Prop :=
  s.order ++ s.ready = free ids edges ++ released edges s.emitted

variable {ids : List String} {edges others : List Edge} {s : Sweep}

theorem mem_freed {done : List String} {id target : String} :
    target ∈ freed edges done id ↔ Edge.Leads edges id target ∧
      ∀ other, Edge.Leads edges other target → other = id ∨ other ∈ done := by
  simp [freed,Edge.mem_successors,Edge.mem_predecessors,Edge.Leads]

theorem ready_releaseAll {pending : List String} (unique : pending.Nodup) (s : Sweep) :
    (pending.foldl release s).ready =
      s.ready ++ pending.filter fun id => s.waiting.count id - 1 = 0 := by
  induction pending generalizing s with
  | nil => simp
  | cons id pending ih =>
    obtain ⟨fresh,unique⟩ := List.nodup_cons.mp unique
    have waiting : (s.release id).waiting = s.waiting.release id := rfl
    have ready : (s.release id).ready =
        if s.waiting.count id - 1 = 0 then s.ready ++ [id] else s.ready := by
      simp [release,Waiting.count_release]
    have same : ∀ x ∈ pending, (s.release id).waiting.count x = s.waiting.count x := by
      intro x member
      rw [waiting,Waiting.count_release,if_neg fun again : x = id => fresh (again ▸ member)]
    have rest : (pending.filter fun x => (s.release id).waiting.count x - 1 = 0) =
        pending.filter fun x => s.waiting.count x - 1 = 0 :=
      List.filter_congr fun x member => by rw [same x member]
    rw [List.foldl_cons,ih unique (s.release id),ready,rest,List.filter_cons]
    by_cases zero : s.waiting.count id - 1 = 0 <;> simp [zero]

theorem queued_ofWaiting (waiting : Waiting)
    (counts : ∀ id ∈ ids, waiting.count id = edges.countP (·.target == id)) :
    Queued ids edges (ofWaiting ids waiting) := by
  have none : ∀ id ∈ ids, (waiting.count id == 0) = (Edge.predecessors edges id).isEmpty := by
    intro id member
    rw [counts id member,Edge.predecessors_isEmpty,Bool.eq_iff_iff]
    simp [List.countP_eq_zero]
  simpa [Queued,ofWaiting,order,released,free] using List.filter_congr none

/-- Each successor of the task emitted last has one count for it, so those without another count are
the ones that it releases. -/
theorem Sound.filter_successors {done : List String} {id : String}
    (sound : Sound ids edges (Edge.successors edges id) s) (emitted : s.emitted = id :: done)
    (unique : edges.Nodup) (closed : ∀ e ∈ edges, e.target ∈ ids) :
    ((Edge.successors edges id).filter fun target => s.waiting.count target - 1 = 0) =
      freed edges done id := by
  apply List.filter_congr
  intro target member
  have counted := sound.counted target (closed _ (Edge.mem_successors.mp member))
  rw [List.count_eq_one_of_mem (Edge.nodup_successors unique id) member,emitted] at counted
  have shut := Edge.countP_open_eq_zero edges (id :: done) target
  rw [Bool.eq_iff_iff]
  simp only [decide_eq_true_eq,List.all_eq_true,List.contains_eq_mem,← shut]
  omega

theorem Queued.step (queued : Queued ids edges s) (sound : Sound ids edges [] s)
    (unique : edges.Nodup) (closed : ∀ e ∈ edges, e.target ∈ ids) :
    Queued ids edges (s.step edges) := by
  unfold Sweep.step
  cases next : s.ready with
  | nil => exact queued
  | cons id ready =>
    have freedNow := (sound.emit next).filter_successors rfl unique closed
    simp only [Queued,order,next] at queued ⊢
    rw [releaseAll_emitted,ready_releaseAll (Edge.nodup_successors unique id),freedNow]
    calc (id :: s.emitted).reverse ++ (ready ++ freed edges s.emitted id)
        = (s.emitted.reverse ++ id :: ready) ++ freed edges s.emitted id := by simp
      _ = (free ids edges ++ released edges s.emitted) ++ freed edges s.emitted id := by
        rw [queued]
      _ = free ids edges ++ released edges (id :: s.emitted) := List.append_assoc ..

theorem Queued.run (queued : Queued ids edges s) (sound : Sound ids edges [] s)
    (unique : edges.Nodup) (closed : ∀ e ∈ edges, e.target ∈ ids) (n : Nat) :
    Queued ids edges (Sweep.run edges n s) := by
  induction n generalizing s with
  | zero => exact queued
  | succ n ih => exact ih (queued.step sound unique closed) (sound.step closed).1

theorem releases_of_freed {done : List String} {id target : String}
    (member : target ∈ freed edges done id) :
    Edge.Releases edges (id :: done).reverse id target := by
  obtain ⟨leads,others⟩ := mem_freed.mp member
  refine ⟨leads,fun other edge => (others other edge).imp_right fun earlier => ?_⟩
  exact ⟨done.reverse,[],by simp,by simpa using earlier⟩

theorem releases_of_released {done : List String} {target : String}
    (member : target ∈ released edges done) :
    ∃ last ∈ done, Edge.Releases edges done.reverse last target := by
  induction done with
  | nil => cases member
  | cons id done ih =>
    rcases List.mem_append.mp member with earlier | now
    · obtain ⟨last,inside,releases⟩ := ih earlier
      exact ⟨last,by simp [inside],by simpa using releases.append [id]⟩
    · exact ⟨id,by simp,releases_of_freed now⟩

theorem pairwise_freed (done : List String) (id : String) :
    (freed edges done id).Pairwise (Edge.ServedBefore ids edges (id :: done).reverse) := by
  have inOrder : (freed edges done id).Pairwise (Edge.Precedes (Edge.successors edges id)) :=
    (Edge.pairwise_precedes _).filter _
  exact inOrder.imp_of_mem fun first second before =>
    .together (releases_of_freed first) (releases_of_freed second) before

theorem pairwise_released (done : List String) :
    (released edges done).Pairwise (Edge.ServedBefore ids edges done.reverse) := by
  induction done with
  | nil => exact .nil
  | cons id done ih =>
    refine List.pairwise_append.mpr ⟨?_,pairwise_freed done id,fun a earlier b now => ?_⟩
    · exact ih.imp fun served => by simpa using served.append [id]
    · obtain ⟨last,inside,releases⟩ := releases_of_released earlier
      have before : Edge.Precedes (id :: done).reverse last id :=
        ⟨done.reverse,[],by simp,by simpa using inside⟩
      exact .sooner (by simpa using releases.append [id]) (releases_of_freed now) before

theorem mem_free {id : String} :
    id ∈ free ids edges ↔ id ∈ ids ∧ Edge.predecessors edges id = [] := by
  simp [free]

theorem pairwise_free : (free ids edges).Pairwise (Edge.ServedBefore ids edges s.order) := by
  have inOrder : (free ids edges).Pairwise (Edge.Precedes ids) :=
    (Edge.pairwise_precedes ids).filter _
  exact inOrder.imp_of_mem fun first second before =>
    .declared (mem_free.mp first).2 (mem_free.mp second).2 before

/-- All that was ever ready is served in the order in which it became ready. -/
theorem Queued.pairwise (queued : Queued ids edges s) :
    (s.order ++ s.ready).Pairwise (Edge.ServedBefore ids edges s.order) := by
  rw [queued]
  refine List.pairwise_append.mpr
    ⟨pairwise_free,pairwise_released s.emitted,fun a first b later => ?_⟩
  obtain ⟨last,-,releases⟩ := releases_of_released later
  exact .free (mem_free.mp first).2 releases.predecessors_ne_nil

theorem step_congr (same : ∀ id, Edge.successors edges id = Edge.successors others id) (s : Sweep) :
    s.step edges = s.step others := by
  simp only [step,same]

theorem run_congr (same : ∀ id, Edge.successors edges id = Edge.successors others id) (n : Nat)
    (s : Sweep) : run edges n s = run others n s := by
  induction n generalizing s with
  | zero => rfl
  | succ n ih => rw [run,run,step_congr same,ih]

/-- A sweep sees no more of the edges than the successors of each task, in their order. -/
theorem complete_congr (unique : edges.Nodup) (uniqueToo : others.Nodup)
    (same : ∀ id, Edge.successors edges id = Edge.successors others id) (ids : List String) :
    complete ids edges = complete ids others := by
  have perm : edges.Perm others := by
    refine (List.perm_ext_iff_of_nodup unique uniqueToo).mpr fun e => ?_
    rw [← Edge.mem_successors (a := e.source) (b := e.target),same,Edge.mem_successors]
  have start : start ids edges = start ids others := by
    have counts : Waiting.start ids edges = Waiting.start ids others :=
      List.map_congr_left fun id _ => by rw [perm.countP_eq]
    rw [Sweep.start,Sweep.start,counts]
  rw [complete,complete,start,run_congr same]

end Sweep

end PipelineAtlas

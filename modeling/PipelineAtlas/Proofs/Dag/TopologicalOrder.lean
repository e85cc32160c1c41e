import PipelineAtlas.Proofs.Dag.Operation
import PipelineAtlas.Proofs.Sweep.Outcome

/-! The execution order of a DAG. Whatever operations led to the DAG, there is an order unless its
edges have a cycle, and a cycle is the only fault that is ever found. -/
namespace PipelineAtlas

namespace Sweep

def complete? (ids : List String) (edges : List Edge) : Option Sweep :=
  run? edges ids.length (start ids edges)

end Sweep

namespace Waiting

theorem count_start {ids : List String} (edges : List Edge) (unique : ids.Nodup) (id : String)
    (member : id ∈ ids) : (start ids edges).count id = edges.countP (·.target == id) :=
  count_map ids (fun x => x) (fun x => edges.countP fun e : Edge => e.target == x)
    (by simpa using unique) id member

end Waiting

namespace Dag

theorem Consistent.finished {d : Dag} (consistent : Consistent d) :
    Sweep.Finished d.ids d.edges (Sweep.complete d.ids d.edges) :=
  Sweep.Finished.of_run consistent.distinct _
    (fun id member => Waiting.count_start d.edges consistent.distinct id member)
    (fun e inside => (consistent.closed e inside).2)

theorem Consistent.sort_ok {d : Dag} (consistent : Consistent d)
    (free : (Sweep.complete d.ids d.edges).blocked d.ids = []) :
    d.topologicalSort = .ok (Sweep.complete d.ids d.edges).order := by
  have closed := (danglingEnd?_eq_none d).mpr consistent.closed
  simp only [topologicalSort,closed,free]

theorem Consistent.sort_error {d : Dag} {id : String} {rest : List String}
    (consistent : Consistent d)
    (stuck : (Sweep.complete d.ids d.edges).blocked d.ids = id :: rest) :
    d.topologicalSort = .error (.cycleDetected id) := by
  have closed := (danglingEnd?_eq_none d).mpr consistent.closed
  simp only [topologicalSort,closed,stuck]

theorem Consistent.validate_ok {d : Dag} (consistent : Consistent d) :
    d.validate = .ok () ↔ ¬ Edge.Cyclic d.edges := by
  rw [← consistent.finished.blocked_iff consistent.closed]
  unfold validate
  cases blocked : (Sweep.complete d.ids d.edges).blocked d.ids with
  | nil => simp [consistent.sort_ok blocked,bind,Except.bind,pure,Except.pure]
  | cons id rest => simp [consistent.sort_error blocked,bind,Except.bind]

theorem Consistent.complete? {d : Dag} (consistent : Consistent d) :
    Sweep.complete? d.ids d.edges = some (Sweep.complete d.ids d.edges) := by
  have counts := fun id member => Waiting.count_start d.edges consistent.distinct id member
  have initial := Sweep.sound_ofWaiting consistent.distinct _ counts
  exact (initial.run (fun e inside => (consistent.closed e inside).2) _).2

/-- An order exists if and only if no cycle does. It holds each task once, behind those that the
task waits for. Otherwise the fault is a cycle. No count of the sweep falls below zero, and
validation finds what sorting finds. -/
theorem topologicalSort_of_reachable (d : Dag) (reachable : Reachable d) :
    ((∃ order, d.topologicalSort = .ok order) ↔ ¬ Edge.Cyclic d.edges) ∧
    (∀ order, d.topologicalSort = .ok order →
      order.Perm d.ids ∧ Edge.Respected d.edges order) ∧
    (∀ error, d.topologicalSort = .error error →
      ∃ task ∈ d.ids, error = .cycleDetected task) ∧
    Sweep.complete? d.ids d.edges = some (Sweep.complete d.ids d.edges) ∧
    d.validate = d.topologicalSort.map (fun _ => ()) := by
  have consistent := reachable.consistent
  have finished := consistent.finished
  have iff := finished.blocked_iff consistent.closed
  refine ⟨?_,?_,?_,consistent.complete?,?_⟩
  · rw [← iff]
    cases blocked : (Sweep.complete d.ids d.edges).blocked d.ids with
    | nil => simp [consistent.sort_ok blocked]
    | cons id rest => simp [consistent.sort_error blocked]
  · intro order sorted
    cases blocked : (Sweep.complete d.ids d.edges).blocked d.ids with
    | nil =>
      rw [consistent.sort_ok blocked,Except.ok.injEq] at sorted
      subst order
      exact ⟨finished.perm_iff.mpr blocked,
        finished.respected (fun e inside => (consistent.closed e inside).2) blocked⟩
    | cons id rest => simp [consistent.sort_error blocked] at sorted
  · intro error failed
    cases blocked : (Sweep.complete d.ids d.edges).blocked d.ids with
    | nil => simp [consistent.sort_ok blocked] at failed
    | cons id rest =>
      rw [consistent.sort_error blocked,Except.error.injEq] at failed
      have member := ((finished.mem_blocked id).mp (by simp [blocked])).1
      exact ⟨id,member,failed.symm⟩
  · unfold validate
    cases d.topologicalSort <;> rfl

def crossed : Dag :=
  [.bashTask "a" "true",.bashTask "b" "true",.bashTask "a" "false",
    .chain [⟨"x","a"⟩,⟨"x","b"⟩,⟨"x","a"⟩,⟨"y","b"⟩]].foldl after
    ⟨"x",none,⟨0,0⟩,Schedule.manual,false,[],[]⟩

theorem topologicalSort_of_crossed : Reachable crossed ∧
    crossed.topologicalSort = .error (.cycleDetected "a") ∧ Edge.Cyclic crossed.edges := by
  have made : Dag.new "x" ⟨0,0⟩ Schedule.manual false =
      .ok ⟨"x",none,⟨0,0⟩,Schedule.manual,false,[],[]⟩ := by decide
  have reachable : Reachable crossed := (Reachable.new made).afterAll _
  have stuck : crossed.topologicalSort = .error (.cycleDetected "a") := by decide
  refine ⟨reachable,stuck,?_⟩
  by_contra acyclic
  obtain ⟨order,sorted⟩ := (topologicalSort_of_reachable crossed reachable).1.mpr acyclic
  rw [stuck] at sorted
  cases sorted

end Dag

namespace Edge

/-- A task is reached from itself along one or more edges. -/
def OnCycle (edges : List Edge) (id : String) : Prop := Relation.TransGen (Leads edges) id id

theorem OnCycle.trapped {edges : List Edge} {id : String} (around : OnCycle edges id) :
    Trapped edges id := ⟨id,around,.refl⟩

end Edge

namespace Dag

variable {d : Dag}

/-- Of the tasks that lie on a cycle or behind one, the one declared first. -/
def FirstTrapped (d : Dag) (id : String) : Prop :=
  ∃ front rear, d.ids = front ++ id :: rear ∧ Edge.Trapped d.edges id ∧
    ∀ other ∈ front, ¬ Edge.Trapped d.edges other

theorem Consistent.mem_ids_of_trapped (consistent : Consistent d) {id : String}
    (trapped : Edge.Trapped d.edges id) : id ∈ d.ids := by
  obtain ⟨loop,around,path⟩ := trapped
  obtain ⟨last,-,edge⟩ := Relation.TransGen.tail'_iff.mp (around.trans_left path)
  exact (consistent.closed _ edge).2

theorem Consistent.sort_cycleDetected (consistent : Consistent d) (id : String) :
    d.topologicalSort = .error (.cycleDetected id) ↔
      ((Sweep.complete d.ids d.edges).blocked d.ids).head? = some id := by
  cases blocked : (Sweep.complete d.ids d.edges).blocked d.ids with
  | nil => simp [consistent.sort_ok blocked]
  | cons first rest => simp [consistent.sort_error blocked]

theorem Consistent.head?_blocked (consistent : Consistent d) (id : String) :
    ((Sweep.complete d.ids d.edges).blocked d.ids).head? = some id ↔ d.FirstTrapped id := by
  have stuck : ∀ other ∈ d.ids, 0 < (Sweep.complete d.ids d.edges).waiting.count other ↔
      Edge.Trapped d.edges other := by
    intro other member
    have known := fun e inside => (consistent.closed e inside).1
    simpa [Sweep.blocked,member] using consistent.finished.mem_blocked_iff known other
  simp only [Sweep.blocked,List.head?_filter,List.find?_eq_some_iff_append,decide_eq_true_eq,
    Bool.not_eq_true',decide_eq_false_iff_not,FirstTrapped]
  constructor
  · rintro ⟨waits,front,rear,split,free⟩
    refine ⟨front,rear,split,(stuck id (by simp [split])).mp waits,fun other inFront => ?_⟩
    exact mt (stuck other (by simp [split,inFront])).mpr (free other inFront)
  · rintro ⟨front,rear,split,trapped,free⟩
    refine ⟨(stuck id (by simp [split])).mpr trapped,front,rear,split,fun other inFront => ?_⟩
    exact mt (stuck other (by simp [split,inFront])).mp (free other inFront)

theorem Consistent.onCycle_iff (consistent : Consistent d) {id : String}
    (first : d.FirstTrapped id) : Edge.OnCycle d.edges id ↔
      ∀ behind, Edge.Trapped d.edges behind → ¬ Edge.OnCycle d.edges behind →
        ∃ loop, Edge.OnCycle d.edges loop ∧ Edge.Precedes d.ids loop behind := by
  obtain ⟨front,rear,split,trapped,free⟩ := first
  have unique := consistent.distinct
  rw [split] at unique ⊢
  constructor
  · intro around behind trappedToo apart
    have member : behind ∈ front ++ id :: rear := split ▸ consistent.mem_ids_of_trapped trappedToo
    have other : id ≠ behind := fun same => apart (same ▸ around)
    refine ⟨id,around,(Edge.precedes_or (by simp) member other).resolve_right fun before => ?_⟩
    exact free behind ((Edge.precedes_iff_mem unique).mp before) trappedToo
  · intro covered
    by_contra apart
    obtain ⟨loop,around,before⟩ := covered id trapped apart
    exact free loop ((Edge.precedes_iff_mem unique).mp before) around.trapped

/-- Sorting fails with the first declared task that lies on a cycle or behind one. This task lies on
a cycle if and only if each task merely behind a cycle is declared after some task on one. -/
theorem cycleDetected_of_reachable (d : Dag) (reachable : Reachable d) (id : String) :
    (d.topologicalSort = .error (.cycleDetected id) ↔ d.FirstTrapped id) ∧
    (d.topologicalSort = .error (.cycleDetected id) → (Edge.OnCycle d.edges id ↔
      ∀ behind, Edge.Trapped d.edges behind → ¬ Edge.OnCycle d.edges behind →
        ∃ loop, Edge.OnCycle d.edges loop ∧ Edge.Precedes d.ids loop behind)) := by
  have consistent := reachable.consistent
  have named : d.topologicalSort = .error (.cycleDetected id) ↔ d.FirstTrapped id :=
    (consistent.sort_cycleDetected id).trans (consistent.head?_blocked id)
  exact ⟨named,fun failed => consistent.onCycle_iff (named.mp failed)⟩

def behindLoop (ids : List String) : Dag := drawn ids [⟨"a","a"⟩,⟨"a","c"⟩]

theorem cycleDetected_of_loop_declared_first : Reachable (behindLoop ["a","c"]) ∧
    (behindLoop ["a","c"]).topologicalSort = .error (.cycleDetected "a") ∧
    (behindLoop ["a","c"]).FirstTrapped "a" ∧ Edge.OnCycle (behindLoop ["a","c"]).edges "a" := by
  have reachable : Reachable (behindLoop ["a","c"]) := reachable_drawn _ _
  have stuck : (behindLoop ["a","c"]).topologicalSort = .error (.cycleDetected "a") := by decide
  have ids : (behindLoop ["a","c"]).ids = ["a","c"] := by decide
  have loop : Edge.OnCycle (behindLoop ["a","c"]).edges "a" :=
    .single (show _ ∈ (behindLoop ["a","c"]).edges by decide)
  obtain ⟨named,loops⟩ := cycleDetected_of_reachable _ reachable "a"
  refine ⟨reachable,stuck,named.mp stuck,(loops stuck).mpr fun behind trapped apart => ?_⟩
  have other : behind ≠ "a" := by
    rintro rfl
    exact apart loop
  have member := reachable.consistent.mem_ids_of_trapped trapped
  obtain rfl : behind = "c" := by simpa [ids,other] using member
  exact ⟨"a",loop,["a"],[],ids,by simp⟩

/-- Sorting names a task that lies on no cycle. -/
theorem cycleDetected_of_follower_declared_first : Reachable (behindLoop ["c","a"]) ∧
    (behindLoop ["c","a"]).topologicalSort = .error (.cycleDetected "c") ∧
    ¬ Edge.OnCycle (behindLoop ["c","a"]).edges "c" := by
  refine ⟨reachable_drawn _ _,by decide,fun around => ?_⟩
  have edges : (behindLoop ["c","a"]).edges = [⟨"a","a"⟩,⟨"a","c"⟩] := by decide
  obtain ⟨next,edge,-⟩ := Relation.TransGen.head'_iff.mp around
  simp [Edge.Leads,edges] at edge

end Dag

end PipelineAtlas

import Mathlib.Data.Nat.SuccPred
import PipelineAtlas.Proofs.Dag.ServiceOrder

/-! The layers of a valid DAG. The depth of a task is the number of edges of a longest path that ends
in it, and tasks are served layer by layer. -/
namespace PipelineAtlas

namespace Edge

/-- A path with a number of edges ends in a task. -/
inductive PathTo (edges : List Edge) : Nat → String → Prop
  | here (id : String) : PathTo edges 0 id
  | along {n : Nat} {a b : String} (path : PathTo edges n a) (edge : Leads edges a b) :
      PathTo edges (n + 1) b

/-- The number of edges of a longest path that ends in a task. Where there is no cycle no task comes
twice on a path, and there is a longest one. -/
def IsDepth (edges : List Edge) (id : String) (depth : Nat) : Prop :=
  IsGreatest {n | PathTo edges n id} depth

variable {edges : List Edge} {depth : String → Nat} {a b id : String}

theorem PathTo.le_of_rising {rank : String → Nat} {n : Nat} (path : PathTo edges n id)
    (rising : ∀ a b, Leads edges a b → rank a < rank b) : n ≤ rank id := by
  induction path with
  | here id => exact Nat.zero_le _
  | along _ edge ih => exact Nat.succ_le_of_lt (ih.trans_lt (rising _ _ edge))

theorem exists_depth {rank : String → Nat} (rising : ∀ a b, Leads edges a b → rank a < rank b) :
    ∃ depth : String → Nat, ∀ id, IsDepth edges id (depth id) := by
  have each : ∀ id, ∃ n, IsDepth edges id n := by
    intro id
    have bounded : BddAbove {n | PathTo edges n id} :=
      ⟨rank id,fun n path => PathTo.le_of_rising path rising⟩
    exact BddAbove.exists_isGreatest_of_nonempty bounded ⟨0,.here id⟩
  exact ⟨fun id => (each id).choose,fun id => (each id).choose_spec⟩

theorem depth_lt (depths : ∀ id, IsDepth edges id (depth id)) (edge : Leads edges a b) :
    depth a < depth b :=
  (depths b).2 ((depths a).1.along edge)

theorem depth_le {n : Nat} (depths : ∀ id, IsDepth edges id (depth id))
    (below : ∀ other, Leads edges other id → depth other < n) : depth id ≤ n := by
  have path := (depths id).1
  cases longest : depth id with
  | zero => exact Nat.zero_le n
  | succ m =>
    rw [longest] at path
    cases path with
    | along path edge => exact ((depths _).2 path).trans_lt (below _ edge)

theorem depth_eq_zero (depths : ∀ id, IsDepth edges id (depth id)) :
    depth id = 0 ↔ predecessors edges id = [] := by
  rw [predecessors_eq_nil]
  constructor
  · intro zero other edge
    exact Nat.not_lt_zero _ (zero ▸ depth_lt depths edge)
  · intro free
    exact Nat.le_zero.mp (depth_le depths fun other edge => absurd edge (free other))

end Edge

namespace Dag

variable {d : Dag} {order : List String} {depth : String → Nat} {a b last : String}

/-- The task that releases another is a deepest of those that the other waits for, if none in front
of it is deeper. -/
theorem depth_le_of_releases (depths : ∀ id, Edge.IsDepth d.edges id (depth id))
    (released : Edge.Releases d.edges order last a)
    (sorted : ∀ other, Edge.Precedes order other last → depth other ≤ depth last) :
    depth a ≤ depth last + 1 := by
  refine Edge.depth_le depths fun other edge => Nat.lt_succ_of_le ?_
  rcases released.behind other edge with rfl | before
  · exact Nat.le_refl _
  · exact sorted other before

theorem Serves.depth_le (serves : d.Serves order)
    (depths : ∀ id, Edge.IsDepth d.edges id (depth id)) (before : Edge.Precedes order a b) :
    depth a ≤ depth b := by
  -- The induction goes along the order: what releases `a` and `b` is served before `b`.
  induction place : order.idxOf b using Nat.strong_induction_on generalizing a b with
  | _ n ih =>
    subst n
    have up : ∀ {c e}, Edge.Leads d.edges c e → order.idxOf c < order.idxOf e :=
      fun edge => (serves.respected _ edge).idxOf_lt serves.unique
    have here := before.idxOf_lt serves.unique
    have sorted : ∀ {last}, order.idxOf last < order.idxOf b →
        ∀ other, Edge.Precedes order other last → depth other ≤ depth last :=
      fun earlier other inFront => ih _ earlier inFront rfl
    have deepest : ∀ {last}, Edge.Releases d.edges order last a → depth a ≤ depth last + 1 :=
      fun released => depth_le_of_releases depths released
        (sorted ((up released.leads).trans here))
    cases before.of_pairwise serves.served with
    | declared free _ _ => simp [(Edge.depth_eq_zero depths).mpr free]
    | free free _ => simp [(Edge.depth_eq_zero depths).mpr free]
    | @sooner first second released releasedToo inFront =>
      calc depth a ≤ depth first + 1 := deepest released
        _ ≤ depth second + 1 := Nat.succ_le_succ (sorted (up releasedToo.leads) first inFront)
        _ ≤ depth b := Edge.depth_lt depths releasedToo.leads
    | @together last released releasedToo _ =>
      calc depth a ≤ depth last + 1 := deepest released
        _ ≤ depth b := Edge.depth_lt depths releasedToo.leads

theorem Serves.takeWhile_depth (serves : d.Serves order)
    (depths : ∀ id, Edge.IsDepth d.edges id (depth id)) :
    order.takeWhile (fun id => depth id = 0) = d.roots := by
  obtain ⟨rest,rfl,waiting⟩ := serves.rootsFirst
  have top : ∀ id ∈ d.roots, decide (depth id = 0) = true := by
    intro id member
    simpa using (Edge.depth_eq_zero depths).mpr (mem_roots.mp member).2
  have below : rest.takeWhile (fun id => depth id = 0) = [] := by
    cases rest with
    | nil => rfl
    | cons id rest =>
      have deep : depth id ≠ 0 := mt (Edge.depth_eq_zero depths).mp (waiting id (by simp))
      simp [deep]
  rw [List.takeWhile_append_of_pos top,below,List.append_nil]

/-- Tasks are served in the order of their depths, and those of depth zero are the roots, which come
first and as declared. -/
theorem layers_of_reachable (d : Dag) (reachable : Reachable d)
    (acyclic : ¬ Edge.Cyclic d.edges) :
    ∃ order, d.topologicalSort = .ok order ∧
      ∃ depth : String → Nat, (∀ id, Edge.IsDepth d.edges id (depth id)) ∧
        order.Pairwise (fun a b => depth a ≤ depth b) ∧
        order.takeWhile (fun id => depth id = 0) = d.roots ∧ d.roots.Sublist d.ids := by
  obtain ⟨order,sorted,serves⟩ := Valid.exists_served ⟨reachable.consistent,acyclic⟩
  obtain ⟨depth,depths⟩ := Edge.exists_depth fun a b (edge : Edge.Leads d.edges a b) =>
    (serves.respected _ edge).idxOf_lt serves.unique
  refine ⟨order,sorted,depth,depths,?_,serves.takeWhile_depth depths,List.filter_sublist⟩
  exact (Edge.pairwise_precedes order).imp fun before => serves.depth_le depths before

def shortcut : Dag :=
  drawn ["d","a","c","b","e"] [⟨"a","d"⟩,⟨"a","c"⟩,⟨"b","e"⟩,⟨"c","d"⟩]

theorem layers_of_shortcut : Reachable shortcut ∧ ¬ Edge.Cyclic shortcut.edges ∧
    shortcut.topologicalSort = .ok ["a","b","c","e","d"] ∧
    ∃ depth : String → Nat, (∀ id, Edge.IsDepth shortcut.edges id (depth id)) ∧
      ["a","b","c","e","d"].Pairwise (fun a b => depth a ≤ depth b) ∧
      ["a","b","c","e","d"].takeWhile (fun id => depth id = 0) = ["a","b"] := by
  have reachable : Reachable shortcut := reachable_drawn _ _
  have sorted : shortcut.topologicalSort = .ok ["a","b","c","e","d"] := by decide
  have acyclic : ¬ Edge.Cyclic shortcut.edges := reachable.consistent.validate_ok.mp (by decide)
  obtain ⟨order,found,depth,depths,layered,top,-⟩ := layers_of_reachable shortcut reachable acyclic
  obtain rfl : ["a","b","c","e","d"] = order := Except.ok.inj (sorted.symm.trans found)
  have roots : shortcut.roots = ["a","b"] := by decide
  exact ⟨reachable,acyclic,sorted,depth,depths,layered,top.trans roots⟩

end Dag

end PipelineAtlas

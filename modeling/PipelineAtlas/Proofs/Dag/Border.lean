import PipelineAtlas.Proofs.Dag.Operation
import PipelineAtlas.Proofs.Dag.Builder

/-! The borders of a valid DAG. Going back from any task one comes to a task that waits for nothing,
and going on to one that nothing waits for. -/
namespace PipelineAtlas

namespace Edge

variable {edges : List Edge} {order : List String}

theorem wellFounded_leads (unique : order.Nodup) (respected : Respected edges order) :
    WellFounded (Leads edges) :=
  Subrelation.wf (fun edge => (respected _ edge).idxOf_lt unique) (measure order.idxOf).wf

theorem wellFounded_swap_leads (unique : order.Nodup) (respected : Respected edges order) :
    WellFounded (Function.swap (Leads edges)) := by
  refine Subrelation.wf (fun {b a} edge => ?_) (measure fun id => order.length - order.idxOf id).wf
  have forward := (respected _ edge).idxOf_lt unique
  have bound : order.idxOf b ≤ order.length := List.idxOf_le_length
  change order.length - order.idxOf b < order.length - order.idxOf a
  simp only at forward
  omega

theorem exists_end {leads : String → String → Prop} (wellFounded : WellFounded leads) (id : String) :
    ∃ first, Relation.ReflTransGen leads first id ∧ ∀ other, ¬ leads other first := by
  obtain ⟨first,path,least⟩ :=
    wellFounded.has_min {other | Relation.ReflTransGen leads other id} ⟨id,.refl⟩
  exact ⟨first,path,fun other edge => least other (.head edge path) edge⟩

end Edge

namespace Dag

variable {d : Dag}

theorem Valid.exists_root (valid : Valid d) {id : String} (member : id ∈ d.ids) :
    ∃ root ∈ d.roots, Relation.ReflTransGen (Edge.Leads d.edges) root id := by
  obtain ⟨order,-,perm,respected⟩ := valid.exists_order
  have unique := perm.nodup_iff.mpr valid.consistent.distinct
  obtain ⟨root,path,free⟩ := Edge.exists_end (Edge.wellFounded_leads unique respected) id
  refine ⟨root,mem_roots.mpr ⟨?_,Edge.predecessors_eq_nil.mpr free⟩,path⟩
  rcases path.cases_head with rfl | ⟨next,edge,-⟩
  · exact member
  · exact (valid.consistent.closed _ edge).1

theorem Valid.exists_leaf (valid : Valid d) {id : String} (member : id ∈ d.ids) :
    ∃ leaf ∈ d.leaves, Relation.ReflTransGen (Edge.Leads d.edges) id leaf := by
  obtain ⟨order,-,perm,respected⟩ := valid.exists_order
  have unique := perm.nodup_iff.mpr valid.consistent.distinct
  obtain ⟨leaf,back,last⟩ := Edge.exists_end (Edge.wellFounded_swap_leads unique respected) id
  have path := Relation.reflTransGen_swap.mp back
  refine ⟨leaf,mem_leaves.mpr ⟨?_,Edge.successors_eq_nil.mpr last⟩,path⟩
  rcases path.cases_tail with rfl | ⟨next,-,edge⟩
  · exact member
  · exact (valid.consistent.closed _ edge).2

/-- In a validated DAG every task is reached from a root and reaches a leaf. -/
theorem borders_of_validated (d : Dag) (reachable : Reachable d) (validated : d.validate = .ok ()) :
    (∀ id ∈ d.ids, (∃ root ∈ d.roots, Relation.ReflTransGen (Edge.Leads d.edges) root id) ∧
      ∃ leaf ∈ d.leaves, Relation.ReflTransGen (Edge.Leads d.edges) id leaf) ∧
    (d.tasks ≠ [] → d.roots ≠ [] ∧ d.leaves ≠ []) := by
  have valid := reachable.consistent.valid validated
  refine ⟨fun id member => ⟨valid.exists_root member,valid.exists_leaf member⟩,fun nonempty => ?_⟩
  obtain ⟨t,inside⟩ := List.exists_mem_of_ne_nil _ nonempty
  have member : t.id ∈ d.ids := List.mem_map_of_mem inside
  obtain ⟨root,isRoot,-⟩ := valid.exists_root member
  obtain ⟨leaf,isLeaf,-⟩ := valid.exists_leaf member
  exact ⟨List.ne_nil_of_mem isRoot,List.ne_nil_of_mem isLeaf⟩

def diamond : Dag :=
  drawn ["d","a","b","c"] [⟨"a","b"⟩,⟨"a","c"⟩,⟨"b","d"⟩,⟨"c","d"⟩]

theorem borders_of_diamond : Reachable diamond ∧ diamond.validate = .ok () ∧
    (∃ root ∈ ["a"], Relation.ReflTransGen (Edge.Leads diamond.edges) root "c") ∧
    (∃ leaf ∈ ["d"], Relation.ReflTransGen (Edge.Leads diamond.edges) "c" leaf) ∧
    diamond.roots ≠ [] ∧ diamond.leaves ≠ [] := by
  have reachable : Reachable diamond := reachable_drawn _ _
  have validated : diamond.validate = .ok () := by decide
  have roots : diamond.roots = ["a"] := by decide
  have leaves : diamond.leaves = ["d"] := by decide
  obtain ⟨bordered,nonempty⟩ := borders_of_validated diamond reachable validated
  obtain ⟨root,leaf⟩ := bordered "c" (by decide)
  rw [roots] at root
  rw [leaves] at leaf
  exact ⟨reachable,validated,root,leaf,nonempty (by decide)⟩

end Dag

end PipelineAtlas

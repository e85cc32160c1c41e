import PipelineAtlas.Task
import Mathlib.Data.List.Nodup

/-! Lists of edges, into which an edge is put once, and the edges as they are seen from their ends. -/
namespace PipelineAtlas.Edge

theorem mem_insert {edges : List Edge} {e x : Edge} :
    x ∈ insert edges e ↔ x ∈ edges ∨ x = e := by
  unfold insert
  by_cases present : e ∈ edges
  · simp only [List.contains_eq_mem,present,decide_true,if_true]
    exact ⟨.inl,fun either => either.elim id (fun same => same ▸ present)⟩
  · simp [present]

theorem insert_of_notMem {edges : List Edge} {e : Edge} (absent : e ∉ edges) :
    insert edges e = edges ++ [e] := by
  simp [insert,absent]

theorem nodup_insert {edges : List Edge} {e : Edge} (unique : edges.Nodup) :
    (insert edges e).Nodup := by
  by_cases present : e ∈ edges
  · simpa [insert,present] using unique
  · rw [insert_of_notMem present]
    exact unique.append (by simp) (by simpa using present)

variable {edges : List Edge}

theorem mem_predecessors {a b : String} : a ∈ predecessors edges b ↔ ⟨a,b⟩ ∈ edges := by
  simp only [predecessors,List.mem_map,List.mem_filter,beq_iff_eq]
  constructor
  · rintro ⟨e,⟨inside,rfl⟩,rfl⟩
    exact inside
  · intro inside
    exact ⟨⟨a,b⟩,⟨inside,rfl⟩,rfl⟩

theorem mem_successors {a b : String} : b ∈ successors edges a ↔ ⟨a,b⟩ ∈ edges := by
  simp only [successors,List.mem_map,List.mem_filter,beq_iff_eq]
  constructor
  · rintro ⟨e,⟨inside,rfl⟩,rfl⟩
    exact inside
  · intro inside
    exact ⟨⟨a,b⟩,⟨inside,rfl⟩,rfl⟩

theorem nodup_predecessors (unique : edges.Nodup) (id : String) : (predecessors edges id).Nodup := by
  refine (unique.filter _).map_on ?_
  intro e inside f other same
  simp only [List.mem_filter,beq_iff_eq] at inside other
  rw [Edge.mk.injEq]
  exact ⟨same,inside.2.trans other.2.symm⟩

theorem nodup_successors (unique : edges.Nodup) (id : String) : (successors edges id).Nodup := by
  refine (unique.filter _).map_on ?_
  intro e inside f other same
  simp only [List.mem_filter,beq_iff_eq] at inside other
  rw [Edge.mk.injEq]
  exact ⟨inside.2.trans other.2.symm,same⟩

theorem predecessors_isEmpty (edges : List Edge) (id : String) :
    (predecessors edges id).isEmpty = !edges.any (·.target == id) := by
  rw [Bool.eq_iff_iff]
  simp [predecessors,List.filter_eq_nil_iff]

theorem successors_isEmpty (edges : List Edge) (id : String) :
    (successors edges id).isEmpty = !edges.any (·.source == id) := by
  rw [Bool.eq_iff_iff]
  simp [successors,List.filter_eq_nil_iff]

theorem predecessors_eq_nil {id : String} :
    predecessors edges id = [] ↔ ∀ other, ⟨other,id⟩ ∉ edges := by
  simp only [List.eq_nil_iff_forall_not_mem,mem_predecessors]

theorem successors_eq_nil {id : String} :
    successors edges id = [] ↔ ∀ other, ⟨id,other⟩ ∉ edges := by
  simp only [List.eq_nil_iff_forall_not_mem,mem_successors]

end PipelineAtlas.Edge

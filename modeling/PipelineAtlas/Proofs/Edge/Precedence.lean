import Mathlib.Data.Fintype.Order
import PipelineAtlas.Task

/-! Orders of tasks, and cycles among edges. In a list without repetitions, standing in front of one
another is a strict linear order of its members. A list in which every edge points forward rules
cycles out, and tasks each of which waits for another one of them cannot do without. -/
namespace PipelineAtlas.Edge

/-- An edge leads straight from one task to another. -/
def Leads (edges : List Edge) (a b : String) : Prop := ⟨a,b⟩ ∈ edges

/-- Some task is reached from itself along one or more edges. -/
def Cyclic (edges : List Edge) : Prop := ∃ id, Relation.TransGen (Leads edges) id id

/-- One task stands in front of a place of another. -/
def Precedes (order : List String) (a b : String) : Prop :=
  ∃ front rear, order = front ++ b :: rear ∧ a ∈ front

/-- Every edge points from an earlier to a later place. -/
def Respected (edges : List Edge) (order : List String) : Prop :=
  ∀ e ∈ edges, Precedes order e.source e.target

theorem Precedes.idxOf_lt {order : List String} {a b : String} (unique : order.Nodup)
    (before : Precedes order a b) : order.idxOf a < order.idxOf b := by
  obtain ⟨front,rear,rfl,inFront⟩ := before
  have apart : b ∉ front := by
    intro again
    have disjoint := (List.nodup_append.mp unique).2.2
    exact disjoint b again b (by simp) rfl
  rw [List.idxOf_append_of_mem inFront,List.idxOf_append_of_notMem apart]
  have bound := List.idxOf_lt_length_of_mem inFront
  omega

theorem not_cyclic_of_respected {edges : List Edge} {order : List String} (unique : order.Nodup)
    (respected : Respected edges order) : ¬ Cyclic edges := by
  rintro ⟨id,path⟩
  have later : ∀ a b, Relation.TransGen (Leads edges) a b → order.idxOf a < order.idxOf b := by
    intro a b path
    induction path with
    | single edge => exact (respected _ edge).idxOf_lt unique
    | tail _ edge ih => exact ih.trans ((respected _ edge).idxOf_lt unique)
  exact (later id id path).false

/-- Going back from task to task among finitely many, one meets a task again. -/
theorem exists_loop {edges : List Edge} {stuck : List String} (nonempty : stuck ≠ [])
    (waits : ∀ b ∈ stuck, ∃ a ∈ stuck, Leads edges a b) :
    ∃ a ∈ stuck, Relation.TransGen (Leads edges) a a := by
  by_contra acyclic
  let behind : {x // x ∈ stuck} → {x // x ∈ stuck} → Prop :=
    fun a b => Relation.TransGen (Leads edges) a.val b.val
  have transitive : IsTrans {x // x ∈ stuck} behind := ⟨fun _ _ _ => Relation.TransGen.trans⟩
  have irreflexive : Std.Irrefl behind := ⟨fun a loop => acyclic ⟨a.val,a.property,loop⟩⟩
  have wellFounded : WellFounded behind := Finite.wellFounded_of_trans_of_irrefl behind
  obtain ⟨first,member⟩ := List.exists_mem_of_ne_nil stuck nonempty
  obtain ⟨least,-,minimal⟩ := wellFounded.has_min Set.univ ⟨⟨first,member⟩,trivial⟩
  obtain ⟨a,inside,edge⟩ := waits least.val least.property
  exact minimal ⟨a,inside⟩ trivial (.single edge)

/-- A task lies on a cycle or behind one. -/
def Trapped (edges : List Edge) (id : String) : Prop :=
  ∃ loop, Relation.TransGen (Leads edges) loop loop ∧
    Relation.ReflTransGen (Leads edges) loop id

theorem Trapped.cyclic {edges : List Edge} {id : String} (trapped : Trapped edges id) :
    Cyclic edges := by
  obtain ⟨loop,path,-⟩ := trapped
  exact ⟨loop,path⟩

/-- Tasks each of which waits for another one of them have a cycle in front of each. -/
theorem trapped_of_predecessors {edges : List Edge} {stuck : List String}
    (waits : ∀ b ∈ stuck, ∃ a ∈ stuck, Leads edges a b) {id : String} (member : id ∈ stuck) :
    Trapped edges id := by
  classical
  let ahead := stuck.filter fun a => Relation.ReflTransGen (Leads edges) a id
  have here : id ∈ ahead := by simpa [ahead] using ⟨member,Relation.ReflTransGen.refl⟩
  have back : ∀ b ∈ ahead, ∃ a ∈ ahead, Leads edges a b := by
    intro b inside
    obtain ⟨among,path⟩ : b ∈ stuck ∧ Relation.ReflTransGen (Leads edges) b id := by
      simpa [ahead] using inside
    obtain ⟨a,present,edge⟩ := waits b among
    exact ⟨a,by simpa [ahead] using ⟨present,path.head edge⟩,edge⟩
  obtain ⟨loop,inside,path⟩ := exists_loop (List.ne_nil_of_mem here) back
  exact ⟨loop,path,by simpa [ahead] using (List.mem_filter.mp inside).2⟩

variable {order front rear : List String} {a b : String}

theorem Precedes.append (before : Precedes order a b) (more : List String) :
    Precedes (order ++ more) a b := by
  obtain ⟨front,rear,rfl,inFront⟩ := before
  exact ⟨front,rear ++ more,by simp,inFront⟩

theorem Precedes.asymm (unique : order.Nodup) (before : Precedes order a b) :
    ¬ Precedes order b a :=
  fun after => (before.idxOf_lt unique).asymm (after.idxOf_lt unique)

theorem Precedes.ne (unique : order.Nodup) (before : Precedes order a b) : a ≠ b := by
  rintro rfl
  exact before.asymm unique before

theorem precedes_or (aIn : a ∈ order) (bIn : b ∈ order) (apart : a ≠ b) :
    Precedes order a b ∨ Precedes order b a := by
  obtain ⟨front,rear,rfl⟩ := List.append_of_mem bIn
  rcases List.mem_append.mp aIn with inFront | behind
  · exact .inl ⟨front,rear,rfl,inFront⟩
  · have inRear : a ∈ rear := by simpa [apart] using behind
    obtain ⟨between,rest,rfl⟩ := List.append_of_mem inRear
    exact .inr ⟨front ++ b :: between,rest,by simp,by simp⟩

theorem precedes_iff_mem (unique : (front ++ b :: rear).Nodup) :
    Precedes (front ++ b :: rear) a b ↔ a ∈ front := by
  refine ⟨fun before => ?_,fun inFront => ⟨front,rear,rfl,inFront⟩⟩
  have absent : b ∉ front := fun again => (List.nodup_append.mp unique).2.2 b again b (by simp) rfl
  by_contra behind
  have earlier := before.idxOf_lt unique
  rw [List.idxOf_append_of_notMem behind,List.idxOf_append_of_notMem absent,
    List.idxOf_cons_self] at earlier
  omega

theorem pairwise_precedes (order : List String) : order.Pairwise (Precedes order) := by
  rw [List.pairwise_iff_getElem]
  intro i j first second earlier
  refine ⟨order.take j,order.drop (j + 1),by simp,?_⟩
  exact List.mem_take_iff_getElem.mpr ⟨i,by omega,rfl⟩

theorem Precedes.of_pairwise {related : String → String → Prop} (before : Precedes order a b)
    (all : order.Pairwise related) : related a b := by
  obtain ⟨front,rear,rfl,inFront⟩ := before
  exact (List.pairwise_append.mp all).2.2 a inFront b (by simp)

end PipelineAtlas.Edge

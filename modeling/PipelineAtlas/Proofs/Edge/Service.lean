import PipelineAtlas.Proofs.Edge.Neighbours
import PipelineAtlas.Proofs.Edge.Precedence

/-! Which of two tasks is served first when tasks are served as they are released. -/
namespace PipelineAtlas.Edge

variable {ids order : List String} {edges : List Edge} {a b first second : String}

/-- A task is the last in an order of those that another waits for. -/
structure Releases (edges : List Edge) (order : List String) (last id : String) : Prop where
  leads : Leads edges last id
  behind : ∀ other, Leads edges other id → other = last ∨ Precedes order other last

/-- Which of two tasks is served first in a sweep that emits tasks in the given order. -/
inductive ServedBefore (ids : List String) (edges : List Edge) (order : List String)
    (a b : String) : Prop
  | declared (free : predecessors edges a = []) (freeToo : predecessors edges b = [])
      (before : Precedes ids a b)
  | free (free : predecessors edges a = []) (waits : predecessors edges b ≠ [])
  | sooner {first second : String} (released : Releases edges order first a)
      (releasedToo : Releases edges order second b) (before : Precedes order first second)
  | together {last : String} (released : Releases edges order last a)
      (releasedToo : Releases edges order last b) (before : Precedes (successors edges last) a b)

theorem Releases.append (released : Releases edges order a b) (more : List String) :
    Releases edges (order ++ more) a b :=
  ⟨released.leads,fun other edge => (released.behind other edge).imp_right (·.append more)⟩

theorem Releases.predecessors_ne_nil (released : Releases edges order a b) :
    predecessors edges b ≠ [] :=
  List.ne_nil_of_mem (mem_predecessors.mpr released.leads)

theorem ServedBefore.append (served : ServedBefore ids edges order a b)
    (more : List String) : ServedBefore ids edges (order ++ more) a b := by
  cases served with
  | declared free freeToo before => exact .declared free freeToo before
  | free free waits => exact .free free waits
  | sooner released releasedToo before =>
    exact .sooner (released.append more) (releasedToo.append more) (before.append more)
  | together released releasedToo before =>
    exact .together (released.append more) (releasedToo.append more) before

theorem Releases.eq (unique : order.Nodup) (released : Releases edges order first a)
    (again : Releases edges order second a) : first = second := by
  rcases released.behind second again.leads with same | before
  · exact same.symm
  · rcases again.behind first released.leads with same | after
    · exact same
    · exact absurd after (before.asymm unique)

theorem ServedBefore.of_free (served : ServedBefore ids edges order a b)
    (free : predecessors edges b = []) : predecessors edges a = [] ∧ Precedes ids a b := by
  cases served with
  | declared freeToo _ before => exact ⟨freeToo,before⟩
  | free _ waits => exact absurd free waits
  | sooner _ released _ => exact absurd free released.predecessors_ne_nil
  | together _ released _ => exact absurd free released.predecessors_ne_nil

theorem ServedBefore.asymm (idsUnique : ids.Nodup) (edgesUnique : edges.Nodup)
    (unique : order.Nodup) (served : ServedBefore ids edges order a b) :
    ¬ ServedBefore ids edges order b a := by
  intro converse
  cases served with
  | declared free _ before => exact before.asymm idsUnique (converse.of_free free).2
  | free free waits => exact waits (converse.of_free free).1
  | sooner released releasedToo before =>
    cases converse with
    | declared _ free _ => exact released.predecessors_ne_nil free
    | free free _ => exact releasedToo.predecessors_ne_nil free
    | sooner converse converseToo after =>
      rw [← releasedToo.eq unique converse,← released.eq unique converseToo] at after
      exact before.asymm unique after
    | together converse converseToo _ =>
      exact before.ne unique
        ((released.eq unique converseToo).trans (releasedToo.eq unique converse).symm)
  | together released releasedToo before =>
    cases converse with
    | declared _ free _ => exact released.predecessors_ne_nil free
    | free free _ => exact releasedToo.predecessors_ne_nil free
    | sooner converse converseToo after =>
      exact after.ne unique
        ((converse.eq unique releasedToo).trans (released.eq unique converseToo))
    | together converse _ after =>
      rw [← releasedToo.eq unique converse] at after
      exact before.asymm (nodup_successors edgesUnique _) after

end PipelineAtlas.Edge

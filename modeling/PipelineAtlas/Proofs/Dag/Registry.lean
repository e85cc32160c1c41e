import Mathlib.Logic.Relation
import PipelineAtlas.Proofs.Dag.History

/-! Several DAGs at once and the handles that they give out. A handle may be shown to any of them, but
only the DAG that gave it out accepts it, even if another has a task of the same name. -/
namespace PipelineAtlas

namespace Dag

def linkEnds (handles : List α) : List α := (handles.zip handles.tail).flatMap fun (a,b) => [a,b]

theorem mem_of_linkEnds {handles : List α} {a : α} (member : a ∈ linkEnds handles) :
    a ∈ handles := by
  obtain ⟨⟨x,y⟩,pair,isEnd⟩ := List.mem_flatMap.mp member
  obtain ⟨first,second⟩ := List.of_mem_zip pair
  rcases List.mem_pair.mp isEnd with rfl | rfl
  · exact first
  · exact List.mem_of_mem_tail second

theorem linkEnds_map (f : α → β) (handles : List α) :
    linkEnds (handles.map f) = (linkEnds handles).map f := by
  rw [linkEnds,linkEnds,← List.map_tail,List.zip_map,List.flatMap_map,List.map_flatMap]
  rfl

namespace Operation

def handles : Operation → List TaskHandle
  | .link source target => [source,target]
  | .linkAfter task earlier => [task,earlier]
  | .chain handles => handles
  | _ => []

/-- The handles that an operation checks, in this order. -/
def checked : Operation → List TaskHandle
  | .link source target => [source,target]
  | .linkAfter task earlier => [earlier,task]
  | .chain handles => linkEnds handles
  | _ => []

theorem mem_handles_of_checked {operation : Operation} {h : TaskHandle}
    (member : h ∈ operation.checked) : h ∈ operation.handles := by
  cases operation with
  | linkAfter task earlier => exact List.mem_cons.mpr (by simpa [checked,or_comm] using member)
  | chain handles => exact mem_of_linkEnds member
  | _ => exact member

end Operation

def given : Except DagError (Option TaskHandle) → List TaskHandle
  | .ok (some h) => [h]
  | _ => []

theorem given_answer (d : Dag) (operation : Operation) : given (d.answer operation) =
    (operation.registered (d.answer operation)).map fun t => ⟨d.id,t.id⟩ := by
  have added (t : Task) : given (d.answer (.addTask t)) =
      (Operation.registered (.addTask t) (d.answer (.addTask t))).map fun t => ⟨d.id,t.id⟩ := by
    rw [answer]
    cases stored : d.addTask t with
    | error e => rfl
    | ok pair =>
      obtain ⟨-,-,-,named⟩ := addTask_ok.mp stored
      simp [Except.map,given,named,Operation.registered,Operation.task?,Except.isOk,Except.toBool]
  have unit (result : Except DagError Dag) : given (result.map fun _ => none) = [] := by
    cases result <;> rfl
  cases operation with
  | describe text => rfl
  | addTask t => exact added t
  | bashTask id command => exact added ⟨id,command⟩
  | link source target =>
    rw [Operation.registered_of_none rfl]
    exact unit _
  | linkAfter task earlier =>
    rw [Operation.registered_of_none rfl]
    exact unit _
  | chain handles =>
    rw [Operation.registered_of_none rfl,answer]
    cases (d.chain handles).2 <;> rfl

theorem link_unit (d : Dag) (source target : TaskHandle) :
    (d.link source target).map (fun _ => ()) = forM [source,target] d.checkHandle := by
  rw [List.forM_cons,List.forM_cons,List.forM_nil,link]
  cases d.checkHandle source with
  | error e => rfl
  | ok _ => cases d.checkHandle target <;> rfl

theorem answer_chain (d : Dag) (handles : List TaskHandle) : d.answer (.chain handles) =
    (forM (Operation.chain handles).checked d.checkHandle).map fun _ => none := by
  induction handles generalizing d with
  | nil => rfl
  | cons a rest ih =>
    cases rest with
    | nil => rfl
    | cons b rest =>
      have pairs : (Operation.chain (a :: b :: rest)).checked =
          [a,b] ++ (Operation.chain (b :: rest)).checked := rfl
      rw [pairs,List.forM_append,← link_unit,answer,chain]
      cases linked : d.link a b with
      | error e => rfl
      | ok d' =>
        -- the new edge makes no difference to the checks that follow
        obtain ⟨-,-,rfl⟩ := link_ok.mp linked
        exact ih _

theorem answer_of_none (d : Dag) {operation : Operation} (other : operation.task? = none) :
    d.answer operation = (forM operation.checked d.checkHandle).map fun _ => none := by
  have linked (source target : TaskHandle) : (d.link source target).map (fun _ => none) =
      (forM [source,target] d.checkHandle).map fun _ => (none : Option TaskHandle) := by
    rw [← link_unit]
    cases d.link source target <;> rfl
  cases operation with
  | describe text => rfl
  | addTask t => cases other
  | bashTask id command => cases other
  | link source target => exact linked source target
  | linkAfter task earlier => exact linked earlier task
  | chain handles => exact d.answer_chain handles

/-- The handles that a DAG may have given out. -/
def Owns (d : Dag) (h : TaskHandle) : Prop := h.dag = d.id ∧ h.task ∈ d.ids

end Dag

namespace IndexedDag

theorem InStep.id_perform {d : IndexedDag} (inStep : InStep d) (operation : Dag.Operation) :
    (d.perform operation).2.id = d.id := (inStep.adds_perform operation).id

theorem InStep.owns_perform {d : IndexedDag} (inStep : InStep d) (operation : Dag.Operation)
    (h : TaskHandle) : (d.perform operation).2.Owns h ↔
      d.Owns h ∨ h ∈ Dag.given (d.perform operation).1 := by
  have ids : (d.perform operation).2.ids = d.ids ++ (d.step operation).registered.map (·.id) := by
    rw [Dag.ids,(inStep.adds_perform operation).tasks,List.map_append]
    rfl
  have given : Dag.given (d.perform operation).1 =
      (d.step operation).registered.map fun t => ⟨d.id,t.id⟩ := by
    rw [inStep.perform_fst,Dag.given_answer,← inStep.perform_fst]
    rfl
  rw [Dag.Owns,Dag.Owns,ids,inStep.id_perform,given,List.mem_append,and_or_left,List.mem_map,
    List.mem_map]
  refine or_congr_right ⟨?_,?_⟩
  · rintro ⟨own,t,new,named⟩
    exact ⟨t,new,by rw [← own,named]⟩
  · rintro ⟨t,new,rfl⟩
    exact ⟨rfl,t,new,rfl⟩

end IndexedDag

/-- A handle and the place of the DAG that gave it out. -/
structure Issued where
  issuer : Nat
  handle : TaskHandle
deriving DecidableEq

/-- All DAGs that were made and all handles that they gave out. -/
structure Registry where
  dags : List IndexedDag
  issued : List Issued

namespace Registry

open Dag (Operation)

def empty : Registry := ⟨[],[]⟩

def make (r : Registry) (d : IndexedDag) : Registry := { r with dags := r.dags ++ [d] }

def handle (r : Registry) (place : Nat) (d : IndexedDag) (id : String) : Registry :=
  { r with issued := r.issued ++ (d.handle? id).toList.map (Issued.mk place) }

def perform (r : Registry) (place : Nat) (d : IndexedDag) (operation : Operation) : Registry where
  dags := r.dags.set place (d.perform operation).2
  issued := r.issued ++ (Dag.given (d.perform operation).1).map (Issued.mk place)

/-- A DAG is made under a name of its own, a DAG gives out the handle of a task, or it performs an
operation on handles from anywhere. -/
inductive Step : Registry → Registry → Prop
  | make {r id start schedule catchup d}
      (made : IndexedDag.new id start schedule catchup = .ok d)
      (fresh : ∀ other ∈ r.dags, other.id ≠ id) : Step r (r.make d)
  | handle {r place d} (found : r.dags[place]? = some d) (id : String) :
      Step r (r.handle place d id)
  | perform {r place d operation} (found : r.dags[place]? = some d)
      (known : ∀ h ∈ operation.handles, ∃ a ∈ r.issued, a.handle = h) :
      Step r (r.perform place d operation)

abbrev Run : Registry → Registry → Prop := Relation.ReflTransGen Step

/-- The DAGs have different names, and the handles that each gave out are those of its tasks. -/
structure Consistent (r : Registry) : Prop where
  distinct : (r.dags.map (·.id)).Nodup
  reachable : ∀ d ∈ r.dags, IndexedDag.Reachable d
  issued : ∀ a, a ∈ r.issued ↔ ∃ d, r.dags[a.issuer]? = some d ∧ d.Owns a.handle

theorem mem_map_mk {place : Nat} {handles : List TaskHandle} {a : Issued} :
    a ∈ handles.map (Issued.mk place) ↔ place = a.issuer ∧ a.handle ∈ handles := by
  rw [List.mem_map]
  constructor
  · rintro ⟨h,member,rfl⟩
    exact ⟨rfl,member⟩
  · rintro ⟨rfl,member⟩
    exact ⟨a.handle,member,rfl⟩

theorem consistent_empty : Consistent empty :=
  ⟨List.nodup_nil,by simp [empty],by simp [empty]⟩

namespace Consistent

variable {r : Registry} (consistent : Consistent r)

include consistent

theorem make {id : String} {start : Instant} {schedule : Schedule} {catchup : Bool}
    {d : IndexedDag} (made : IndexedDag.new id start schedule catchup = .ok d)
    (fresh : ∀ other ∈ r.dags, other.id ≠ id) : Consistent (r.make d) := by
  have reachable := IndexedDag.Reachable.new made
  have named : d.id = id := by rw [IndexedDag.eq_of_new made]
  have new : d.ids = [] := by
    rw [IndexedDag.eq_of_new made]
    rfl
  refine ⟨?_,?_,?_⟩
  · rw [Registry.make,List.map_append]
    refine consistent.distinct.append (List.nodup_singleton _) ?_
    rw [List.map_singleton,List.disjoint_singleton,List.mem_map]
    rintro ⟨other,member,same⟩
    exact fresh other member (same.trans named)
  · intro other member
    rcases List.mem_append.mp member with old | last
    · exact consistent.reachable other old
    · rw [List.mem_singleton.mp last]
      exact reachable
  · intro a
    rw [Registry.make,consistent.issued,List.getElem?_append]
    constructor
    · rintro ⟨owner,found,own⟩
      exact ⟨owner,by rw [if_pos (List.getElem?_eq_some_iff.mp found).1,found],own⟩
    · rintro ⟨owner,found,own⟩
      split at found
      · exact ⟨owner,found,own⟩
      · have last := List.mem_singleton.mp (List.mem_of_getElem? found)
        rw [Dag.Owns,last,new] at own
        cases own.2

theorem handle {place : Nat} {d : IndexedDag} (found : r.dags[place]? = some d) (id : String) :
    Consistent (r.handle place d id) := by
  refine ⟨consistent.distinct,consistent.reachable,fun a => ?_⟩
  have inStep := (consistent.reachable d (List.mem_of_getElem? found)).inStep.1
  rw [Registry.handle,List.mem_append,consistent.issued,or_iff_left_iff_imp,inStep.handle?]
  intro new
  obtain ⟨h,given,rfl⟩ := List.mem_map.mp new
  rw [Option.mem_toList] at given
  by_cases member : id ∈ d.ids
  · rw [Dag.handle?_of_mem member] at given
    cases given
    exact ⟨d,found,rfl,member⟩
  · rw [Dag.handle?_of_notMem member] at given
    cases given

theorem perform {place : Nat} {d : IndexedDag} (found : r.dags[place]? = some d)
    (operation : Operation) : Consistent (r.perform place d operation) := by
  have reachable := consistent.reachable d (List.mem_of_getElem? found)
  have inStep := reachable.inStep.1
  obtain ⟨inside,here⟩ := List.getElem?_eq_some_iff.mp found
  refine ⟨?_,?_,?_⟩
  · have same : (r.dags.set place (d.perform operation).2).map (·.id) = r.dags.map (·.id) := by
      rw [List.map_set,inStep.id_perform,← List.map_set,← here,List.set_getElem_self]
    rw [Registry.perform,same]
    exact consistent.distinct
  · intro other member
    rcases List.mem_or_eq_of_mem_set member with old | rfl
    · exact consistent.reachable other old
    · rw [IndexedDag.perform_snd]
      exact reachable.after operation
  · intro a
    rw [Registry.perform,List.mem_append,consistent.issued,mem_map_mk,List.getElem?_set]
    by_cases same : place = a.issuer
    · subst same
      rw [if_pos rfl,if_pos inside,found]
      simp only [Option.some.injEq,exists_eq_left',true_and]
      exact (inStep.owns_perform operation a.handle).symm
    · rw [if_neg same]
      simp only [same,false_and,or_false]

variable {place : Nat} {d : IndexedDag} (found : r.dags[place]? = some d)

include found

/-- A handle bears the name of the DAG that gave it out and of no other. -/
theorem dag_eq_iff {a : Issued} (member : a ∈ r.issued) :
    a.handle.dag = d.id ↔ a.issuer = place := by
  obtain ⟨owner,issuer,own,-⟩ := (consistent.issued a).mp member
  rw [own]
  constructor
  · intro same
    obtain ⟨inside,-⟩ := List.getElem?_eq_some_iff.mp issuer
    refine (List.getElem?_inj (by rwa [List.length_map]) consistent.distinct).mp ?_
    rw [List.getElem?_map,List.getElem?_map,issuer,found,Option.map_some,Option.map_some,same]
  · rintro rfl
    rw [issuer] at found
    cases found
    rfl

theorem owns_iff {a : Issued} (member : a ∈ r.issued) : d.Owns a.handle ↔ a.issuer = place := by
  rw [Dag.Owns,consistent.dag_eq_iff found member,and_iff_left_iff_imp]
  rintro rfl
  obtain ⟨owner,issuer,own⟩ := (consistent.issued a).mp member
  rw [issuer] at found
  cases found
  exact own.2

theorem checkHandle_issued {a : Issued} (member : a ∈ r.issued) (own : a.issuer = place) :
    d.toDag.checkHandle a.handle = .ok () :=
  Dag.checkHandle_ok.mpr ((consistent.owns_iff found member).mpr own)

theorem checkHandle_foreign {a : Issued} (member : a ∈ r.issued) (foreign : a.issuer ≠ place) :
    ∃ owner, r.dags[a.issuer]? = some owner ∧
      d.toDag.checkHandle a.handle = .error (.foreignTask a.handle.task owner.id d.id) := by
  obtain ⟨owner,issuer,own,-⟩ := (consistent.issued a).mp member
  refine ⟨owner,issuer,?_⟩
  rw [Dag.checkHandle,if_pos (mt (consistent.dag_eq_iff found member).mp foreign),own]

end Consistent

theorem Step.consistent {r r' : Registry} (step : Step r r') (before : Consistent r) :
    Consistent r' := by
  cases step with
  | make made fresh => exact before.make made fresh
  | handle found id => exact before.handle found id
  | perform found known => exact before.perform found _

theorem Step.issued_subset {r r' : Registry} (step : Step r r') : r.issued ⊆ r'.issued := by
  cases step with
  | make => exact fun _ member => member
  | handle => exact List.subset_append_left ..
  | perform => exact List.subset_append_left ..

theorem Run.consistent {r r' : Registry} (run : Run r r') (before : Consistent r) :
    Consistent r' := by
  induction run with
  | refl => exact before
  | tail _ step ih => exact step.consistent ih

theorem Run.issued_subset {r r' : Registry} (run : Run r r') : r.issued ⊆ r'.issued := by
  induction run with
  | refl => exact fun _ member => member
  | tail _ step ih => exact fun _ member => step.issued_subset (ih member)

/-- What the DAG at a place should answer if it is shown handles: it accepts them if it gave out all of
them, and otherwise names the first that it did not give out and the DAG that did. -/
structure Verdict (r : Registry) (place : Nat) (d : IndexedDag) (handles : List Issued)
    (answer : Except DagError (Option TaskHandle)) : Prop where
  accepted : answer = .ok none ↔ ∀ a ∈ handles, a.issuer = place
  refused : ∀ a, handles.find? (·.issuer ≠ place) = some a → ∃ owner,
    r.dags[a.issuer]? = some owner ∧
      answer = .error (.foreignTask a.handle.task owner.id d.id)

theorem Consistent.verdict {r : Registry} (consistent : Consistent r) {place : Nat}
    {d : IndexedDag} (found : r.dags[place]? = some d) {handles : List Issued}
    (known : ∀ a ∈ handles, a ∈ r.issued) : Verdict r place d handles
      ((forM (handles.map (·.handle)) d.toDag.checkHandle).map fun _ => none) := by
  induction handles with
  | nil => exact ⟨by simp [pure,Except.pure,Except.map],by simp⟩
  | cons a rest ih =>
    obtain ⟨here,later⟩ := List.forall_mem_cons.mp known
    rw [List.map_cons,List.forM_cons]
    by_cases own : a.issuer = place
    · rw [consistent.checkHandle_issued found here own]
      obtain ⟨accepted,refused⟩ := ih later
      refine ⟨?_,?_⟩
      · rw [List.forall_mem_cons,and_iff_right own]
        exact accepted
      · rw [List.find?_cons_of_neg (by simpa using own)]
        exact refused
    · obtain ⟨owner,issuer,failed⟩ := consistent.checkHandle_foreign found here own
      rw [failed]
      refine ⟨?_,?_⟩
      · rw [List.forall_mem_cons]
        simp [own,bind,Except.bind,Except.map]
      · rw [List.find?_cons_of_pos (by simpa using own)]
        rintro _ ⟨⟩
        exact ⟨owner,issuer,rfl⟩

theorem takeWhile_congr {p q : α → Bool} {items : List α} (agree : ∀ x ∈ items, p x = q x) :
    items.takeWhile p = items.takeWhile q := by
  induction items with
  | nil => rfl
  | cons x items ih =>
    obtain ⟨here,later⟩ := List.forall_mem_cons.mp agree
    rw [List.takeWhile_cons,List.takeWhile_cons,here,ih later]

variable {r : Registry} (consistent : Consistent r) {place : Nat} {d : IndexedDag}
  (found : r.dags[place]? = some d)

include consistent found

theorem Consistent.inStep : IndexedDag.InStep d :=
  (consistent.reachable d (List.mem_of_getElem? found)).inStep.1

theorem Consistent.verdict_perform {operation : Operation} (other : operation.task? = none)
    {handles : List Issued} (checked : operation.checked = handles.map (·.handle))
    (known : ∀ a ∈ handles, a ∈ r.issued) :
    Verdict r place d handles (d.perform operation).1 := by
  rw [(consistent.inStep found).perform_fst,Dag.answer_of_none _ other,checked]
  exact consistent.verdict found known

theorem Consistent.not_taskNotFound {operation : Operation}
    (known : ∀ h ∈ operation.handles, ∃ a ∈ r.issued, a.handle = h) (task : String) :
    (d.perform operation).1 ≠ .error (.taskNotFound task) := by
  rw [(consistent.inStep found).perform_fst]
  have added (t : Task) : d.toDag.answer (.addTask t) ≠ .error (.taskNotFound task) := by
    rw [Dag.answer,Dag.addTask]
    split
    · simp [Except.map]
    · split <;> simp [Except.map]
  have other (none : operation.task? = none) :
      d.toDag.answer operation ≠ .error (.taskNotFound task) := by
    rw [Dag.answer_of_none _ none]
    intro failed
    obtain ⟨h,checked,missing⟩ := Fallible.forM_error (Fallible.map_error.mp failed)
    obtain ⟨a,member,rfl⟩ := known h (Dag.Operation.mem_handles_of_checked checked)
    by_cases own : a.issuer = place
    · rw [consistent.checkHandle_issued found member own] at missing
      cases missing
    · obtain ⟨owner,-,foreign⟩ := consistent.checkHandle_foreign found member own
      rw [foreign] at missing
      cases missing
  cases operation with
  | addTask t => exact added t
  | bashTask id command => exact added ⟨id,command⟩
  | _ => exact other rfl

theorem Consistent.edges_chain {handles : List Issued} (known : ∀ a ∈ handles, a ∈ r.issued) :
    (d.perform (.chain (handles.map (·.handle)))).2.edges =
      Edge.insertAll d.edges (((handles.zip handles.tail).takeWhile fun (a,b) =>
        a.issuer = place ∧ b.issuer = place).map fun (a,b) => ⟨a.handle.task,b.handle.task⟩) := by
  have agree : ∀ pair ∈ handles.zip handles.tail,
      d.toDag.accepts (pair.1.handle,pair.2.handle) =
        decide (pair.1.issuer = place ∧ pair.2.issuer = place) := by
    rintro ⟨a,b⟩ member
    obtain ⟨first,second⟩ := List.of_mem_zip member
    rw [Bool.eq_iff_iff,Dag.accepts,Dag.link_isOk,decide_eq_true_iff,
      ← consistent.owns_iff found (known a first),
      ← consistent.owns_iff found (known b (List.mem_of_mem_tail second))]
    rfl
  have plain := congrArg Dag.edges
    ((consistent.inStep found).of_perform (.chain (handles.map (·.handle)))).2
  rw [plain,Dag.after,Dag.chain_fst]
  dsimp only
  rw [← List.map_tail,List.zip_map,List.takeWhile_map,List.map_map,← takeWhile_congr agree]
  rfl

theorem Consistent.ends_issued {e : Edge} (inside : e ∈ d.edges) {task : String}
    (isEnd : task = e.source ∨ task = e.target) : ⟨place,d.id,task⟩ ∈ r.issued ∧
      ∀ a ∈ r.issued, a.handle = ⟨d.id,task⟩ → a.issuer = place := by
  have reachable := consistent.reachable d (List.mem_of_getElem? found)
  have closed := reachable.inStep.2.consistent.closed e inside
  have registered : task ∈ d.ids := by
    rcases isEnd with rfl | rfl
    · exact closed.1
    · exact closed.2
  refine ⟨(consistent.issued _).mpr ⟨d,found,rfl,registered⟩,fun a member same => ?_⟩
  exact (consistent.dag_eq_iff found member).mp (by rw [same])

omit consistent found

/-- Whatever DAGs of different names were made and whatever was done with them, a DAG links two handles
if it gave out both, no matter when, and otherwise names the first that it did not give out and the
DAG that did. A chain makes its links up to the first that is refused. A known handle never leads to
a missing task, and no edge of a DAG has an end that another DAG gave out. -/
theorem scoped_of_run {earlier r : Registry} (begun : Run empty earlier) (run : Run earlier r)
    {place : Nat} {d : IndexedDag} (found : r.dags[place]? = some d) :
    (∀ a ∈ earlier.issued, ∀ b ∈ earlier.issued,
      ((d.perform (.link a.handle b.handle)).1 = .ok none ↔
        a.issuer = place ∧ b.issuer = place) ∧
      Verdict r place d [a,b] (d.perform (.link a.handle b.handle)).1 ∧
      Verdict r place d [a,b] (d.perform (.linkAfter b.handle a.handle)).1) ∧
    (∀ handles : List Issued, (∀ a ∈ handles, a ∈ earlier.issued) →
      Verdict r place d (Dag.linkEnds handles)
        (d.perform (.chain (handles.map (·.handle)))).1 ∧
      (d.perform (.chain (handles.map (·.handle)))).2.edges =
        Edge.insertAll d.edges (((handles.zip handles.tail).takeWhile fun (a,b) =>
          a.issuer = place ∧ b.issuer = place).map fun (a,b) => ⟨a.handle.task,b.handle.task⟩)) ∧
    (∀ operation : Operation, (∀ h ∈ operation.handles, ∃ a ∈ r.issued, a.handle = h) →
      ∀ task, (d.perform operation).1 ≠ .error (.taskNotFound task)) ∧
    ∀ e ∈ d.edges, ∀ task, task = e.source ∨ task = e.target →
      ⟨place,d.id,task⟩ ∈ r.issued ∧
        ∀ a ∈ r.issued, a.handle = ⟨d.id,task⟩ → a.issuer = place := by
  have consistent := run.consistent (begun.consistent consistent_empty)
  have kept := run.issued_subset
  refine ⟨?_,?_,fun _ known => consistent.not_taskNotFound found known,
    fun _ inside _ isEnd => consistent.ends_issued found inside isEnd⟩
  · intro a first b second
    have known : ∀ x ∈ [a,b], x ∈ r.issued := by
      rw [List.forall_mem_cons,List.forall_mem_singleton]
      exact ⟨kept first,kept second⟩
    have linked : Verdict r place d [a,b] (d.perform (.link a.handle b.handle)).1 :=
      consistent.verdict_perform found rfl rfl known
    refine ⟨?_,linked,consistent.verdict_perform found rfl rfl known⟩
    rw [linked.accepted,List.forall_mem_cons,List.forall_mem_singleton]
  · intro handles known
    have inside : ∀ a ∈ Dag.linkEnds handles, a ∈ r.issued := fun a member =>
      kept (known a (Dag.mem_of_linkEnds member))
    exact ⟨consistent.verdict_perform found rfl (Dag.linkEnds_map _ _) inside,
      consistent.edges_chain found fun a member => kept (known a member)⟩

def vacant (id : String) : IndexedDag :=
  { id := id,description := none,start := ⟨0,0⟩,schedule := Schedule.manual,catchup := false,
    tasks := [],edges := [],index := ∅,edgeSet := ∅ }

def shared : Registry :=
  (((empty.make (vacant "x")).make (vacant "y")).perform 0 (vacant "x")
    (.bashTask "a" "true")).perform 1 (vacant "y") (.bashTask "a" "false")

theorem scoped_of_shared : Run empty shared ∧ shared.issued = [⟨0,"x","a"⟩,⟨1,"y","a"⟩] ∧
    ∃ later y, Run shared later ∧ later.dags[1]? = some y ∧ y.ids = ["a","b"] ∧
      (y.perform (.link ⟨"y","a"⟩ ⟨"y","a"⟩)).1 = .ok none ∧
      (y.perform (.link ⟨"y","a"⟩ ⟨"x","a"⟩)).1 = .error (.foreignTask "a" "x" "y") := by
  have made (id : String) (named : isWellFormed id = true) :
      IndexedDag.new id ⟨0,0⟩ Schedule.manual false = .ok (vacant id) := if_pos named
  have first : Run empty (empty.make (vacant "x")) :=
    .single (.make (made "x" (by decide)) (by decide))
  have both : Run empty ((empty.make (vacant "x")).make (vacant "y")) :=
    first.tail (.make (made "y" (by decide)) (by decide))
  have begun : Run empty shared :=
    (both.tail (.perform rfl (by decide))).tail (.perform rfl (by decide))
  have issued : shared.issued = [⟨0,"x","a"⟩,⟨1,"y","a"⟩] := by decide
  obtain ⟨y,second⟩ : ∃ y, shared.dags[1]? = some y := ⟨_,rfl⟩
  have run : Run shared (shared.perform 1 y (.bashTask "b" "true")) :=
    .single (.perform second (by simp [Dag.Operation.handles]))
  have found : (shared.perform 1 y (.bashTask "b" "true")).dags[1]? =
      some (y.perform (.bashTask "b" "true")).2 := rfl
  obtain ⟨linked,-⟩ := scoped_of_run begun run found
  obtain ⟨accepted,-⟩ := linked ⟨1,"y","a"⟩ (by simp [issued]) ⟨1,"y","a"⟩ (by simp [issued])
  obtain ⟨-,⟨-,refused⟩,-⟩ := linked ⟨1,"y","a"⟩ (by simp [issued]) ⟨0,"x","a"⟩ (by simp [issued])
  obtain ⟨owner,issuer,answer⟩ := refused ⟨0,"x","a"⟩ rfl
  cases second
  cases issuer
  exact ⟨begun,issued,_,_,run,found,by decide,accepted.mpr ⟨rfl,rfl⟩,answer⟩

end Registry

end PipelineAtlas

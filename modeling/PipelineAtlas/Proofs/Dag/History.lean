import Mathlib.Data.List.TakeWhile
import PipelineAtlas.Proofs.Dag.Builder
import PipelineAtlas.Proofs.Dag.Change
import PipelineAtlas.Proofs.FirstOccurrence

/-! What a DAG holds after any operations, read off their history: the tasks of the registrations that
were accepted and the edges of the pairs that were. -/
namespace PipelineAtlas

namespace Edge

theorem insertAll_append (edges more others : List Edge) :
    insertAll edges (more ++ others) = insertAll (insertAll edges more) others :=
  List.foldl_append

/-- Edges that are added one by one stand where they came up first, unless they were there before. -/
theorem insertAll_eq (edges more : List Edge) :
    insertAll edges more = edges ++ more.eraseDups.filter fun e => !edges.contains e := by
  induction more using List.reverseRecOn with
  | nil => simp [insertAll]
  | append_singleton more e ih =>
    have last : insertAll (insertAll edges more) [e] = insert (insertAll edges more) e := rfl
    rw [insertAll_append,last,FirstOccurrence.eraseDups_concat,List.filter_append,
      ← List.append_assoc,← ih]
    by_cases known : e ∈ insertAll edges more
    · have nothing : (if more.elem e then [] else [e]).filter (fun e => !edges.contains e) = [] := by
        rcases mem_insertAll.mp known with before | again
        · split <;> simp [before]
        · simp [again]
      have kept : insert (insertAll edges more) e = insertAll edges more := by simp [insert,known]
      rw [kept,nothing,List.append_nil]
    · rw [mem_insertAll,not_or] at known
      have single : (if more.elem e then [] else [e]).filter (fun e => !edges.contains e) = [e] := by
        simp [known]
      rw [insert_of_notMem (by simpa [mem_insertAll] using known),single]

theorem insertAll_nil (more : List Edge) : insertAll [] more = more.eraseDups := by
  simpa using insertAll_eq [] more

end Edge

def TaskHandle.edge (pair : TaskHandle × TaskHandle) : Edge := ⟨pair.1.task,pair.2.task⟩

namespace Dag

namespace Operation

def task? : Operation → Option Task
  | .addTask t => some t
  | .bashTask id command => some ⟨id,command⟩
  | _ => none

/-- The task of a registration, if its answer says that it was accepted. -/
def registered (operation : Operation) (answer : Except DagError (Option TaskHandle)) : List Task :=
  if answer.isOk then operation.task?.toList else []

theorem registered_of_none {operation : Operation} (other : operation.task? = none)
    (answer : Except DagError (Option TaskHandle)) : operation.registered answer = [] := by
  rw [registered,other,Option.toList_none,ite_self]

/-- The edges of the pairs that were accepted. In a chain that fails, these are the pairs in front of
the first that is refused. -/
def declared (accepts : TaskHandle × TaskHandle → Bool) (operation : Operation)
    (answer : Except DagError (Option TaskHandle)) : List Edge :=
  match operation,answer with
  | .link source target,.ok _ => [⟨source.task,target.task⟩]
  | .linkAfter task earlier,.ok _ => [⟨earlier.task,task.task⟩]
  | .chain handles,.ok _ => (handles.zip handles.tail).map TaskHandle.edge
  | .chain handles,.error _ => ((handles.zip handles.tail).takeWhile accepts).map TaskHandle.edge
  | _,_ => []

end Operation

/-- Whether a pair of handles is linked rests on the name of the DAG and on its tasks alone. -/
theorem link_isOk (d : Dag) (source target : TaskHandle) : (d.link source target).isOk = true ↔
    (source.dag = d.id ∧ source.task ∈ d.ids) ∧ target.dag = d.id ∧ target.task ∈ d.ids := by
  rw [← checkHandle_ok,← checkHandle_ok,link]
  cases d.checkHandle source <;> cases d.checkHandle target <;>
    simp [bind,Except.bind,pure,Except.pure,Except.isOk,Except.toBool]

def accepts (d : Dag) (pair : TaskHandle × TaskHandle) : Bool := (d.link pair.1 pair.2).isOk

theorem accepts_of_edges (d : Dag) (edges : List Edge) :
    accepts { d with edges := edges } = d.accepts := by
  funext pair
  rw [accepts,accepts,Bool.eq_iff_iff,link_isOk,link_isOk]
  rfl

/-- A chain adds the edges of the pairs in front of the first that is refused. -/
theorem chain_fst (d : Dag) (handles : List TaskHandle) : (d.chain handles).1 =
    let accepted := (handles.zip handles.tail).takeWhile d.accepts
    { d with edges := Edge.insertAll d.edges (accepted.map TaskHandle.edge) } := by
  induction handles generalizing d with
  | nil => rfl
  | cons a rest ih =>
    cases rest with
    | nil => rfl
    | cons b rest =>
      have pairs : (a :: b :: rest).zip (a :: b :: rest).tail =
          (a,b) :: (b :: rest).zip (b :: rest).tail := rfl
      rw [pairs,List.takeWhile_cons,chain,accepts]
      cases linked : d.link a b with
      | error e => rfl
      | ok d' =>
        obtain ⟨-,-,rfl⟩ := link_ok.mp linked
        dsimp only
        rw [ih,accepts_of_edges]
        rfl

theorem chain_snd (d : Dag) (handles : List TaskHandle) :
    (d.chain handles).2 = none ↔ (handles.zip handles.tail).all d.accepts = true := by
  induction handles generalizing d with
  | nil => simp [chain]
  | cons a rest ih =>
    cases rest with
    | nil => simp [chain]
    | cons b rest =>
      have pairs : (a :: b :: rest).zip (a :: b :: rest).tail =
          (a,b) :: (b :: rest).zip (b :: rest).tail := rfl
      rw [pairs,List.all_cons,chain,accepts]
      cases linked : d.link a b with
      | error e => simp [Except.isOk,Except.toBool]
      | ok d' =>
        obtain ⟨-,-,rfl⟩ := link_ok.mp linked
        dsimp only
        rw [ih,accepts_of_edges]
        simp [Except.isOk,Except.toBool]

theorem after_addTask (d : Dag) (t : Task) : d.after (.addTask t) =
    { d with tasks := d.tasks ++ Operation.registered (.addTask t) (d.answer (.addTask t)) } := by
  rw [after,answer]
  cases stored : d.addTask t with
  | error e => simp [Except.map,kept,Operation.registered,Except.isOk,Except.toBool]
  | ok pair =>
    obtain ⟨-,-,plain,-⟩ := addTask_ok.mp stored
    simp [Except.map,kept,plain,Operation.registered,Operation.task?,Except.isOk,Except.toBool]

theorem after_link (d : Dag) (source target : TaskHandle) : d.after (.link source target) =
    let declared := Operation.declared d.accepts (.link source target) (d.answer (.link source target))
    { d with edges := Edge.insertAll d.edges declared } := by
  rw [after,answer]
  cases linked : d.link source target with
  | error e => rfl
  | ok d' =>
    obtain ⟨-,-,rfl⟩ := link_ok.mp linked
    rfl

theorem after_chain (d : Dag) (handles : List TaskHandle) : d.after (.chain handles) =
    let declared := Operation.declared d.accepts (.chain handles) (d.answer (.chain handles))
    { d with edges := Edge.insertAll d.edges declared } := by
  rw [after,chain_fst,answer]
  cases failed : (d.chain handles).2 with
  | some e => rfl
  | none =>
    rw [chain_snd,List.all_eq_true] at failed
    rw [List.takeWhile_eq_self_iff.mpr failed]
    rfl

/-- What an operation does to a DAG: it adds the task and the edges that were accepted, and no name,
start, schedule or choice to catch up is changed. -/
structure Adds (tasks : List Task) (edges : List Edge) (d d' : Dag) : Prop where
  tasks : d'.tasks = d.tasks ++ tasks
  edges : d'.edges = Edge.insertAll d.edges edges
  id : d'.id = d.id
  start : d'.start = d.start
  schedule : d'.schedule = d.schedule
  catchup : d'.catchup = d.catchup

theorem Adds.trans {tasks tasks' : List Task} {edges edges' : List Edge} {d d' d'' : Dag}
    (first : Adds tasks edges d d') (second : Adds tasks' edges' d' d'') :
    Adds (tasks ++ tasks') (edges ++ edges') d d'' where
  tasks := by rw [second.tasks,first.tasks,List.append_assoc]
  edges := by rw [second.edges,first.edges,Edge.insertAll_append]
  id := second.id.trans first.id
  start := second.start.trans first.start
  schedule := second.schedule.trans first.schedule
  catchup := second.catchup.trans first.catchup

theorem adds_after (d : Dag) (operation : Operation) :
    Adds (operation.registered (d.answer operation))
      (operation.declared d.accepts (d.answer operation)) d (d.after operation) := by
  have added (t : Task) : Adds (Operation.registered (.addTask t) (d.answer (.addTask t))) [] d
      (d.after (.addTask t)) := by
    rw [after_addTask]
    exact ⟨rfl,rfl,rfl,rfl,rfl,rfl⟩
  have linked (source target : TaskHandle) :
      Adds [] (Operation.declared d.accepts (.link source target) (d.answer (.link source target))) d
        (d.after (.link source target)) := by
    rw [after_link]
    exact ⟨(List.append_nil _).symm,rfl,rfl,rfl,rfl,rfl⟩
  cases operation with
  | describe text => exact ⟨(List.append_nil _).symm,rfl,rfl,rfl,rfl,rfl⟩
  | addTask t => exact added t
  | bashTask id command => exact added ⟨id,command⟩
  | link source target =>
    rw [Operation.registered_of_none rfl]
    exact linked source target
  | linkAfter task earlier =>
    have turned (answer) : Operation.declared d.accepts (.linkAfter task earlier) answer =
        Operation.declared d.accepts (.link earlier task) answer := by
      cases answer <;> rfl
    rw [Operation.registered_of_none rfl,turned]
    exact linked earlier task
  | chain handles =>
    rw [Operation.registered_of_none rfl,after_chain]
    exact ⟨(List.append_nil _).symm,rfl,rfl,rfl,rfl,rfl⟩

end Dag

namespace IndexedDag

open Dag (Operation)

theorem eq_of_new {id : String} {start : Instant} {schedule : Schedule} {catchup : Bool}
    {d : IndexedDag} (made : new id start schedule catchup = .ok d) :
    d =
      { id := id,description := none,start := start,schedule := schedule,catchup := catchup,
        tasks := [],edges := [],index := ∅,edgeSet := ∅ } := by
  unfold new at made
  split at made
  next => exact (Except.ok.inj made).symm
  next => cases made

structure Step where
  before : IndexedDag
  operation : Operation
  answer : Except DagError (Option TaskHandle)
  after : IndexedDag

def step (d : IndexedDag) (operation : Operation) : Step :=
  ⟨d,operation,(d.perform operation).1,(d.perform operation).2⟩

def history : IndexedDag → List Operation → List Step
  | _,[] => []
  | d,operation :: rest => d.step operation :: history (d.perform operation).2 rest

def performAll (d : IndexedDag) (operations : List Operation) : IndexedDag :=
  operations.foldl (fun d operation => (d.perform operation).2) d

def accepts (d : IndexedDag) (pair : TaskHandle × TaskHandle) : Bool :=
  (d.perform (.link pair.1 pair.2)).1.isOk

namespace Step

def registered (s : Step) : List Task := s.operation.registered s.answer

def declared (s : Step) : List Edge := s.operation.declared s.before.accepts s.answer

end Step

variable {d : IndexedDag} (inStep : InStep d)

include inStep

theorem InStep.accepts : d.accepts = d.toDag.accepts := by
  funext pair
  rw [IndexedDag.accepts,inStep.perform_fst,Dag.accepts,Dag.answer]
  cases d.toDag.link pair.1 pair.2 <;> rfl

theorem InStep.adds_perform (operation : Operation) :
    Dag.Adds (d.step operation).registered (d.step operation).declared d.toDag
      (d.perform operation).2.toDag := by
  have adds := d.toDag.adds_after operation
  rwa [← inStep.perform_fst,← inStep.accepts,← (inStep.of_perform operation).2] at adds

theorem InStep.adds_performAll (operations : List Operation) :
    Dag.Adds ((d.history operations).flatMap Step.registered)
      ((d.history operations).flatMap Step.declared) d.toDag (d.performAll operations).toDag := by
  induction operations generalizing d with
  | nil => exact ⟨(List.append_nil _).symm,rfl,rfl,rfl,rfl,rfl⟩
  | cons operation rest ih =>
    have first := inStep.adds_perform operation
    have later := ih (inStep.of_perform operation).1
    exact first.trans later

theorem InStep.toDag_performAll (operations : List Operation) :
    (d.performAll operations).toDag = operations.foldl Dag.after d.toDag := by
  induction operations generalizing d with
  | nil => rfl
  | cons operation rest ih =>
    obtain ⟨kept,plain⟩ := inStep.of_perform operation
    rw [List.foldl_cons,← plain]
    exact ih kept

theorem InStep.of_mem_history {operations : List Operation} {s : Step}
    (member : s ∈ d.history operations) :
    InStep s.before ∧ s = s.before.step s.operation := by
  induction operations generalizing d with
  | nil => cases member
  | cons operation rest ih =>
    rcases List.mem_cons.mp member with rfl | later
    · exact ⟨inStep,rfl⟩
    · exact ih (inStep.of_perform operation).1 later

omit inStep

/-- Whatever operations are performed on a new DAG and whichever of them fail, it holds the tasks of
the registrations that were accepted, in order and with their commands, and the edges of the pairs
that were accepted, in order and without repetitions, where a chain that fails counts for its pairs in
front of the first that is refused. What it was made with stays, and every other operation that fails
changes nothing. Without the index, answers and DAGs are those of the same operations. -/
theorem holds_history {id : String} {start : Instant} {schedule : Schedule} {catchup : Bool}
    {d₀ : IndexedDag} (made : new id start schedule catchup = .ok d₀)
    (operations : List Operation) :
    let d := d₀.performAll operations
    let steps := d₀.history operations
    d.tasks = steps.flatMap Step.registered ∧
    d.edges = (steps.flatMap Step.declared).eraseDups ∧
    (d.id = id ∧ d.start = start ∧ d.schedule = schedule ∧ d.catchup = catchup) ∧
    (∀ s ∈ steps, ∀ e, s.answer = .error e → (∀ handles, s.operation ≠ .chain handles) →
      s.after = s.before) ∧
    d.toDag = operations.foldl Dag.after d₀.toDag ∧
    ∀ s ∈ steps, s.answer = s.before.toDag.answer s.operation ∧
      s.after.toDag = s.before.toDag.after s.operation := by
  have inStep := (Reachable.new made).inStep.1
  have adds := inStep.adds_performAll operations
  obtain rfl := eq_of_new made
  refine ⟨adds.tasks,?_,⟨adds.id,adds.start,adds.schedule,adds.catchup⟩,?_,
    inStep.toDag_performAll operations,?_⟩
  · rw [adds.edges,Edge.insertAll_nil]
  · intro s member e failed whole
    have same := (inStep.of_mem_history member).2
    rw [same] at failed ⊢
    exact perform_of_error failed whole
  · intro s member
    obtain ⟨kept,same⟩ := inStep.of_mem_history member
    rw [same]
    exact ⟨kept.perform_fst _,(kept.of_perform _).2⟩

/-- A run in which a name is taken, a name is malformed, a chain stops at a task of another DAG, an edge
comes again and a task is linked before it is registered. -/
def eventful : List Operation :=
  [.bashTask "a" "make",.bashTask "b" "true",.bashTask "a" "false",.bashTask "a b" "true",
    .chain [⟨"x","b"⟩,⟨"x","a"⟩,⟨"x","b"⟩,⟨"y","a"⟩,⟨"x","a"⟩],.linkAfter ⟨"x","c"⟩ ⟨"x","a"⟩,
    .describe "text",.addTask ⟨"c","ls 'x'"⟩,.link ⟨"x","b"⟩ ⟨"x","a"⟩,
    .chain [⟨"x","a"⟩,⟨"x","b"⟩,⟨"x","c"⟩]]

theorem holds_history_eventful : ∃ d₀, new "x" ⟨0,0⟩ Schedule.manual true = .ok d₀ ∧
    (d₀.performAll eventful).tasks = [⟨"a","make"⟩,⟨"b","true"⟩,⟨"c","ls 'x'"⟩] ∧
    (d₀.performAll eventful).edges = [⟨"b","a"⟩,⟨"a","b"⟩,⟨"b","c"⟩] ∧
    (d₀.performAll eventful).catchup = true ∧
    (d₀.history eventful).map (·.answer) =
      [.ok (some ⟨"x","a"⟩),.ok (some ⟨"x","b"⟩),.error (.duplicateTask "a"),
        .error (.invalidTaskId "a b"),.error (.foreignTask "a" "y" "x"),.error (.taskNotFound "c"),
        .ok none,.ok (some ⟨"x","c"⟩),.ok none,.ok none] := by
  obtain ⟨d₀,made⟩ : ∃ d₀, new "x" ⟨0,0⟩ Schedule.manual true = .ok d₀ := ⟨_,rfl⟩
  obtain ⟨tasks,edges,⟨-,-,-,catchup⟩,-⟩ := holds_history made eventful
  cases made
  refine ⟨_,rfl,?_,?_,catchup,by decide⟩
  · rw [tasks]
    decide
  · rw [edges]
    decide

end IndexedDag

end PipelineAtlas

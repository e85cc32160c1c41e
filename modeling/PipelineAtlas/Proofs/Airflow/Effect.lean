import PipelineAtlas.Airflow.DagFile
import PipelineAtlas.Proofs.Dag.Builder

/-! What the parts of a file do to the DAG. A statement only adds edges, between the tasks of the
variables that it links; an operator call only adds a task, and a variable for it. -/
namespace PipelineAtlas.Airflow

open Fallible Script

/-- Two variables. The task of the first runs first. -/
structure Link where
  source : List Char
  target : List Char
deriving DecidableEq, Repr

def Link.along (left right : List Char) : Shift → Link
  | .forward => ⟨left,right⟩
  | .backward => ⟨right,left⟩

def Link.edge? (vars : Variables) (l : Link) : Option Edge := do
  let source ← vars.lookup (String.ofList l.source)
  let target ← vars.lookup (String.ofList l.target)
  some ⟨source.task,target.task⟩

def groupLinks (shift : Shift) (lefts rights : List (List Char)) : List Link :=
  lefts.flatMap fun left => rights.map fun right => Link.along left right shift

def chainLinks (first : List (List Char)) : List (Shift × List (List Char)) → List Link
  | [] => []
  | (shift,next) :: rest => groupLinks shift first next ++ chainLinks next rest

/-- The variables that are looked up, which are all on both sides of a mark unless nothing stands on
the left. -/
def chainOperands (first : List (List Char)) : List (Shift × List (List Char)) → List (List Char)
  | [] => []
  | (_,next) :: rest => (first.flatMap fun left => left :: next) ++ chainOperands next rest

namespace Dependency

def links : Dependency → List Link
  | .groups first rest => chainLinks first rest
  | .call task shift others => groupLinks shift [task] others

def operands : Dependency → List (List Char)
  | .groups first rest => chainOperands first rest
  | .call task _ others => task :: others

end Dependency

namespace Reading

def dependency? : Reading → Option Dependency
  | .dependency dep => some dep
  | _ => none

def links (r : Reading) : List Link := r.dependency?.elim [] Dependency.links

def operands (r : Reading) : List (List Char) := r.dependency?.elim [] Dependency.operands

def makesSense : Reading → Bool
  | .other | .dependency _ => true
  | .unreadable | .unreadableCall _ => false

end Reading

theorem mem_groupLinks {shift : Shift} {lefts rights : List (List Char)} {l : Link} :
    l ∈ groupLinks shift lefts rights ↔
      ∃ left ∈ lefts, ∃ right ∈ rights, l = Link.along left right shift := by
  simp [groupLinks,eq_comm]

theorem Link.along_ends {left right : List Char} {shift : Shift} {names : List (List Char)}
    (leftIn : left ∈ names) (rightIn : right ∈ names) :
    (Link.along left right shift).source ∈ names ∧
      (Link.along left right shift).target ∈ names := by
  cases shift
  · exact ⟨leftIn,rightIn⟩
  · exact ⟨rightIn,leftIn⟩

theorem mem_chainOperands {first : List (List Char)} {rest : List (Shift × List (List Char))}
    {l : Link} (inside : l ∈ chainLinks first rest) :
    l.source ∈ chainOperands first rest ∧ l.target ∈ chainOperands first rest := by
  induction rest generalizing first with
  | nil => simp [chainLinks] at inside
  | cons step rest ih =>
    obtain ⟨shift,next⟩ := step
    rcases List.mem_append.mp inside with here | later
    · obtain ⟨left,leftIn,right,rightIn,rfl⟩ := mem_groupLinks.mp here
      refine Link.along_ends (List.mem_append_left _ ?_) (List.mem_append_left _ ?_)
      · exact List.mem_flatMap.mpr ⟨left,leftIn,List.mem_cons_self⟩
      · exact List.mem_flatMap.mpr ⟨left,leftIn,List.mem_cons_of_mem left rightIn⟩
    · obtain ⟨source,target⟩ := ih later
      exact ⟨List.mem_append_right _ source,List.mem_append_right _ target⟩

theorem Reading.mem_operands {r : Reading} {l : Link} (inside : l ∈ r.links) :
    l.source ∈ r.operands ∧ l.target ∈ r.operands := by
  cases r with
  | other => simp [Reading.links,Reading.dependency?] at inside
  | unreadable => simp [Reading.links,Reading.dependency?] at inside
  | unreadableCall task => simp [Reading.links,Reading.dependency?] at inside
  | dependency dep =>
    cases dep with
    | groups first rest => exact mem_chainOperands inside
    | call task shift others =>
      obtain ⟨left,leftIn,right,rightIn,rfl⟩ := mem_groupLinks.mp inside
      obtain rfl := List.mem_singleton.mp leftIn
      exact Link.along_ends (List.mem_cons_self) (List.mem_cons_of_mem left rightIn)

/-- Every variable holds a task of the DAG. -/
def Registered (d : Dag) (vars : Variables) : Prop :=
  ∀ name h, vars.lookup name = some h → d.checkHandle h = .ok ()

def Assigned (vars : Variables) (names : List (List Char)) : Prop :=
  ∀ name ∈ names, (vars.lookup (String.ofList name)).isSome = true

theorem assigned_cons {vars : Variables} {name : List Char} {names : List (List Char)} :
    Assigned vars (name :: names) ↔
      (vars.lookup (String.ofList name)).isSome = true ∧ Assigned vars names :=
  List.forall_mem_cons

theorem assigned_append {vars : Variables} {names more : List (List Char)} :
    Assigned vars (names ++ more) ↔ Assigned vars names ∧ Assigned vars more := by
  simp only [Assigned,List.forall_mem_append]

def linked (vars : Variables) (links : List Link) (d : Dag) : Dag :=
  { d with edges := Edge.insertAll d.edges (links.filterMap (Link.edge? vars)) }

theorem linked_append (vars : Variables) (links more : List Link) (d : Dag) :
    linked vars (links ++ more) d = linked vars more (linked vars links d) := by
  simp only [linked,Edge.insertAll,List.filterMap_append,List.foldl_append]

theorem Registered.linked {d : Dag} {vars : Variables} {links : List Link}
    (registered : Registered d vars) : Registered (linked vars links d) vars := registered

/-- A computation that succeeds if the operands are assigned, and adds the links then. -/
def Adds (vars : Variables) (operands : List (List Char)) (links : List Link)
    (run : Dag → Except Error Dag) : Prop :=
  ∀ d d', Registered d vars → (run d = .ok d' ↔ Assigned vars operands ∧ d' = linked vars links d)

namespace Adds

variable {vars : Variables}

theorem nothing : Adds vars [] [] .ok := by
  intro d d' _
  rw [Except.ok.injEq]
  refine ⟨fun same => ⟨fun _ none => absurd none List.not_mem_nil,same.symm⟩,fun given => given.2.symm⟩

theorem bind {names more : List (List Char)} {links others : List Link}
    {run next : Dag → Except Error Dag} (adds : Adds vars names links run)
    (addsNext : Adds vars more others next) :
    Adds vars (names ++ more) (links ++ others) fun d => run d >>= next := by
  intro d d' registered
  rw [bind_ok,assigned_append,linked_append]
  constructor
  · rintro ⟨d₁,first,second⟩
    obtain ⟨known,rfl⟩ := (adds d d₁ registered).mp first
    obtain ⟨knownMore,rfl⟩ := (addsNext _ d' registered.linked).mp second
    exact ⟨⟨known,knownMore⟩,rfl⟩
  · rintro ⟨⟨known,knownMore⟩,rfl⟩
    exact ⟨_,(adds d _ registered).mpr ⟨known,rfl⟩,
      (addsNext _ _ registered.linked).mpr ⟨knownMore,rfl⟩⟩

theorem foldlM {items : List α} {names : α → List (List Char)} {links : α → List Link}
    {run : Dag → α → Except Error Dag}
    (adds : ∀ x ∈ items, Adds vars (names x) (links x) fun d => run d x) :
    Adds vars (items.flatMap names) (items.flatMap links) fun d => items.foldlM run d := by
  induction items with
  | nil => exact nothing
  | cons x items ih =>
    simp only [List.flatMap_cons,List.foldlM_cons]
    exact (adds x (by simp)).bind (ih fun y inside => adds y (List.mem_cons_of_mem x inside))

theorem resolve {name : List Char} {names : List (List Char)} {links : List Link} {line : Nat}
    {run : TaskHandle → Dag → Except Error Dag}
    (adds : ∀ h, vars.lookup (String.ofList name) = some h → Adds vars names links (run h)) :
    Adds vars (name :: names) links fun d => Airflow.resolve vars line name >>= fun h => run h d := by
  intro d d' registered
  simp only [Airflow.resolve]
  rw [assigned_cons]
  cases held : vars.lookup (String.ofList name) with
  | none => simp [Bind.bind,Except.bind]
  | some h => simpa [Bind.bind,Except.bind] using adds h held d d' registered

end Adds

theorem linkTasks_adds {vars : Variables} {left right : List Char} {h h' : TaskHandle}
    (leftHeld : vars.lookup (String.ofList left) = some h)
    (rightHeld : vars.lookup (String.ofList right) = some h') (shift : Shift) :
    Adds vars [] [Link.along left right shift] fun d => linkTasks d shift h h' := by
  intro d d' registered
  have leftOk := registered _ h leftHeld
  have rightOk := registered _ h' rightHeld
  cases shift <;>
    simp [linkTasks,mapError_ok,Dag.link_ok,leftOk,rightOk,linked,Link.along,Link.edge?,leftHeld,
      rightHeld,Assigned,Edge.insertAll]

theorem linkEach_adds {vars : Variables} {left : List Char} {h : TaskHandle}
    (leftHeld : vars.lookup (String.ofList left) = some h) (line : Nat) (shift : Shift)
    (rights : List (List Char)) :
    Adds vars rights (rights.map fun right => Link.along left right shift) fun d =>
      linkEach vars line shift h d rights := by
  have steps : Adds vars (rights.flatMap fun right => [right])
      (rights.flatMap fun right => [Link.along left right shift]) fun d =>
        linkEach vars line shift h d rights :=
    Adds.foldlM fun _ _ => Adds.resolve fun _ rightHeld =>
      linkTasks_adds leftHeld rightHeld shift
  rwa [List.flatMap_singleton',← List.map_eq_flatMap] at steps

theorem linkGroups_adds (vars : Variables) (line : Nat) (shift : Shift)
    (lefts rights : List (List Char)) :
    Adds vars (lefts.flatMap fun left => left :: rights) (groupLinks shift lefts rights)
      (linkGroups vars line shift lefts rights) :=
  Adds.foldlM fun _ _ => Adds.resolve fun _ held => linkEach_adds held line shift rights

theorem linkChain_adds (vars : Variables) (line : Nat) (first : List (List Char))
    (rest : List (Shift × List (List Char))) :
    Adds vars (chainOperands first rest) (chainLinks first rest) fun d =>
      linkChain vars line d first rest := by
  induction rest generalizing first with
  | nil => exact .nothing
  | cons step rest ih => exact (linkGroups_adds vars line step.1 first step.2).bind (ih step.2)

theorem Dependency.apply_adds (vars : Variables) (line : Nat) (dep : Dependency) :
    Adds vars dep.operands dep.links fun d => dep.apply vars line d := by
  cases dep with
  | groups first rest => exact linkChain_adds vars line first rest
  | call task shift others =>
    have links : groupLinks shift [task] others =
        others.map fun right => Link.along task right shift := by simp [groupLinks]
    rw [Dependency.links,links]
    exact Adds.resolve fun _ held => linkEach_adds held line shift others

/-- A statement is accepted if it is no dependency or one between variables that hold tasks, and adds
its links. -/
theorem applyStatement_ok {vars : Variables} {d d' : Dag} {s : Statement}
    (registered : Registered d vars) :
    applyStatement vars d s = .ok d' ↔ (readDependency s.text).makesSense = true ∧
      Assigned vars (readDependency s.text).operands ∧
      d' = linked vars (readDependency s.text).links d := by
  simp only [applyStatement]
  cases readDependency s.text with
  | other => exact (Adds.nothing d d' registered).trans (by simp [Reading.makesSense,Reading.operands,Reading.links,Reading.dependency?])
  | unreadable => simp [Reading.makesSense]
  | unreadableCall task =>
    simp only [Reading.makesSense,bind_ok]
    simp
  | dependency dep =>
    exact (dep.apply_adds vars s.line d d' registered).trans (by simp [Reading.makesSense,Reading.operands,Reading.links,Reading.dependency?])

theorem applyStatements_ok {vars : Variables} {d d' : Dag} {statements : List Statement}
    (registered : Registered d vars) :
    statements.foldlM (applyStatement vars) d = .ok d' ↔
      (∀ s ∈ statements, (readDependency s.text).makesSense = true ∧
        Assigned vars (readDependency s.text).operands) ∧
      d' = linked vars (statements.flatMap fun s => (readDependency s.text).links) d := by
  induction statements generalizing d with
  | nil =>
    have nothing := Adds.nothing d d' registered
    simpa [Assigned,pure,Except.pure] using nothing
  | cons s statements ih =>
    rw [List.foldlM_cons,bind_ok,List.flatMap_cons,linked_append,List.forall_mem_cons]
    constructor
    · rintro ⟨d₁,here,later⟩
      obtain ⟨sense,known,rfl⟩ := (applyStatement_ok registered).mp here
      obtain ⟨others,rfl⟩ := (ih registered.linked).mp later
      exact ⟨⟨⟨sense,known⟩,others⟩,rfl⟩
    · rintro ⟨⟨⟨sense,known⟩,others⟩,rfl⟩
      exact ⟨_,(applyStatement_ok registered).mpr ⟨sense,known,rfl⟩,
        (ih registered.linked).mpr ⟨others,rfl⟩⟩

theorem registerTask_ok {d d' : Dag} {vars vars' : Variables} {c : OperatorCall} :
    registerTask (d,vars) c = .ok (d',vars') ↔ ∃ t, readTask c = .ok t ∧
      isWellFormed t.id = true ∧ t.id ∉ d.ids ∧ d' = { d with tasks := d.tasks ++ [t] } ∧
      vars' = (c.target,⟨d.id,t.id⟩) :: vars := by
  simp only [registerTask,bind_ok,mapError_ok,Prod.exists,Dag.addTask_ok,pure,Except.pure,
    Except.ok.injEq,Prod.mk.injEq]
  constructor
  · rintro ⟨t,read,_,_,⟨wellFormed,fresh,rfl,rfl⟩,rfl,rfl⟩
    exact ⟨t,read,wellFormed,fresh,rfl,rfl⟩
  · rintro ⟨t,read,wellFormed,fresh,rfl,rfl⟩
    exact ⟨t,read,_,_,⟨wellFormed,fresh,rfl,rfl⟩,rfl,rfl⟩

theorem registered_nil (d : Dag) : Registered d [] := by
  intro name h held
  simp at held

theorem Registered.registerTask {d d' : Dag} {vars vars' : Variables} {c : OperatorCall}
    (registered : Registered d vars)
    (step : Airflow.registerTask (d,vars) c = .ok (d',vars')) : Registered d' vars' := by
  obtain ⟨t,-,-,-,rfl,rfl⟩ := registerTask_ok.mp step
  intro name h held
  rw [List.lookup_cons] at held
  cases same : name == c.target with
  | true =>
    simp only [same,Option.some.injEq] at held
    subst held
    exact Dag.checkHandle_ok.mpr ⟨rfl,by simp [Dag.ids]⟩
  | false =>
    simp only [same] at held
    obtain ⟨own,known⟩ := Dag.checkHandle_ok.mp (registered name h held)
    refine Dag.checkHandle_ok.mpr ⟨own,?_⟩
    simp only [Dag.ids,List.map_append] at known ⊢
    exact List.mem_append_left _ known

theorem registerTasks_ok {d d' : Dag} {vars vars' : Variables} {calls : List OperatorCall}
    (registered : Registered d vars)
    (run : calls.foldlM registerTask (d,vars) = .ok (d',vars')) :
    Registered d' vars' ∧ d'.edges = d.edges ∧
      ∀ name, (∀ c ∈ calls, c.target ≠ name) → vars'.lookup name = vars.lookup name := by
  induction calls generalizing d vars with
  | nil =>
    cases run
    exact ⟨registered,rfl,fun _ _ => rfl⟩
  | cons c calls ih =>
    rw [List.foldlM_cons,bind_ok] at run
    obtain ⟨⟨d₁,vars₁⟩,here,later⟩ := run
    obtain ⟨registered',edges,kept⟩ := ih (registered.registerTask here) later
    obtain ⟨t,-,-,-,rfl,rfl⟩ := registerTask_ok.mp here
    refine ⟨registered',edges,fun name apart => ?_⟩
    have other : (name == c.target) = false := by
      simpa using Ne.symm (apart c (by simp))
    rw [kept name fun c' inside => apart c' (List.mem_cons_of_mem c inside),List.lookup_cons,other]

theorem registerTasks_edges {d d' : Dag} {vars vars' : Variables} {calls : List OperatorCall}
    (edges : List Edge) : calls.foldlM registerTask ({ d with edges := edges },vars) =
      .ok (d',vars') ↔ ∃ d₁, calls.foldlM registerTask (d,vars) = .ok (d₁,vars') ∧
        d' = { d₁ with edges := edges } := by
  induction calls generalizing d vars with
  | nil => simp [pure,Except.pure,eq_comm,and_comm]
  | cons c calls ih =>
    simp only [List.foldlM_cons,bind_ok,Prod.exists,registerTask_ok]
    constructor
    · rintro ⟨_,_,⟨t,read,wellFormed,fresh,rfl,rfl⟩,later⟩
      obtain ⟨d₁,run,rfl⟩ := (ih (d := { d with tasks := d.tasks ++ [t] })).mp later
      exact ⟨d₁,⟨_,_,⟨t,read,wellFormed,fresh,rfl,rfl⟩,run⟩,rfl⟩
    · rintro ⟨d₁,⟨_,_,⟨t,read,wellFormed,fresh,rfl,rfl⟩,run⟩,rfl⟩
      exact ⟨_,_,⟨t,read,wellFormed,fresh,rfl,rfl⟩,ih.mpr ⟨d₁,run,rfl⟩⟩

def readDeclared (source : List Char) : Except Error Dag :=
  match declaration? (Script.source source) with
  | none => .error .noDeclaration
  | some (line,call) =>
    match callArguments? call with
    | none => .error (.unterminated line)
    | some args => readDeclaration args line

theorem readDag_ok {source : List Char} {d : Dag} :
    readDag source = .ok d ↔ ∃ d₀ d₁ vars, readDeclared source = .ok d₀ ∧
      (operatorCalls (Script.source source)).foldlM registerTask (d₀,[]) = .ok (d₁,vars) ∧
      (statements (codeText (Script.source source))).foldlM (applyStatement vars) d₁ = .ok d ∧
      d.validate = .ok () := by
  simp only [readDag,readDeclared]
  cases found : declaration? (Script.source source) with
  | none => simp
  | some first =>
    obtain ⟨line,call⟩ := first
    cases arguments : callArguments? call with
    | none => simp [arguments]
    | some args =>
      simp only [arguments]
      simp only [bind_ok,mapError_ok,Prod.exists,pure,Except.pure,Except.ok.injEq]
      constructor
      · rintro ⟨d₀,declared,d₁,vars,registered,d₂,applied,_,valid,rfl⟩
        exact ⟨d₀,d₁,vars,declared,registered,applied,valid⟩
      · rintro ⟨d₀,d₁,vars,declared,registered,applied,valid⟩
        exact ⟨d₀,declared,d₁,vars,registered,d,applied,(),valid,rfl⟩

def readTasks (source : List Char) : Except Error (Dag × Variables) :=
  readDeclared source >>= fun d =>
    (operatorCalls (Script.source source)).foldlM registerTask (d,[])

theorem readDag_eq (source : List Char) : readDag source = do
    let (d,vars) ← readTasks source
    let d ← (statements (codeText (Script.source source))).foldlM (applyStatement vars) d
    d.validate.mapError Error.dag
    return d := by
  simp only [readDag,readTasks,readDeclared]
  cases declaration? (Script.source source) with
  | none => rfl
  | some first =>
    obtain ⟨line,call⟩ := first
    cases arguments : callArguments? call with
    | none => simp only [arguments]; rfl
    | some args => simp only [arguments,bind_assoc]

theorem new_of_readDeclared {source : List Char} {d : Dag} (declared : readDeclared source = .ok d) :
    isWellFormed d.id = true ∧ d.tasks = [] ∧ d.edges = [] := by
  unfold readDeclared at declared
  split at declared
  next => simp at declared
  next =>
    split at declared
    next => simp at declared
    next =>
      simp only [readDeclaration,bind_ok,mapError_ok,Dag.new_ok,pure,Except.pure,
        Except.ok.injEq] at declared
      obtain ⟨_,-,_,-,_,-,_,-,_,⟨named,rfl⟩,_,-,rfl⟩ := declared
      exact ⟨named,rfl,rfl⟩

theorem empty_of_readDeclared {source : List Char} {d : Dag} (declared : readDeclared source = .ok d) :
    d.tasks = [] ∧ d.edges = [] := (new_of_readDeclared declared).2

end PipelineAtlas.Airflow

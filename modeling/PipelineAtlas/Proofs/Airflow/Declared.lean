import PipelineAtlas.Proofs.Airflow.Effect

/-! What the declaration of a file fixes. Its parts are read apart from one another, and what stands behind
it only adds tasks and edges. -/
namespace PipelineAtlas.Airflow

open Fallible Script

theorem natural?_eq_some {n : Int} {k : Nat} : natural? n = some k ↔ n = k := by
  unfold natural?
  split
  next negative =>
    simp only [reduceCtorEq,false_iff]
    omega
  next =>
    rw [Option.some.injEq]
    omega

/-- The arguments of the declaration of a source, and the line that it begins on. -/
def DeclaredBy (source : List Char) (args : Arguments) (line : Nat) : Prop :=
  ∃ call, declaration? (Script.source source) = some (line,call) ∧ callArguments? call = some args

/-- The DAG that arguments set up, whatever they say about its schedule. -/
structure SetsUp (args : Arguments) (line : Nat) (d : Dag) : Prop where
  id : readId args line = .ok d.id
  named : isWellFormed d.id = true
  start : readStart args line = .ok d.start
  catchup : readCatchup args line = .ok d.catchup
  description : readDescription args line = .ok d.description
  tasks : d.tasks = []
  edges : d.edges = []

theorem SetsUp.reschedule {args : Arguments} {line : Nat} {d : Dag} (sets : SetsUp args line d)
    (s : Schedule) : SetsUp args line { d with schedule := s } where
  id := sets.id
  named := sets.named
  start := sets.start
  catchup := sets.catchup
  description := sets.description
  tasks := sets.tasks
  edges := sets.edges

theorem readDeclaration_ok {args : Arguments} {line : Nat} {d : Dag} :
    readDeclaration args line = .ok d ↔
      SetsUp args line d ∧ readSchedule args line = .ok d.schedule := by
  simp only [readDeclaration,bind_ok,mapError_ok,Dag.new_ok,pure,Except.pure,Except.ok.injEq]
  constructor
  · rintro ⟨_,id,_,start,_,schedule,_,catchup,_,⟨named,rfl⟩,_,description,rfl⟩
    exact ⟨⟨id,named,start,catchup,description,rfl,rfl⟩,schedule⟩
  · rintro ⟨sets,schedule⟩
    refine ⟨_,sets.id,_,sets.start,_,schedule,_,sets.catchup,_,⟨sets.named,rfl⟩,_,
      sets.description,?_⟩
    rw [← sets.tasks,← sets.edges]

/-- A schedule that cannot be read is the error of a declaration in which all else can. -/
theorem readDeclaration_error {args : Arguments} {line : Nat} {d : Dag} {e : Error}
    (sets : SetsUp args line d) (failed : readSchedule args line = .error e) :
    readDeclaration args line = .error e := by
  simp only [readDeclaration,sets.id,sets.start,failed]
  rfl

theorem DeclaredBy.readDeclared {source : List Char} {args : Arguments} {line : Nat}
    (declared : DeclaredBy source args line) :
    Airflow.readDeclared source = readDeclaration args line := by
  obtain ⟨call,found,given⟩ := declared
  simp only [Airflow.readDeclared,found,given]

def readBody (source : List Char) (d : Dag) : Except Error Dag := do
  let (d,vars) ← (operatorCalls (Script.source source)).foldlM registerTask (d,[])
  let d ← (statements (codeText (Script.source source))).foldlM (applyStatement vars) d
  d.validate.mapError Error.dag
  return d

theorem readDag_eq_body (source : List Char) :
    readDag source = readDeclared source >>= readBody source := by
  rw [readDag_eq,readTasks]
  cases readDeclared source <;> rfl

theorem readBody_ok {source : List Char} {d d' : Dag} : readBody source d = .ok d' ↔ ∃ d₁ vars,
    (operatorCalls (Script.source source)).foldlM registerTask (d,[]) = .ok (d₁,vars) ∧
      (statements (codeText (Script.source source))).foldlM (applyStatement vars) d₁ = .ok d' ∧
      d'.validate = .ok () := by
  simp only [readBody,bind_ok,mapError_ok,Prod.exists,pure,Except.pure,Except.ok.injEq]
  constructor
  · rintro ⟨d₁,vars,registered,_,applied,_,valid,rfl⟩
    exact ⟨d₁,vars,registered,applied,valid⟩
  · rintro ⟨d₁,vars,registered,applied,valid⟩
    exact ⟨d₁,vars,registered,d',applied,(),valid,rfl⟩

theorem registerTasks_head {d d' : Dag} {vars vars' : Variables} {calls : List OperatorCall}
    (run : calls.foldlM registerTask (d,vars) = .ok (d',vars')) : d' = { d with tasks := d'.tasks } := by
  induction calls generalizing d vars with
  | nil =>
    cases run
    rfl
  | cons c calls ih =>
    rw [List.foldlM_cons,bind_ok] at run
    obtain ⟨⟨d₁,vars₁⟩,here,later⟩ := run
    obtain ⟨t,-,-,-,rfl,-⟩ := registerTask_ok.mp here
    rw [ih later]

theorem readBody_head {source : List Char} {d d' : Dag} (read : readBody source d = .ok d') :
    d' = { d with tasks := d'.tasks,edges := d'.edges } := by
  obtain ⟨d₁,vars,registered,applied,-⟩ := readBody_ok.mp read
  obtain ⟨holds,-,-⟩ := registerTasks_ok (registered_nil d) registered
  obtain ⟨-,rfl⟩ := (applyStatements_ok holds).mp applied
  rw [registerTasks_head registered]
  rfl

theorem registerTasks_reschedule {d d' : Dag} {vars vars' : Variables} {calls : List OperatorCall}
    (run : calls.foldlM registerTask (d,vars) = .ok (d',vars')) (s : Schedule) :
    calls.foldlM registerTask ({ d with schedule := s },vars) =
      .ok ({ d' with schedule := s },vars') := by
  induction calls generalizing d vars with
  | nil =>
    cases run
    rfl
  | cons c calls ih =>
    rw [List.foldlM_cons,bind_ok] at run ⊢
    obtain ⟨⟨d₁,vars₁⟩,here,later⟩ := run
    obtain ⟨t,read,wellFormed,fresh,rfl,rfl⟩ := registerTask_ok.mp here
    exact ⟨_,registerTask_ok.mpr ⟨t,read,wellFormed,fresh,rfl,rfl⟩,ih later⟩

/-- What stands behind the declaration is read without a look at the schedule. -/
theorem readBody_reschedule {source : List Char} {d d' : Dag} (read : readBody source d = .ok d')
    (s : Schedule) : readBody source { d with schedule := s } = .ok { d' with schedule := s } := by
  obtain ⟨d₁,vars,registered,applied,valid⟩ := readBody_ok.mp read
  obtain ⟨holds,-,-⟩ := registerTasks_ok (registered_nil d) registered
  obtain ⟨sense,rfl⟩ := (applyStatements_ok holds).mp applied
  have holds' : Registered { d₁ with schedule := s } vars := holds
  exact readBody_ok.mpr ⟨_,vars,registerTasks_reschedule registered s,
    (applyStatements_ok holds').mpr ⟨sense,rfl⟩,valid⟩

end PipelineAtlas.Airflow

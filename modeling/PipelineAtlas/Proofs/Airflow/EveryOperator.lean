import Mathlib.Data.List.Forall2
import PipelineAtlas.Proofs.Airflow.Execution
import PipelineAtlas.Proofs.Airflow.OperatorLine

/-! Tasks of accepted files. They are those of the lines that assign an operator to a variable, in their
order; what is not assigned at the start of a line gives no task, whatever it calls. -/
namespace PipelineAtlas.Airflow

open Fallible Script

/-- The task that a call of the operator for commands gives. -/
structure Gives (c : OperatorCall) (t : Task) : Prop where
  operator : carriesCommand c.operator = true
  arguments : ∃ args, callArguments? c.call = some args ∧
    args.byKey "task_id" = some (.string t.id) ∧ args.byKey "bash_command" = some (.string t.command)

theorem stringArgument_ok {args : Arguments} {name s : String} {line : Nat} :
    stringArgument args name line = .ok s ↔ args.byKey name = some (.string s) := by
  unfold stringArgument
  split <;> simp_all

theorem readTask_ok {c : OperatorCall} {t : Task} : readTask c = .ok t ↔ Gives c t := by
  unfold readTask
  constructor
  · intro read
    split at read
    next => simp at read
    next carries =>
      split at read
      next => simp at read
      next args found =>
        simp only [bind_ok,stringArgument_ok,pure,Except.pure,Except.ok.injEq] at read
        obtain ⟨id,atId,command,atCommand,rfl⟩ := read
        exact ⟨by simpa using carries,args,found,atId,atCommand⟩
  · rintro ⟨carries,args,found,atId,atCommand⟩
    simp only [carries,Bool.not_true,Bool.false_eq_true,if_false,found,
      stringArgument_ok.mpr atId,stringArgument_ok.mpr atCommand]
    rfl

theorem registerTasks_tasks {d d' : Dag} {vars vars' : Variables} {calls : List OperatorCall}
    (run : calls.foldlM registerTask (d,vars) = .ok (d',vars')) :
    ∃ tasks, d'.tasks = d.tasks ++ tasks ∧ List.Forall₂ Gives calls tasks := by
  induction calls generalizing d vars with
  | nil =>
    cases run
    exact ⟨[],by simp,.nil⟩
  | cons c calls ih =>
    rw [List.foldlM_cons,bind_ok] at run
    obtain ⟨⟨d₁,vars₁⟩,here,later⟩ := run
    obtain ⟨t,read,-,-,rfl,rfl⟩ := registerTask_ok.mp here
    obtain ⟨tasks,all,given⟩ := ih later
    exact ⟨t :: tasks,by simp [all],.cons (readTask_ok.mp read) given⟩

theorem tasks_of_accepted {source : List Char} {d : Dag} (accepted : readDag source = .ok d) :
    List.Forall₂ Gives (operatorCalls (Script.source source)) d.tasks := by
  obtain ⟨d₀,d₁,vars,declared,registered,applied,-⟩ := readDag_ok.mp accepted
  obtain ⟨holds,-,-⟩ := registerTasks_ok (registered_nil d₀) registered
  obtain ⟨-,rfl⟩ := (applyStatements_ok holds).mp applied
  obtain ⟨tasks,all,given⟩ := registerTasks_tasks registered
  rw [(empty_of_readDeclared declared).1,List.nil_append] at all
  exact all ▸ given

/-- A computation that does not fail on account of an operator. -/
def Tolerant (x : Except Error α) : Prop :=
  ∀ target operator line, x ≠ .error (.unsupportedOperator target operator line)

theorem Tolerant.bind {x : Except Error α} {f : α → Except Error β} (tolerant : Tolerant x)
    (later : ∀ a, Tolerant (f a)) : Tolerant (x >>= f) := by
  intro target operator line failed
  rcases bind_error.mp failed with first | ⟨a,-,second⟩
  · exact tolerant target operator line first
  · exact later a target operator line second

theorem Tolerant.foldlM {items : List α} {f : β → α → Except Error β}
    (tolerant : ∀ s x, Tolerant (f s x)) (s : β) : Tolerant (items.foldlM f s) := by
  intro target operator line failed
  obtain ⟨-,x,-,s',-,-,here⟩ := foldlM_error.mp failed
  exact tolerant s' x target operator line here

theorem tolerant_ok (a : α) : Tolerant (.ok a : Except Error α) := by simp [Tolerant]

theorem tolerant_dag (x : Except DagError α) : Tolerant (x.mapError Error.dag) := by
  simp [Tolerant,mapError_error]

theorem tolerant_schedule (x : Except ScheduleError α) : Tolerant (x.mapError Error.schedule) := by
  simp [Tolerant,mapError_error]

theorem tolerant_readDeclared (source : List Char) : Tolerant (readDeclared source) := by
  have id (args : Arguments) (line : Nat) : Tolerant (readId args line) := by
    unfold readId
    split <;> simp [Tolerant,invalid]
  have start (args : Arguments) (line : Nat) : Tolerant (readStart args line) := by
    unfold readStart readDateCall
    repeat' split
    all_goals simp [Tolerant,invalid]
  have schedule (args : Arguments) (line : Nat) : Tolerant (readSchedule args line) := by
    unfold readSchedule
    repeat' split
    all_goals first | exact tolerant_schedule _ | simp [Tolerant,invalid]
  have catchup (args : Arguments) (line : Nat) : Tolerant (readCatchup args line) := by
    unfold readCatchup
    split <;> simp [Tolerant,invalid]
  have description (args : Arguments) (line : Nat) : Tolerant (readDescription args line) := by
    unfold readDescription
    split <;> simp [Tolerant,invalid]
  unfold readDeclared
  split
  next => simp [Tolerant]
  next line call found =>
    split
    next => simp [Tolerant]
    next args read =>
      exact (id args line).bind fun _ => (start args line).bind fun _ =>
        (schedule args line).bind fun _ => (catchup args line).bind fun _ =>
          (tolerant_dag _).bind fun _ => (description args line).bind fun _ => tolerant_ok _

theorem tolerant_applyStatement (vars : Variables) (d : Dag) (s : Statement) :
    Tolerant (applyStatement vars d s) := by
  have resolves (name : List Char) : Tolerant (resolve vars s.line name) := by
    unfold resolve
    split <;> simp [Tolerant]
  have each (shift : Shift) (h : TaskHandle) (d : Dag) (names : List (List Char)) :
      Tolerant (linkEach vars s.line shift h d names) :=
    .foldlM (fun _ name => (resolves name).bind fun _ => tolerant_dag _) d
  have chain (first : List (List Char)) (rest : List (Shift × List (List Char))) (d : Dag) :
      Tolerant (linkChain vars s.line d first rest) := by
    induction rest generalizing first d with
    | nil => exact tolerant_ok d
    | cons step rest ih =>
      exact Tolerant.bind (.foldlM (fun d name => (resolves name).bind fun h => each _ h d _) d)
        fun d => ih _ d
  unfold applyStatement
  split
  next => exact tolerant_ok d
  next => simp [Tolerant]
  next task _ => exact (resolves task).bind fun _ => by simp [Tolerant]
  next dep _ =>
    cases dep with
    | groups first rest => exact chain first rest d
    | call task shift others => exact (resolves task).bind fun h => each shift h d others

theorem registerTask_unsupported {state : Dag × Variables} {c : OperatorCall}
    {target operator : String} {line : Nat} :
    registerTask state c = .error (.unsupportedOperator target operator line) ↔
      carriesCommand c.operator = false ∧ target = c.target ∧ operator = c.operator ∧
        line = c.line := by
  have adds (t : Task) : Tolerant ((state.1.addTask t).mapError Error.dag >>= fun added =>
      .ok (added.1,(c.target,added.2) :: state.2)) := (tolerant_dag _).bind fun _ => tolerant_ok _
  have reads : readTask c = .error (.unsupportedOperator target operator line) ↔
      carriesCommand c.operator = false ∧ target = c.target ∧ operator = c.operator ∧
        line = c.line := by
    have argument (args : Arguments) (name : String) : Tolerant (stringArgument args name c.line) := by
      unfold stringArgument
      split <;> simp [Tolerant,invalid]
    unfold readTask
    cases carries : carriesCommand c.operator with
    | false => simp [eq_comm]
    | true =>
      simp only [Bool.not_true,Bool.false_eq_true,if_false,reduceCtorEq,false_and,iff_false]
      split
      next => simp
      next args _ =>
        exact (argument args "task_id").bind (fun _ => (argument args "bash_command").bind fun _ =>
          tolerant_ok _) target operator line
  rw [registerTask,bind_error,reads]
  refine ⟨fun failed => failed.resolve_right ?_,.inl⟩
  rintro ⟨t,-,later⟩
  exact adds t target operator line later

theorem readDag_unsupported {source : List Char} {target operator : String} {line : Nat} :
    readDag source = .error (.unsupportedOperator target operator line) ↔
      ∃ d before c after state, readDeclared source = .ok d ∧
        operatorCalls (Script.source source) = before ++ c :: after ∧
        before.foldlM registerTask (d,[]) = .ok state ∧ carriesCommand c.operator = false ∧
        target = c.target ∧ operator = c.operator ∧ line = c.line := by
  have later (given : Dag × Variables) : Tolerant (do
      let d ← (statements (codeText (Script.source source))).foldlM (applyStatement given.2) given.1
      d.validate.mapError Error.dag
      return d) :=
    (Tolerant.foldlM (tolerant_applyStatement given.2) given.1).bind fun d =>
      (tolerant_dag _).bind fun _ => tolerant_ok d
  rw [readDag_eq,bind_error,or_iff_left]
  · simp only [readTasks,bind_error,foldlM_error,registerTask_unsupported]
    constructor
    · rintro (declaring | ⟨d,declared,before,c,after,state,split,run,other⟩)
      · exact absurd declaring (tolerant_readDeclared source target operator line)
      · exact ⟨d,before,c,after,state,declared,split,run,other⟩
    · rintro ⟨d,before,c,after,state,declared,split,run,other⟩
      exact .inr ⟨d,declared,before,c,after,state,split,run,other⟩
  · rintro ⟨given,-,failed⟩
    exact later given target operator line failed

/-- The statement begins on the line. -/
def BeginsOn (s : Statement) (front rest : List Cell) : Prop :=
  ∃ indent passage behind, rest = indent ++ (passage ++ behind) ∧
    s.Passage front indent passage behind

/-- The statement begins above the line and goes on over its start. -/
def GoesOver (s : Statement) (front rest : List Cell) : Prop :=
  ∃ front' indent above below behind, above ≠ [] ∧ below ≠ [] ∧
    front = front' ++ (indent ++ above) ∧ rest = below ++ behind ∧
    s.Passage front' indent (above ++ below) behind

theorem blank_of_gap {gap : List Cell} (isGap : Gap gap) :
    ∀ c ∈ codeText gap, Text.isBlank c = true ∧ c ≠ '\n' := by
  intro c inside
  obtain ⟨x,member,shown⟩ := List.mem_flatMap.mp inside
  have space := isGap x member
  simp only [isSpace,Bool.or_eq_true,beq_iff_eq] at space
  have white : c = ' ' ∨ c = '\t' := by
    unfold Cell.shown at space
    unfold Cell.code blanked at shown
    split at shown
    next code =>
      rw [List.mem_singleton.mp shown]
      simpa [code] using space
    next hidden =>
      split at shown
      next feed => simp [feed] at space
      next => exact .inl (List.eq_of_mem_replicate shown)
  rcases white with rfl | rfl <;> decide

/-- A line that assigns a call begins a statement, or a statement goes on over its start. -/
theorem Assigns.statement {cells front rest call : List Cell} {line : Nat} {target path : List Char}
    (assigns : Assigns rest target path call) (place : LineAt cells front rest line) :
    ∃ s ∈ statements (codeText cells), BeginsOn s front rest ∨ GoesOver s front rest := by
  cases assigns with
  | @call indent left right between inside _ _ before starts word gap gap' isPath inPath gap'' =>
  obtain ⟨c,more,rfl,visible⟩ := isBlank_of_startsName starts
  obtain ⟨s,member,standing⟩ := exists_passage_at place.begins (blank_of_gap before) visible
    (codeCells more ++ (left ++ codeCell '=' :: (right ++ (codeCells path ++
      (between ++ codeCell '(' :: inside)))))
  rw [place.whole]
  refine ⟨s,member,?_⟩
  rcases standing with ⟨later,behind,split,passage⟩ |
    ⟨front',indent',above,later,behind,some,whole,split,passage⟩
  · exact .inl ⟨indent,codeCell c :: later,behind,congrArg (indent ++ codeCell c :: ·) split,passage⟩
  · refine .inr ⟨front',indent',above,indent ++ codeCell c :: later,behind,some,by simp,whole,?_,passage⟩
    rw [List.append_assoc,List.cons_append,← split]
    rfl

/-- In an accepted file the tasks are those of the lines that assign a call, one to one and in order, and
all calls are of the operator for commands. Another operator that is assigned at the start of a line is
an error, on its line, once all above it are read. -/
theorem every_operator (source : List Char) :
    (∀ d, readDag source = .ok d →
      List.Forall₂ Gives (operatorCalls (Script.source source)) d.tasks) ∧
    (operatorCalls (Script.source source)).Pairwise (·.line < ·.line) ∧
    (∀ c, c ∈ operatorCalls (Script.source source) ↔ ∃ front rest,
      LineAt (Script.source source) front rest c.line ∧
      Assigns rest c.target.toList c.operator.toList c.call ∧
      ∃ s ∈ statements (codeText (Script.source source)),
        BeginsOn s front rest ∨ GoesOver s front rest) ∧
    ∀ target operator line, readDag source = .error (.unsupportedOperator target operator line) ↔
      ∃ d before c after state, readDeclared source = .ok d ∧
        operatorCalls (Script.source source) = before ++ c :: after ∧
        before.foldlM registerTask (d,[]) = .ok state ∧ carriesCommand c.operator = false ∧
        target = c.target ∧ operator = c.operator ∧ line = c.line := by
  refine ⟨fun d => tasks_of_accepted,operatorCalls_sorted _,fun c => ?_,
    fun target operator line => readDag_unsupported⟩
  rw [mem_operatorCalls]
  constructor
  · rintro ⟨front,rest,place,assigns⟩
    exact ⟨front,rest,place,assigns,assigns.statement place⟩
  · rintro ⟨front,rest,place,assigns,-⟩
    exact ⟨front,rest,place,assigns⟩

def declaring (body : String) : List Char :=
  "with DAG('d', start_date='2024-01-01') as dag:\n".toList ++ body.toList

def wrapped : List Char := declaring "    print(\n  a = o.BashOperator(task_id='a', bash_command='x'))\n"

def foreign : List Char := declaring "    a = PythonOperator(task_id='a')\n"

theorem every_operator_wrapped :
    (∃ d, readDag wrapped = .ok d ∧ d.tasks = [⟨"a","x"⟩] ∧
      List.Forall₂ Gives (operatorCalls (Script.source wrapped)) d.tasks) ∧
    (∃ front rest, LineAt (Script.source wrapped) front rest 3 ∧
      ∃ s ∈ statements (codeText (Script.source wrapped)),
        BeginsOn s front rest ∨ GoesOver s front rest) ∧
    readDag foreign = .error (.unsupportedOperator "a" "PythonOperator" 2) := by
  have tasks : (readDag wrapped).map (·.tasks) = .ok [⟨"a","x"⟩] := by decide +kernel
  have call : ∃ c ∈ operatorCalls (Script.source wrapped), c.line = 3 := by decide +kernel
  have declared : (readDeclared foreign).map (·.tasks) = .ok [] := by decide +kernel
  have other : (operatorCalls (Script.source foreign)).map (fun c =>
      (carriesCommand c.operator,c.target,c.operator,c.line)) =
        [(false,"a","PythonOperator",2)] := by decide +kernel
  obtain ⟨d,accepted,all⟩ := map_ok.mp tasks
  obtain ⟨c,member,line⟩ := call
  obtain ⟨d',declared,-⟩ := map_ok.mp declared
  obtain ⟨c',single,same⟩ := List.map_eq_singleton_iff.mp other
  simp only [Prod.mk.injEq] at same
  obtain ⟨noBash,target,operator,line'⟩ := same
  obtain ⟨front,rest,place,-,standing⟩ := ((every_operator wrapped).2.2.1 c).mp member
  exact ⟨⟨d,accepted,all,(every_operator wrapped).1 d accepted⟩,⟨front,rest,line ▸ place,standing⟩,
    ((every_operator foreign).2.2.2 _ _ _).mpr
      ⟨d',[],c',[],(d',[]),declared,single,rfl,noBash,target.symm,operator.symm,line'.symm⟩⟩

def bare : List Char :=
  declaring "    a = BashOperator(task_id='a', bash_command='true')\n" ++
    "    BashOperator(task_id='b', bash_command='true')\n".toList

/-- A call that is a statement of its own gives no task. -/
theorem readDag_bare : (readDag bare).map (·.tasks) = .ok [⟨"a","true"⟩] ∧
    ⟨3,"BashOperator(task_id=   , bash_command=      )".toList⟩ ∈
      statements (codeText (Script.source bare)) := by
  decide +kernel

end PipelineAtlas.Airflow

import PipelineAtlas.Proofs.Airflow.Effect

/-! A file that is run from top to bottom. Reading registers all tasks before it looks at a
dependency. This comes to the same if no operand of a dependency is assigned below it. -/
namespace PipelineAtlas.Airflow

open Fallible Script

/-- What a run meets: an operator call that is assigned to a variable, or a statement. -/
inductive Action where
  | assign (c : OperatorCall)
  | state (s : Statement)
deriving DecidableEq, Repr

def actions (calls : List OperatorCall) : List Statement → List Action
  | [] => calls.map .assign
  | s :: rest =>
    (calls.takeWhile fun c => c.line < s.line).map .assign ++
      .state s :: actions (calls.dropWhile fun c => c.line < s.line) rest

/-- A variable holds the task assigned to it last. -/
def perform (state : Dag × Variables) : Action → Except Error (Dag × Variables)
  | .assign c => registerTask state c
  | .state s => (applyStatement state.2 state.1 s).map fun d => (d,state.2)

def performAll (state : Dag × Variables) (run : List Action) : Except Error Dag :=
  (run.foldlM perform state).map (·.1)

def runDag (source : List Char) : Except Error Dag := do
  let cells := Script.source source
  let d ← readDeclared source
  let d ← performAll (d,[]) (actions (operatorCalls cells) (statements (codeText cells)))
  d.validate.mapError Error.dag
  return d

/-- No call on or below the line of a statement assigns to an operand of it. -/
def AssignedAbove (calls : List OperatorCall) (s : Statement) : Prop :=
  ∀ name ∈ (readDependency s.text).operands, ∀ c ∈ calls,
    c.target = String.ofList name → c.line < s.line

instance (calls : List OperatorCall) (s : Statement) : Decidable (AssignedAbove calls s) :=
  inferInstanceAs (Decidable (∀ name ∈ (readDependency s.text).operands, ∀ c ∈ calls,
    c.target = String.ofList name → c.line < s.line))

theorem operatorCall?_line {line : Nat} {cells : List Cell} {c : OperatorCall}
    (read : operatorCall? line cells = some c) : c.line = line := by
  unfold operatorCall? at read
  grind

theorem lineStartsFrom_sorted (line : Nat) (cells : List Cell) :
    (lineStartsFrom line cells).Pairwise (·.1 < ·.1) ∧
      ∀ start ∈ lineStartsFrom line cells, line < start.1 := by
  induction cells generalizing line with
  | nil => simp [lineStartsFrom]
  | cons x cells ih =>
    unfold lineStartsFrom
    split
    next =>
      obtain ⟨sorted,below⟩ := ih (line + 1)
      refine ⟨List.pairwise_cons.mpr ⟨below,sorted⟩,?_⟩
      intro start inside
      rcases List.mem_cons.mp inside with rfl | later
      · exact Nat.lt_succ_self line
      · exact Nat.lt_of_succ_lt (below start later)
    next => exact ih line

theorem operatorCalls_sorted (cells : List Cell) :
    (operatorCalls cells).Pairwise (·.line < ·.line) := by
  obtain ⟨sorted,below⟩ := lineStartsFrom_sorted 1 cells
  have starts : (lineStarts cells).Pairwise (·.1 < ·.1) := List.pairwise_cons.mpr ⟨below,sorted⟩
  refine List.Pairwise.filterMap _ ?_ starts
  intro start start' before c read c' read'
  rw [operatorCall?_line read,operatorCall?_line read']
  exact before

theorem performAll_assign (state : Dag × Variables) (calls : List OperatorCall)
    (rest : List Action) : performAll state (calls.map .assign ++ rest) =
      (calls.foldlM registerTask state >>= fun state => performAll state rest) := by
  simp only [performAll,List.foldlM_append,List.foldlM_map,perform]
  cases calls.foldlM registerTask state <;> rfl

theorem performAll_state (state : Dag × Variables) (s : Statement) (rest : List Action) :
    performAll state (.state s :: rest) =
      (applyStatement state.2 state.1 s >>= fun d => performAll (d,state.2) rest) := by
  simp only [performAll,List.foldlM_cons,perform]
  cases applyStatement state.2 state.1 s <;> rfl

theorem linked_congr {vars vars' : Variables} {r : Reading}
    (same : ∀ name ∈ r.operands, vars'.lookup (String.ofList name) = vars.lookup (String.ofList name))
    (d : Dag) : linked vars' r.links d = linked vars r.links d := by
  have edges : r.links.filterMap (Link.edge? vars') = r.links.filterMap (Link.edge? vars) := by
    refine List.filterMap_congr fun l inside => ?_
    obtain ⟨source,target⟩ := Reading.mem_operands inside
    simp only [Link.edge?,same _ source,same _ target]
  simp only [linked,edges]

theorem applyStatement_commutes {d d' : Dag} {vars vars' : Variables} {calls : List OperatorCall}
    {s : Statement} (registered : Registered d vars)
    (apart : ∀ name ∈ (readDependency s.text).operands, ∀ c ∈ calls,
      c.target ≠ String.ofList name) :
    (∃ d₁, applyStatement vars d s = .ok d₁ ∧
        calls.foldlM registerTask (d₁,vars) = .ok (d',vars')) ↔
      ∃ d₁, calls.foldlM registerTask (d,vars) = .ok (d₁,vars') ∧
        applyStatement vars' d₁ s = .ok d' := by
  have agree {d₁ : Dag} (run : calls.foldlM registerTask (d,vars) = .ok (d₁,vars')) :
      Registered d₁ vars' ∧ d₁.edges = d.edges ∧
        ∀ name ∈ (readDependency s.text).operands,
          vars'.lookup (String.ofList name) = vars.lookup (String.ofList name) := by
    obtain ⟨registered',edges,kept⟩ := registerTasks_ok registered run
    exact ⟨registered',edges,fun name inside => kept _ (apart name inside)⟩
  constructor
  · rintro ⟨_,applied,later⟩
    obtain ⟨sense,known,rfl⟩ := (applyStatement_ok registered).mp applied
    obtain ⟨d₁,run,rfl⟩ := (registerTasks_edges _).mp later
    obtain ⟨registered',edges,same⟩ := agree run
    refine ⟨d₁,run,(applyStatement_ok registered').mpr ⟨sense,?_,?_⟩⟩
    · intro name inside
      rw [same name inside]
      exact known name inside
    · rw [linked_congr same]
      simp only [linked,edges]
  · rintro ⟨d₁,run,applied⟩
    obtain ⟨registered',edges,same⟩ := agree run
    obtain ⟨sense,known,rfl⟩ := (applyStatement_ok registered').mp applied
    refine ⟨_,(applyStatement_ok registered).mpr ⟨sense,?_,rfl⟩,
      (registerTasks_edges _).mpr ⟨d₁,run,?_⟩⟩
    · intro name inside
      rw [← same name inside]
      exact known name inside
    · rw [linked_congr same]
      simp only [linked,edges]

/-- Registering everything first and then applying the statements comes to the same as the run. -/
theorem performAll_actions {d r : Dag} {vars : Variables} {calls : List OperatorCall}
    {statements : List Statement} (registered : Registered d vars)
    (sorted : calls.Pairwise (·.line < ·.line))
    (above : ∀ s ∈ statements, AssignedAbove calls s) :
    performAll (d,vars) (actions calls statements) = .ok r ↔
      ∃ d₁ vars₁, calls.foldlM registerTask (d,vars) = .ok (d₁,vars₁) ∧
        statements.foldlM (applyStatement vars₁) d₁ = .ok r := by
  induction statements generalizing d vars calls with
  | nil =>
    have run := performAll_assign (d,vars) calls []
    rw [List.append_nil] at run
    rw [actions,run,bind_ok,Prod.exists]
    rfl
  | cons s statements ih =>
    let front := calls.takeWhile fun c => c.line < s.line
    let back := calls.dropWhile fun c => c.line < s.line
    have whole : front ++ back = calls := List.takeWhile_append_dropWhile
    have sortedBack : back.Pairwise (·.line < ·.line) :=
      sorted.sublist (List.dropWhile_sublist _)
    have inCalls : ∀ c ∈ back, c ∈ calls := fun c inside =>
      (List.dropWhile_sublist _).subset inside
    have below : ∀ c ∈ back, ¬ c.line < s.line := by
      intro c inside
      cases start : back with
      | nil => simp [start] at inside
      | cons first rest =>
        have stops : ¬ first.line < s.line := by
          simpa [back,start] using List.head?_dropWhile_not (fun c => decide (c.line < s.line)) calls
        rw [start] at inside sortedBack
        rcases List.mem_cons.mp inside with rfl | later
        · exact stops
        · exact fun less => stops (Nat.lt_trans ((List.pairwise_cons.mp sortedBack).1 c later) less)
    have apart : ∀ name ∈ (readDependency s.text).operands, ∀ c ∈ back,
        c.target ≠ String.ofList name := fun name operand c inside same =>
      below c inside (above s (by simp) name operand c (inCalls c inside) same)
    have aboveBack : ∀ x ∈ statements, AssignedAbove back x := fun x inside name operand c member =>
      above x (List.mem_cons_of_mem s inside) name operand c (inCalls c member)
    have split : calls.foldlM registerTask (d,vars) =
        front.foldlM registerTask (d,vars) >>= fun state => back.foldlM registerTask state := by
      rw [← List.foldlM_append,whole]
    rw [actions,performAll_assign,split]
    simp only [bind_ok,performAll_state,Prod.exists,List.foldlM_cons]
    constructor
    · rintro ⟨d₁,vars₁,run,d₂,applied,rest⟩
      have registered₁ := (registerTasks_ok registered run).1
      obtain ⟨-,-,rfl⟩ := (applyStatement_ok registered₁).mp applied
      obtain ⟨d₃,vars₂,runBack,rest⟩ := (ih registered₁.linked sortedBack aboveBack).mp rest
      obtain ⟨d₄,runBack,applied⟩ :=
        (applyStatement_commutes registered₁ apart).mp ⟨_,applied,runBack⟩
      exact ⟨d₄,vars₂,⟨d₁,vars₁,run,runBack⟩,d₃,applied,rest⟩
    · rintro ⟨d₄,vars₂,⟨d₁,vars₁,run,runBack⟩,d₃,applied,rest⟩
      have registered₁ := (registerTasks_ok registered run).1
      obtain ⟨d₂,applied,runBack⟩ :=
        (applyStatement_commutes registered₁ apart).mpr ⟨d₄,runBack,applied⟩
      refine ⟨d₁,vars₁,run,d₂,applied,?_⟩
      obtain ⟨-,-,rfl⟩ := (applyStatement_ok registered₁).mp applied
      exact (ih registered₁.linked sortedBack aboveBack).mpr ⟨d₃,vars₂,runBack,rest⟩

theorem runDag_ok {source : List Char} {d : Dag} :
    runDag source = .ok d ↔ ∃ d₀, readDeclared source = .ok d₀ ∧
      performAll (d₀,[]) (actions (operatorCalls (Script.source source))
        (statements (codeText (Script.source source)))) = .ok d ∧ d.validate = .ok () := by
  simp only [runDag]
  simp only [bind_ok,mapError_ok,pure,Except.pure,Except.ok.injEq]
  constructor
  · rintro ⟨d₀,declared,_,run,_,valid,rfl⟩
    exact ⟨d₀,declared,run,valid⟩
  · rintro ⟨d₀,declared,run,valid⟩
    exact ⟨d₀,declared,d,run,(),valid,rfl⟩

/-- Where no operand is assigned below its statement, reading a file gives the DAG of its run from top
to bottom, also if variables are assigned more than once, and fails if the run does. -/
theorem readDag_iff_runDag (source : List Char) (d : Dag)
    (above : ∀ s ∈ statements (codeText (Script.source source)),
      AssignedAbove (operatorCalls (Script.source source)) s) :
    readDag source = .ok d ↔ runDag source = .ok d := by
  rw [readDag_ok,runDag_ok]
  simp only [performAll_actions (registered_nil _) (operatorCalls_sorted _) above]
  constructor
  · rintro ⟨d₀,d₁,vars,declared,registered,applied,valid⟩
    exact ⟨d₀,declared,⟨d₁,vars,registered,applied⟩,valid⟩
  · rintro ⟨d₀,declared,⟨d₁,vars,registered,applied⟩,valid⟩
    exact ⟨d₀,d₁,vars,declared,registered,applied,valid⟩

/-- A file that assigns to `a`, to `b`, and between two texts to `a` again. -/
def reassigning (above below : String) : List Char :=
  "with DAG('d', start_date='2024-01-01') as dag:\n".toList ++
    "    a = BashOperator(task_id='a1', bash_command='true')\n".toList ++
    "    b = BashOperator(task_id='b1', bash_command='true')\n".toList ++ above.toList ++
    "    a = BashOperator(task_id='a2', bash_command='true')\n".toList ++ below.toList

theorem readDag_iff_runDag_reassigning :
    (∀ s ∈ statements (codeText (Script.source (reassigning "" "    a >> b\n"))),
      AssignedAbove (operatorCalls (Script.source (reassigning "" "    a >> b\n"))) s) ∧
    ∃ d, runDag (reassigning "" "    a >> b\n") = .ok d ∧
      readDag (reassigning "" "    a >> b\n") = .ok d ∧ d.edges = [⟨"a2","b1"⟩] := by
  have above : ∀ s ∈ statements (codeText (Script.source (reassigning "" "    a >> b\n"))),
      AssignedAbove (operatorCalls (Script.source (reassigning "" "    a >> b\n"))) s := by
    decide +kernel
  have linked : (runDag (reassigning "" "    a >> b\n")).map (·.edges) =
      .ok [⟨"a2","b1"⟩] := by decide +kernel
  obtain ⟨d,run,edges⟩ := map_ok.mp linked
  exact ⟨above,d,run,(readDag_iff_runDag _ d above).mpr run,edges⟩

theorem readDag_reassigning_below :
    (runDag (reassigning "    a >> b\n" "")).map (·.edges) = .ok [⟨"a1","b1"⟩] ∧
      (readDag (reassigning "    a >> b\n" "")).map (·.edges) = .ok [⟨"a2","b1"⟩] := by
  decide +kernel

end PipelineAtlas.Airflow

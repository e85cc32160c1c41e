import PipelineAtlas.Airflow.Declaration
import PipelineAtlas.Airflow.Dependency

/-! Reading the DAG of an Airflow file: its declaration, then the tasks of its operators, then its
dependencies. -/
namespace PipelineAtlas.Airflow

open Script

def stringArgument (args : Arguments) (name : String) (line : Nat) : Except Error String :=
  match args.byKey name with
  | some (.string s) => .ok s
  | some v => .error (invalid name v line)
  | none => .error (.missingArgument "BashOperator" name line)

def carriesCommand (operator : String) : Bool :=
  (segments operator.toList).getLast? == some "BashOperator".toList

def readTask (c : OperatorCall) : Except Error Task :=
  if !carriesCommand c.operator then
    .error (.unsupportedOperator c.target c.operator c.line)
  else
    match callArguments? c.call with
    | none => .error (.unterminated c.line)
    | some args => do
      let id ← stringArgument args "task_id" c.line
      let command ← stringArgument args "bash_command" c.line
      return ⟨id,command⟩

def registerTask (state : Dag × Variables) (c : OperatorCall) : Except Error (Dag × Variables) := do
  let t ← readTask c
  let (d,h) ← (state.1.addTask t).mapError Error.dag
  return (d,(c.target,h) :: state.2)

def readDag (source : List Char) : Except Error Dag := do
  let cells := Script.source source
  let some (line,call) := declaration? cells | .error .noDeclaration
  let some args := callArguments? call | .error (.unterminated line)
  let d ← readDeclaration args line
  let (d,vars) ← (operatorCalls cells).foldlM registerTask (d,[])
  let d ← (statements (codeText cells)).foldlM (applyStatement vars) d
  d.validate.mapError Error.dag
  return d

end PipelineAtlas.Airflow

import PipelineAtlas.Dag

/-! What can be wrong with an Airflow file. Lines are counted from 1. -/
namespace PipelineAtlas.Airflow

inductive Error where
  | unreadableFile
  | noDeclaration
  | missingArgument (call name : String) (line : Nat)
  | invalidArgument (name value : String) (line : Nat)
  | unsupportedOperator (target operator : String) (line : Nat)
  | unknownTask (target : String) (line : Nat)
  | unreadableDependency (statement : String) (line : Nat)
  | unterminated (line : Nat)
  | dag (e : DagError)
  | schedule (e : ScheduleError)
deriving DecidableEq, Repr

def Error.message : Error → String
  | .unreadableFile => "failed to read file"
  | .noDeclaration => "no DAG(...) declaration found"
  | .missingArgument call name line =>
    call ++ "(...) at line " ++ toString line ++ " is missing '" ++ name ++ "'"
  | .invalidArgument name value line =>
    "line " ++ toString line ++ ": unsupported value for '" ++ name ++ "': " ++ value
  | .unsupportedOperator target operator line =>
    "line " ++ toString line ++ ": '" ++ target ++ "' uses " ++ operator ++
      "; only BashOperator carries a shell command"
  | .unknownTask target line =>
    "line " ++ toString line ++ ": unknown task variable '" ++ target ++ "'"
  | .unreadableDependency statement line =>
    "line " ++ toString line ++ ": cannot read dependency statement '" ++ statement ++ "'"
  | .unterminated line => "unterminated call starting at line " ++ toString line
  | .dag e => e.message
  | .schedule e => e.message

end PipelineAtlas.Airflow

import PipelineAtlas.Dag.Builder
import PipelineAtlas.Instant.Reading

/-! Definitions of DAGs as they stand in definition files, what can be wrong with them, and the
settings of a scan. -/
namespace PipelineAtlas

structure TaskDefinition where
  id : String
  command : String
  dependsOn : List String
deriving DecidableEq, Repr

/-- A DAG with its start and its schedule still as texts. Without a schedule it is manual. -/
structure Definition where
  id : String
  description : Option String
  start : String
  schedule : Option String
  catchup : Bool
  tasks : List TaskDefinition
deriving DecidableEq, Repr

inductive DefinitionError where
  | unreadableFile
  | unreadableDirectory
  | notADirectory (path : String)
  | malformedText
  | malformedFile
  | missingField (name : String)
  | invalidStart (text : String)
  | invalidSchedule (expression : String) (e : ScheduleError)
  | noTasks
  | duplicateTask (task : String)
  | selfDependency (task : String)
  | unknownDependency (task dependency : String)
  | repeatedDependency (task dependency : String)
  | dependencyCycle (tasks : List String)
  | dag (e : DagError)
deriving DecidableEq, Repr

namespace DefinitionError

def detail : DefinitionError → String
  | .notADirectory path => "'" ++ path ++ "' is not a directory"
  | .invalidStart text =>
    "invalid start_date '" ++ text ++ "': expected YYYY-MM-DD or an RFC 3339 timestamp"
  | .invalidSchedule expression e => "invalid schedule '" ++ expression ++ "': " ++ e.message
  | .noTasks => "DAG must have at least one task"
  | .duplicateTask task => "duplicate task id: " ++ task
  | .selfDependency task => "task '" ++ task ++ "' cannot depend on itself"
  | .unknownDependency task dependency =>
    "task '" ++ task ++ "' depends on unknown task '" ++ dependency ++ "'"
  | .repeatedDependency task dependency =>
    "task '" ++ task ++ "' has duplicate dependency '" ++ dependency ++ "'"
  | .dependencyCycle tasks =>
    "dependency cycle detected involving tasks: " ++ ", ".intercalate tasks
  | _ => ""

def message : DefinitionError → String
  | .unreadableFile => "failed to read file"
  | .unreadableDirectory => "failed to read directory"
  | .malformedText | .malformedFile => "YAML parse error"
  | .missingField name => "missing required field: " ++ name
  | .dag e => e.message
  | e => "invalid configuration: " ++ e.detail

end DefinitionError

def Definition.readStart (text : String) : Except DefinitionError Instant :=
  match Instant.read? text.toList with
  | some i => .ok i
  | none => .error (.invalidStart (String.ofList (Text.trim text.toList)))

structure SourceToggles where
  airflow : Bool := true
  prefect : Bool := true
  dbt : Bool := true
  githubActions : Bool := true
  definitions : Bool := true
deriving DecidableEq, Repr

/-- Settings of a scan. Directories with an ignored name are passed over, as are larger files. -/
structure ScanSettings where
  ignoredDirectories : List String :=
    [".git","node_modules","target",".venv","venv","__pycache__","dist"]
  sources : SourceToggles := {}
  maxFileBytes : Nat := 1048576
deriving DecidableEq, Repr

end PipelineAtlas

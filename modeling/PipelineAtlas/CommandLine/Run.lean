import PipelineAtlas.CommandLine
import PipelineAtlas.CommandLine.Report
import PipelineAtlas.Dag.Example
import PipelineAtlas.Loading

/-! Running a command over what stands at the paths that it names. -/
namespace PipelineAtlas.CommandLine

/-- What a run ends with: an exit code, what it prints, and what it complains of. -/
structure Outcome where
  code : Nat
  output : String
  complaint : String := ""
deriving DecidableEq, Repr

inductive Failure where
  | definition (e : DefinitionError)
  | airflow (e : Airflow.Error)
  | dag (e : DagError)
  | notADirectory (path : String)
  | notFound (label : String)
deriving DecidableEq, Repr

def Failure.message : Failure → String
  | .definition e => e.message
  | .airflow e => e.message
  | .dag e => e.message
  | .notADirectory path => "'" ++ path ++ "' is not a directory"
  | .notFound label => "node '" ++ label ++ "' not found"

def settingsPath (root : String) : String := root ++ "/dagscout.yaml"

/-- The settings at a path that is given, else those of the workspace, else the usual ones. -/
def settings (paths : Paths) (root : String) (path : Option String) :
    Except Failure ScanSettings :=
  match path with
  | some path => (paths.loadSettings path).mapError .definition
  | none =>
    match paths (settingsPath root) with
    | some (.file _) => (paths.loadSettings (settingsPath root)).mapError .definition
    | _ => .ok {}

def graph (paths : Paths) (root : String) (path : Option String) :
    Except Failure PipelineGraph := do
  let settings ← settings paths root path
  match paths.scan? settings root with
  | some g => return g
  | none => .error (.notADirectory root)

/-- The DAGs at a path: a directory of definitions, an Airflow file, or a definition file. -/
def dags (paths : Paths) (path : String) : Except Failure (List Dag) :=
  if paths.isDirectory path then (paths.loadDirectory path).mapError .definition
  else if FileName.extension? (FileName.ofPath path) = some "py" then
    ((paths.loadAirflow path).map fun d => [d]).mapError .airflow
  else ((paths.loadDefinition path).map fun d => [d]).mapError .definition

def graphText (format : GraphFormat) (g : PipelineGraph) : String :=
  match format with
  | .mermaid => line (Mermaid.ofGraph g)
  | .json => line g.toJson.pretty

def describe (d : Dag) : Except Failure String := (dagText d).mapError .dag

def exampleText (format : DagFormat) : Except Failure String := do
  let d ← exampleDag.mapError .dag
  match format with
  | .text => describe d
  | .mermaid => return line (Mermaid.ofDag d)
  | .json => return line d.toJson.pretty

def locationLines (g : PipelineGraph) (label : String) : Except Failure String :=
  match g.findByLabel label with
  | [] => .error (.notFound label)
  | found => .ok ("".intercalate (found.filterMap fun (_,l) => l.map fun l => line l.text))

/-- The DAGs at a path as texts or flowcharts, with an empty line behind each. -/
def display (paths : Paths) (path : String) (mermaid : Bool) : Except Failure String := do
  match ← dags paths path with
  | [] => return line ("No DAGs found in " ++ path)
  | ds =>
    let texts ← ds.mapM fun d =>
      if mermaid then .ok (line (Mermaid.ofDag d)) else describe d
    return "".intercalate (texts.map line)

def helpText : String :=
  line "Usage: dagscout <COMMAND>" ++ line "" ++ line "Commands:" ++
    line "  scan <ROOT>            Print the pipeline graph of a workspace" ++
    line "  locate <ROOT> <LABEL>  Print where the nodes with a label are" ++
    line "  validate <PATH>        Check DAG definitions" ++
    line "  show <PATH>            Print DAGs with their tasks in execution order" ++
    line "  example                Print the example DAG"

def perform (paths : Paths) : Command → Except Failure String
  | .scan root format path => (graph paths root path).map (graphText format)
  | .locate root label path => do locationLines (← graph paths root path) label
  | .validate path => (dags paths path).map fun _ => ""
  | .display path mermaid => display paths path mermaid
  | .example format => exampleText format
  | .help => .ok helpText
  | .version => .ok (line "dagscout 0.1.0")

def run (paths : Paths) (args : List String) : Outcome :=
  match read? args with
  | none => ⟨2,"",helpText⟩
  | some command =>
    match perform paths command with
    | .ok output => ⟨0,output,""⟩
    | .error e => ⟨1,"",line ("Error: " ++ e.message)⟩

def pathsOf : Command → List String
  | .scan root _ path | .locate root _ path => root :: settingsPath root :: path.toList
  | .validate path | .display path _ => [path]
  | .example _ | .help | .version => []

end PipelineAtlas.CommandLine

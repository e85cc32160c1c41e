import PipelineAtlas.Graph
import PipelineAtlas.NodeId
import PipelineAtlas.Text.Lines
import PipelineAtlas.Yaml.Value

/-! Workflows of GitHub Actions: their jobs and what the jobs need. -/
namespace PipelineAtlas.Workflow

open Text

def keyForms (name : String) : List String :=
  [name ++ ":","\"" ++ name ++ "\":","'" ++ name ++ "':"]

def linesBelowJobs (content : List Char) : List (List Char × Nat) :=
  let below := (((lines content).zipIdx 1).dropWhile fun (line,_) =>
    !"jobs:".toList.isPrefixOf line).drop 1
  below.map fun (line,n) => (trim line,n)

def hasKey (name : String) (line : List Char) : Bool :=
  (keyForms name).any fun form => form.toList.isPrefixOf line

/-- The number of the line with the key of a job, and 1 if there is none. -/
def jobLine (below : List (List Char × Nat)) (name : String) : Nat :=
  match below.find? fun (line,_) => hasKey name line with
  | some (_,n) => n
  | none => 1

/-- The jobs that a job needs: a single name, or the names in a sequence. -/
def needs (job : Yaml.Value) : List String :=
  match job.field? "needs" with
  | some (.string need) => [need]
  | some (.sequence items) => items.filterMap (·.text?)
  | _ => []

def jobs (v : Yaml.Value) : List (String × List String) :=
  match (v.field? "jobs").bind (·.entries?) with
  | some entries => entries.filterMap fun (key,job) => key.text?.map fun name => (name,needs job)
  | none => []

def addNeed (file job : String) (g : PipelineGraph) (need : String) : PipelineGraph :=
  (g.addNode (nodeId file need) need).addEdge (nodeId file need) (nodeId file job)

def extract (v : Yaml.Value) (content : List Char) (file : String) (g : PipelineGraph) :
    PipelineGraph :=
  let below := linesBelowJobs content
  (jobs v).foldl
    (fun g (name,needs) =>
      needs.foldl (addNeed file name)
        (g.define (nodeId file name) name ⟨file,jobLine below name⟩)) g

end PipelineAtlas.Workflow

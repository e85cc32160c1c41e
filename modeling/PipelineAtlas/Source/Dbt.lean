import PipelineAtlas.Graph
import PipelineAtlas.NodeId
import PipelineAtlas.Source.NamingLine
import PipelineAtlas.Text.Word
import PipelineAtlas.Yaml.Value

/-! Models of dbt. A model is an SQL file, named like it, and refers to others by `ref('name')`;
schema files list models. Models have one name in all of a project. -/
namespace PipelineAtlas.Dbt

open Text

def modelId (model : String) : String := nodeId "dbt" model

def quoted? (s : List Char) : Option (List Char) :=
  match trimLeft s with
  | c :: rest => if Source.isQuoteMark c then some rest else none
  | [] => none

def closes (s : List Char) : Bool :=
  match s with
  | c :: rest => Source.isQuoteMark c && (trimLeft rest).head? == some ')'
  | [] => false

def isModelChar (c : Char) : Bool := isWord c || c == '.' || c == '-'

/-- The model that a reference at the start of a text names. -/
def referenceHere? (s : List Char) : Option String := do
  let inner ← quoted? (← Source.behind? "ref(".toList s)
  let name := inner.takeWhile isModelChar
  if !name.isEmpty && closes (inner.drop name.length) then some (String.ofList name) else none

def references : List Char → List String
  | [] => []
  | c :: cs => (referenceHere? (c :: cs)).toList ++ references cs

def addReference (model file : String) (line : Nat) (g : PipelineGraph) (target : String) :
    PipelineGraph :=
  (g.mention (modelId target) target ⟨file,line⟩).addEdge (modelId target) (modelId model)

def extractModel (content : List Char) (model file : String) (g : PipelineGraph) : PipelineGraph :=
  ((lines content).zipIdx 1).foldl
    (fun g (line,n) => (references line).foldl (addReference model file n) g)
    (g.define (modelId model) model ⟨file,1⟩)

def listed (v : Yaml.Value) : List String :=
  match (v.field? "models").bind (·.items?) with
  | some models => models.filterMap fun m => (m.field? "name").bind (·.text?)
  | none => []

def extractSchema (v : Yaml.Value) (content : List Char) (file : String) (g : PipelineGraph) :
    PipelineGraph :=
  let ls := trimmedLines content
  (listed v).foldl
    (fun g name =>
      g.mention (modelId name) name ⟨file,Source.lineGiving ["- name:","name:"] name ls⟩) g

end PipelineAtlas.Dbt

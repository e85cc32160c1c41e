import PipelineAtlas.Definition.Reading
import PipelineAtlas.Graph
import PipelineAtlas.NodeId
import PipelineAtlas.Source.NamingLine

/-! Definition files among the YAML files of a workspace. -/
namespace PipelineAtlas.DefinitionFile

def definition? (v : Yaml.Value) : Option Definition :=
  if (v.field? "tasks").isSome then Definition.read Yaml.Value.reader v else none

def addDependency (file task : String) (g : PipelineGraph) (dependency : String) : PipelineGraph :=
  (g.addNode (nodeId file dependency) dependency).addEdge
    (nodeId file dependency) (nodeId file task)

def addTask (ls : List (List Char)) (file : String) (g : PipelineGraph) (t : TaskDefinition) :
    PipelineGraph :=
  t.dependsOn.foldl (addDependency file t.id)
    (g.define (nodeId file t.id) t.id ⟨file,Source.lineGiving ["- id:"] t.id ls⟩)

def extract (v : Yaml.Value) (content : List Char) (file : String) (g : PipelineGraph) :
    PipelineGraph :=
  match definition? v with
  | some d => d.tasks.foldl (addTask (Text.trimmedLines content) file) g
  | none => g

end PipelineAtlas.DefinitionFile

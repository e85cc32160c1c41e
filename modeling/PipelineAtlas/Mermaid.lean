import PipelineAtlas.Dag
import PipelineAtlas.Graph
import PipelineAtlas.NodeId

/-! Mermaid flowcharts: a header, a line for each node, a line for each edge. -/
namespace PipelineAtlas.Mermaid

def escapeLabel (label : String) : String :=
  String.ofList (label.toList.flatMap fun c => if c = '"' then ['\\','"'] else [c])

def nodeLine (id label : String) : String :=
  "\n  " ++ id ++ "[\"" ++ escapeLabel (if label.isEmpty then id else label) ++ "\"]"

def edgeLine (source target : String) : String := "\n  " ++ source ++ " --> " ++ target

def flowchart (nodes edges : List (String × String)) : String :=
  "flowchart TD" ++ String.join (nodes.map fun (id,label) => nodeLine id label) ++
    String.join (edges.map fun (source,target) => edgeLine source target)

def ofDag (d : Dag) : String :=
  flowchart (d.tasks.map fun t => (nodeId d.id t.id,t.id))
    (d.edges.map fun e => (nodeId d.id e.source,nodeId d.id e.target))

def ofGraph (g : PipelineGraph) : String :=
  flowchart (g.nodes.map fun n => (n.id,n.label)) (g.edges.map fun e => (e.source,e.target))

end PipelineAtlas.Mermaid

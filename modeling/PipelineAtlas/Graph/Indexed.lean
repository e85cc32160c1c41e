import Mathlib.Data.Finmap
import PipelineAtlas.Graph

/-! Pipeline graphs with an index. The places of the nodes are kept by name and the edges once more as
a set, so that no list is searched when a node or an edge is added. -/
namespace PipelineAtlas

structure IndexedGraph extends PipelineGraph where
  positions : Finmap fun _ : String => Nat := ∅
  edgeSet : Finset GraphEdge := ∅
deriving DecidableEq

namespace IndexedGraph

def empty : IndexedGraph := {}

/-- Gives a new label to the node at the place of a name, or adds a node if the name has no place.
There is no result where no node is at that place. -/
def addNode (g : IndexedGraph) (id label : String) : Option IndexedGraph :=
  match g.positions.lookup id with
  | some i => g.nodes[i]?.map fun n => { g with nodes := g.nodes.set i ⟨n.id,label⟩ }
  | none =>
    some
      { g with
        positions := g.positions.insert id g.nodes.length
        nodes := g.nodes ++ [⟨id,label⟩] }

def define (g : IndexedGraph) (id label : String) (l : Location) : Option IndexedGraph :=
  (g.addNode id label).map fun g => { g with locations := g.locations.put id l }

def mention (g : IndexedGraph) (id label : String) (l : Location) : Option IndexedGraph :=
  (g.addNode id label).map fun g => { g with locations := g.locations.putNew id l }

/-- The set says whether the edge is new; only then does the list grow. -/
def addEdge (g : IndexedGraph) (source target : String) : IndexedGraph :=
  let e : GraphEdge := ⟨source,target⟩
  if e ∈ g.edgeSet then g
  else { g with edgeSet := insert e g.edgeSet,edges := g.edges ++ [e] }

end IndexedGraph

end PipelineAtlas

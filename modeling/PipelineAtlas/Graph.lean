import PipelineAtlas.Json

/-! Pipeline graphs: labelled nodes, edges between node names, and the places where nodes were
found. -/
namespace PipelineAtlas

/-- A line of a file; the first line is 1. -/
structure Location where
  file : String
  line : Nat
deriving DecidableEq, Repr

def Location.text (l : Location) : String := l.file ++ ":" ++ toString l.line

structure GraphNode where
  id : String
  label : String
deriving DecidableEq, Repr

structure GraphEdge where
  source : String
  target : String
deriving DecidableEq, Repr

/-- Locations by node name, in the order of the names. -/
abbrev Locations := List (String × Location)

namespace Locations

def put (id : String) (l : Location) : Locations → Locations
  | [] => [(id,l)]
  | (key,old) :: rest =>
    if id = key then (key,l) :: rest
    else if id < key then (id,l) :: (key,old) :: rest
    else (key,old) :: put id l rest

def find? (ls : Locations) (id : String) : Option Location := ls.lookup id

def putNew (id : String) (l : Location) (ls : Locations) : Locations :=
  if (ls.find? id).isSome then ls else put id l ls

end Locations

/-- Nodes and edges stand in the order in which they were first seen. -/
structure PipelineGraph where
  nodes : List GraphNode := []
  edges : List GraphEdge := []
  locations : Locations := []
deriving DecidableEq, Repr

namespace PipelineGraph

def empty : PipelineGraph := {}

def position? (g : PipelineGraph) (id : String) : Option Nat := g.nodes.findIdx? (·.id == id)

def contains (g : PipelineGraph) (id : String) : Bool := g.nodes.any (·.id == id)

def addNode (g : PipelineGraph) (id label : String) : PipelineGraph :=
  { g with
    nodes :=
      if g.contains id then g.nodes.map fun n => if n.id == id then ⟨n.id,label⟩ else n
      else g.nodes ++ [⟨id,label⟩] }

def define (g : PipelineGraph) (id label : String) (l : Location) : PipelineGraph :=
  let g := g.addNode id label
  { g with locations := g.locations.put id l }

/-- Adds a node at a place that refers to it; a location already known stays. -/
def mention (g : PipelineGraph) (id label : String) (l : Location) : PipelineGraph :=
  let g := g.addNode id label
  { g with locations := g.locations.putNew id l }

def addEdge (g : PipelineGraph) (source target : String) : PipelineGraph :=
  if g.edges.contains ⟨source,target⟩ then g
  else { g with edges := g.edges ++ [⟨source,target⟩] }

def location? (g : PipelineGraph) (id : String) : Option Location := g.locations.find? id

def findByLabel (g : PipelineGraph) (label : String) : List (GraphNode × Option Location) :=
  (g.nodes.filter (·.label == label)).map fun n => (n,g.location? n.id)

def isEmpty (g : PipelineGraph) : Bool := g.nodes.isEmpty

def toJson (g : PipelineGraph) : Json :=
  .object
    [("nodes",.array (g.nodes.map fun n =>
        .object [("id",.string n.id),("label",.string n.label)])),
      ("edges",.array (g.edges.map fun e =>
        .object [("from",.string e.source),("to",.string e.target)])),
      ("mapping",.object (g.locations.map fun (id,l) =>
        (id,.object [("file",.string l.file),("line",.number l.line)])))]

end PipelineGraph

end PipelineAtlas

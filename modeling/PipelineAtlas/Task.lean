/-! Shell tasks, the handles that stand for registered tasks, and the edges between tasks. -/
namespace PipelineAtlas

structure Task where
  id : String
  command : String
deriving DecidableEq, Repr

/-- A task registered with the DAG of the given name. -/
structure TaskHandle where
  dag : String
  task : String
deriving DecidableEq, Repr

/-- The source must be complete before the target starts. -/
structure Edge where
  source : String
  target : String
deriving DecidableEq, Repr

def Edge.successors (edges : List Edge) (id : String) : List String :=
  (edges.filter (·.source == id)).map (·.target)

def Edge.predecessors (edges : List Edge) (id : String) : List String :=
  (edges.filter (·.target == id)).map (·.source)

def Edge.insert (edges : List Edge) (e : Edge) : List Edge :=
  if edges.contains e then edges else edges ++ [e]

end PipelineAtlas

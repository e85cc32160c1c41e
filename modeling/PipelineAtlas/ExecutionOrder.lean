import PipelineAtlas.Task

/-! Execution orders. A sweep emits the tasks that wait for nothing, first come first served, and
releases what waited for them. Tasks that are never released are blocked: they lie on a cycle or
behind one. -/
namespace PipelineAtlas

/-- How many tasks each task still waits for. -/
abbrev Waiting := List (String × Nat)

namespace Waiting

def start (ids : List String) (edges : List Edge) : Waiting :=
  ids.map fun id => (id,edges.countP (·.target == id))

def count (w : Waiting) (id : String) : Nat := (w.lookup id).getD 0

def release (w : Waiting) (id : String) : Waiting :=
  w.map fun p => if p.1 == id then (p.1,p.2 - 1) else p

end Waiting

/-- A sweep under way: the counts, the tasks ready to be emitted, and those emitted, last first. -/
structure Sweep where
  waiting : Waiting
  ready : List String
  emitted : List String
deriving DecidableEq, Repr

namespace Sweep

/-- The sweep with the given counts. What waits for nothing is ready, in the order of the tasks. -/
def ofWaiting (ids : List String) (waiting : Waiting) : Sweep :=
  ⟨waiting,ids.filter fun id => waiting.count id == 0,[]⟩

def start (ids : List String) (edges : List Edge) : Sweep :=
  ofWaiting ids (Waiting.start ids edges)

def release (s : Sweep) (id : String) : Sweep :=
  let waiting := s.waiting.release id
  { s with
    waiting := waiting
    ready := if waiting.count id = 0 then s.ready ++ [id] else s.ready }

def step (edges : List Edge) (s : Sweep) : Sweep :=
  match s.ready with
  | [] => s
  | id :: ready =>
    (Edge.successors edges id).foldl release
      { s with ready := ready,emitted := id :: s.emitted }

def run (edges : List Edge) : Nat → Sweep → Sweep
  | 0,s => s
  | n + 1,s => run edges n (s.step edges)

/-- The sweep over all tasks. Each task is emitted once at most, so one step for each suffices. -/
def complete (ids : List String) (edges : List Edge) : Sweep :=
  run edges ids.length (start ids edges)

def order (s : Sweep) : List String := s.emitted.reverse

def blocked (s : Sweep) (ids : List String) : List String :=
  ids.filter fun id => decide (0 < s.waiting.count id)

end Sweep

end PipelineAtlas

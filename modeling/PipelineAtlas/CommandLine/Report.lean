import PipelineAtlas.Dag
import PipelineAtlas.Mermaid

/-! What the command line prints about DAGs. -/
namespace PipelineAtlas.CommandLine

def line (text : String) : String := text ++ "\n"

def taskLine (d : Dag) (task : String) : String :=
  let command :=
    match d.task? task with
    | some t => t.command
    | none => ""
  let behind :=
    match d.predecessors task with
    | [] => ""
    | tasks => " (depends on: " ++ ", ".intercalate tasks ++ ")"
  line ("    - " ++ task ++ ": " ++ command ++ behind)

def header (d : Dag) : String :=
  let text :=
    match d.description with
    | some text => line ("  Description: " ++ text)
    | none => ""
  line ("ID: " ++ d.id) ++ text ++
    line ("  Start date: " ++ d.start.display) ++
    line ("  Schedule: " ++ d.schedule.expression ++ " (" ++ d.schedule.describe ++ ")") ++
    line ("  Catchup: " ++ if d.catchup then "true" else "false") ++
    line ("  Tasks: " ++ toString d.tasks.length)

def dagText (d : Dag) : Except DagError String := do
  let order ← d.topologicalSort
  return header d ++ "".intercalate (order.map (taskLine d))

end PipelineAtlas.CommandLine

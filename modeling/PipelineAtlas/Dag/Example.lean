import PipelineAtlas.Dag

/-! A bundled DAG of three commands in a row. -/
namespace PipelineAtlas

def exampleTasks : List Task :=
  [⟨"print_date","date"⟩,⟨"sleep","sleep 5"⟩,⟨"echo_hello","echo \"Hello World\""⟩]

def exampleDag : Except DagError Dag := do
  let schedule ← (Schedule.parse "@daily").mapError DagError.schedule
  let d ← Dag.new "example_dag" (Instant.ofUniversal ⟨2025,1,1⟩ Clock.midnight) schedule false
  let (d,handles) ← exampleTasks.foldlM
    (fun (d,handles) t => (d.addTask t).map fun (d,h) => (d,handles ++ [h])) (d,[])
  match d.chain handles with
  | (d,none) => return d
  | (_,some e) => .error e

end PipelineAtlas

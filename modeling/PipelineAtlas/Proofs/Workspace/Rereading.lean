import PipelineAtlas.Proofs.Graph.Indexed
import PipelineAtlas.Proofs.Workspace.Finding

/-! Reading a file once more. What a graph holds after some calls it holds as well when they are made
again: no new name and no new edge comes up, each label is the last one given, and each place is
that of the last definition or else the first one known. So no reader of files changes a graph by
reading again what it has just read. -/
namespace PipelineAtlas

namespace PipelineGraph

theorem afterAll_append (g : PipelineGraph) (calls more : List Call) :
    g.afterAll (calls ++ more) = (g.afterAll calls).afterAll more := List.foldl_append

section Lookup

variable {β : Type} (earlier entries : List (String × β)) (key : String)

theorem lookup_last_again : (earlier ++ entries ++ entries).reverse.lookup key =
    (earlier ++ entries).reverse.lookup key := by
  simp only [List.reverse_append,List.lookup_append,← Option.or_assoc,Option.or_self]

theorem lookup_first_again : (earlier ++ entries ++ entries).lookup key =
    (earlier ++ entries).lookup key := by
  simp only [List.lookup_append,Option.or_assoc,Option.or_self]

end Lookup

namespace Records

variable {calls more : List Call} {g other : PipelineGraph}

theorem nodes_eq (records : Records calls g) : g.nodes = g.ids.filterMap fun id =>
    ((calls.filterMap Call.named?).reverse.lookup id).map (GraphNode.mk id) := by
  rw [PipelineGraph.ids,List.filterMap_map]
  refine List.filterMap_some.symm.trans (List.filterMap_congr fun n member => ?_)
  rw [Function.comp_apply,records.labels n member,Option.map_some]

/-- The calls determine the graph. -/
theorem unique (records : Records calls g) (again : Records calls other) : g = other := by
  refine (records.eq_iff again).mpr ⟨?_,records.edges.trans again.edges.symm,fun id => ?_⟩
  · rw [records.nodes_eq,again.nodes_eq,records.ids,again.ids]
  · rw [records.locations,again.locations]

/-- Calls that were the last ones may be made again. -/
theorem again (records : Records (calls ++ more) g) : Records (calls ++ more ++ more) g where
  ids := by
    rw [records.ids,List.filterMap_append (l := calls ++ more),List.map_append,
      FirstOccurrence.eraseDups_append_of_subset]
    rw [List.filterMap_append,List.map_append]
    exact List.subset_append_right _ _
  labels n member := by
    have label := records.labels n member
    rw [List.filterMap_append] at label
    rw [List.filterMap_append,List.filterMap_append,lookup_last_again,label]
  edges := by
    rw [records.edges,List.filterMap_append (l := calls ++ more),
      FirstOccurrence.eraseDups_append_of_subset]
    rw [List.filterMap_append]
    exact List.subset_append_right _ _
  locations id := by
    rw [records.locations,List.filterMap_append,List.filterMap_append,
      List.filterMap_append (l := calls ++ more),List.filterMap_append (l := calls ++ more),
      List.filterMap_append,List.filterMap_append,lookup_last_again,lookup_first_again]
  sorted := records.sorted

end Records

theorem afterAll_again (calls more : List Call) :
    ((empty.afterAll calls).afterAll more).afterAll more = (empty.afterAll calls).afterAll more := by
  simp only [← afterAll_append]
  exact (records_afterAll (calls ++ more ++ more)).unique (records_afterAll (calls ++ more)).again

end PipelineGraph

/-- A reader of files, with what it knows of the file besides its text: the name of a model, or the
value of a YAML text. -/
inductive Reader where
  | outline
  | flow
  | model (name : String)
  | schema (v : Yaml.Value)
  | workflow (v : Yaml.Value)
  | definition (v : Yaml.Value)

namespace Reader

def read (r : Reader) (content : List Char) (file : String) (g : PipelineGraph) : PipelineGraph :=
  match r with
  | outline => Airflow.Outline.extract content file g
  | flow => Prefect.extract content file g
  | model name => Dbt.extractModel content name file g
  | schema v => Dbt.extractSchema v content file g
  | workflow v => Workflow.extract v content file g
  | definition v => DefinitionFile.extract v content file g

def findings (r : Reader) (content : List Char) (file : String) : List Finding :=
  match r with
  | outline => Airflow.Outline.findings content file
  | flow => Prefect.findings content file
  | model name => Dbt.modelFindings content name file
  | schema v => Dbt.schemaFindings v content file
  | workflow v => Workflow.findings v content file
  | definition v => DefinitionFile.findings v content file

/-- The calls that the reader makes on a graph, which do not depend on the graph. -/
def calls (r : Reader) (content : List Char) (file : String) : List PipelineGraph.Call :=
  (r.findings content file).map Finding.call

theorem read_eq (r : Reader) (content : List Char) (file : String) (g : PipelineGraph) :
    r.read content file g = g.afterAll (r.calls content file) := by
  cases r with
  | outline => exact Airflow.Outline.extract_eq content file g
  | flow => exact Prefect.extract_eq content file g
  | model name => exact Dbt.extractModel_eq content name file g
  | schema v => exact Dbt.extractSchema_eq v content file g
  | workflow v => exact Workflow.extract_eq v content file g
  | definition v => exact DefinitionFile.extract_eq v content file g

/-- Whatever calls have been made on a graph, reading a file and then reading it once more is reading it
once. The same holds of the graph with its index and its set of edges: the calls of the reader have
a result, and made on this they give it again, index and set included. -/
theorem read_read (r : Reader) (content : List Char) (file : String)
    (history : List PipelineGraph.Call) :
    (let g := PipelineGraph.empty.afterAll history
     r.read content file (r.read content file g) = r.read content file g) ∧
    ∃ g once : IndexedGraph, IndexedGraph.empty.afterAll history = some g ∧
      g.toPipelineGraph = PipelineGraph.empty.afterAll history ∧
      g.afterAll (r.calls content file) = some once ∧
      once.toPipelineGraph = r.read content file g.toPipelineGraph ∧
      once.afterAll (r.calls content file) = some once := by
  have plainly : ((PipelineGraph.empty.afterAll history).afterAll (r.calls content file)).afterAll
      (r.calls content file) = (PipelineGraph.empty.afterAll history).afterAll
        (r.calls content file) := PipelineGraph.afterAll_again history _
  obtain ⟨g,made,inStep,origin⟩ := IndexedGraph.InStep.empty.afterAll history
  obtain ⟨once,first,onceInStep,onceOrigin⟩ := inStep.afterAll (r.calls content file)
  obtain ⟨twice,second,twiceInStep,twiceOrigin⟩ := onceInStep.afterAll (r.calls content file)
  have start : g.toPipelineGraph = PipelineGraph.empty.afterAll history := origin
  refine ⟨by simpa only [read_eq] using plainly,g,once,made,start,first,?_,?_⟩
  · rw [read_eq,onceOrigin]
  · have same : twice = once := by
      rw [twiceInStep.eq_iff onceInStep,twiceOrigin,onceOrigin,start]
      exact plainly
    rw [second,same]

end Reader

end PipelineAtlas

import PipelineAtlas.Proofs.Graph.Call
import PipelineAtlas.Workspace

/-! What a scan finds. The sources name things and the places where they stand, and the graph of a
workspace is the record of all that was found. -/
namespace PipelineAtlas

/-- A thing that gets a node: its name, and the file or other space in which it has this name. -/
structure Entity where
  space : String
  name : String
deriving DecidableEq, Repr

def Entity.id (x : Entity) : String := nodeId x.space x.name

inductive Finding where
  | named (x : Entity)
  | defined (x : Entity) (l : Location)
  | mentioned (x : Entity) (l : Location)
  | linked (source target : Entity)
deriving DecidableEq, Repr

namespace Finding

def entity? : Finding → Option Entity
  | .named x | .defined x _ | .mentioned x _ => some x
  | .linked _ _ => none

def call : Finding → PipelineGraph.Call
  | .named x => .addNode x.id x.name
  | .defined x l => .define x.id x.name l
  | .mentioned x l => .mention x.id x.name l
  | .linked source target => .addEdge source.id target.id

end Finding

namespace PipelineGraph

def record (g : PipelineGraph) (findings : List Finding) : PipelineGraph :=
  g.afterAll (findings.map Finding.call)

theorem record_append (g : PipelineGraph) (findings more : List Finding) :
    g.record (findings ++ more) = (g.record findings).record more := by
  rw [record,List.map_append,afterAll,List.foldl_append]
  rfl

/-- If a step records what it finds in an item, all steps record what is found in all items. -/
theorem foldl_eq_record {add : PipelineGraph → α → PipelineGraph} {found : α → List Finding}
    (step : ∀ g x, add g x = g.record (found x)) (items : List α) (g : PipelineGraph) :
    items.foldl add g = g.record (items.flatMap found) := by
  induction items generalizing g with
  | nil => rfl
  | cons x items ih => rw [List.foldl_cons,List.flatMap_cons,record_append,step,ih]

end PipelineGraph

open PipelineGraph Text

namespace Airflow.Outline

def linkFindings (file : String) (link : String × String) : List Finding :=
  [.named ⟨file,link.1⟩,.named ⟨file,link.2⟩,.linked ⟨file,link.1⟩ ⟨file,link.2⟩]

def lineFindings (file : String) (line : List Char × Nat) : List Finding :=
  ((assigned? line.1).map fun name => .defined ⟨file,String.ofList name⟩ ⟨file,line.2⟩).toList ++
    (linked line.1).flatMap (linkFindings file)

def findings (content : List Char) (file : String) : List Finding :=
  ((lines content).zipIdx 1).flatMap (lineFindings file)

theorem addLink_eq (file : String) (g : PipelineGraph) (link : String × String) :
    addLink file g link = g.record (linkFindings file link) := rfl

theorem addLine_eq (file : String) (g : PipelineGraph) (line : List Char × Nat) :
    addLine file g line = g.record (lineFindings file line) := by
  rw [addLine,lineFindings,record_append,foldl_eq_record (addLink_eq file)]
  cases assigned? line.1 <;> rfl

theorem extract_eq (content : List Char) (file : String) (g : PipelineGraph) :
    extract content file g = g.record (findings content file) :=
  foldl_eq_record (addLine_eq file) _ g

end Airflow.Outline

namespace Prefect

def findings (content : List Char) (file : String) : List Finding :=
  (tasks 1 (lines content)).flatMap fun (name,line) => [.defined ⟨file,name⟩ ⟨file,line⟩]

theorem extract_eq (content : List Char) (file : String) (g : PipelineGraph) :
    extract content file g = g.record (findings content file) := by
  refine foldl_eq_record (fun g task => ?_) _ g
  rfl

end Prefect

namespace Dbt

def model (name : String) : Entity := ⟨"dbt",name⟩

def referenceFindings (target : Entity) (file : String) (line : Nat) (name : String) :
    List Finding :=
  [.mentioned (model name) ⟨file,line⟩,.linked (model name) target]

def modelFindings (content : List Char) (name file : String) : List Finding :=
  .defined (model name) ⟨file,1⟩ ::
    ((lines content).zipIdx 1).flatMap fun (line,n) =>
      (references line).flatMap (referenceFindings (model name) file n)

theorem addReference_eq (name file : String) (line : Nat) (g : PipelineGraph) (other : String) :
    addReference name file line g other =
      g.record (referenceFindings (model name) file line other) := rfl

theorem extractModel_eq (content : List Char) (name file : String) (g : PipelineGraph) :
    extractModel content name file g = g.record (modelFindings content name file) := by
  have line (g : PipelineGraph) (l : List Char × Nat) :
      (references l.1).foldl (addReference name file l.2) g =
        g.record ((references l.1).flatMap (referenceFindings (model name) file l.2)) :=
    foldl_eq_record (addReference_eq name file l.2) _ g
  exact foldl_eq_record line _ _

def schemaFindings (v : Yaml.Value) (content : List Char) (file : String) : List Finding :=
  (listed v).flatMap fun name =>
    [.mentioned (model name)
      ⟨file,Source.lineGiving ["- name:","name:"] name (trimmedLines content)⟩]

theorem extractSchema_eq (v : Yaml.Value) (content : List Char) (file : String)
    (g : PipelineGraph) :
    extractSchema v content file g = g.record (schemaFindings v content file) := by
  refine foldl_eq_record (fun g name => ?_) _ g
  rfl

end Dbt

def needFindings (file name : String) (needs : List String) : List Finding :=
  needs.flatMap fun need => [.named ⟨file,need⟩,.linked ⟨file,need⟩ ⟨file,name⟩]

namespace Workflow

def jobFindings (below : List (List Char × Nat)) (file : String) (job : String × List String) :
    List Finding :=
  .defined ⟨file,job.1⟩ ⟨file,jobLine below job.1⟩ :: needFindings file job.1 job.2

def findings (v : Yaml.Value) (content : List Char) (file : String) : List Finding :=
  (jobs v).flatMap (jobFindings (linesBelowJobs content) file)

theorem addNeed_eq (file name : String) (g : PipelineGraph) (need : String) :
    addNeed file name g need = g.record [.named ⟨file,need⟩,.linked ⟨file,need⟩ ⟨file,name⟩] := rfl

theorem extract_eq (v : Yaml.Value) (content : List Char) (file : String) (g : PipelineGraph) :
    extract v content file g = g.record (findings v content file) := by
  refine foldl_eq_record (fun g job => ?_) _ g
  exact foldl_eq_record (addNeed_eq file job.1) _ _

end Workflow

namespace DefinitionFile

def taskFindings (ls : List (List Char)) (file : String) (t : TaskDefinition) : List Finding :=
  .defined ⟨file,t.id⟩ ⟨file,Source.lineGiving ["- id:"] t.id ls⟩ ::
    needFindings file t.id t.dependsOn

def findings (v : Yaml.Value) (content : List Char) (file : String) : List Finding :=
  match definition? v with
  | some d => d.tasks.flatMap (taskFindings (trimmedLines content) file)
  | none => []

theorem addDependency_eq (file name : String) (g : PipelineGraph) (dependency : String) :
    addDependency file name g dependency =
      g.record [.named ⟨file,dependency⟩,.linked ⟨file,dependency⟩ ⟨file,name⟩] := rfl

theorem extract_eq (v : Yaml.Value) (content : List Char) (file : String) (g : PipelineGraph) :
    extract v content file g = g.record (findings v content file) := by
  rw [extract,findings]
  cases definition? v with
  | none => rfl
  | some d =>
    refine foldl_eq_record (fun g t => ?_) _ g
    exact foldl_eq_record (addDependency_eq file t.id) _ _

end DefinitionFile

namespace Workspace

def findIf (wanted : Bool) (findings : List Finding) : List Finding :=
  if wanted then findings else []

theorem addIf_eq {wanted : Bool} {extract : PipelineGraph → PipelineGraph}
    {findings : List Finding} (records : ∀ g, extract g = g.record findings) (g : PipelineGraph) :
    addIf wanted extract g = g.record (findIf wanted findings) := by
  cases wanted with
  | false => rfl
  | true => exact records g

def scriptFindings (sources : SourceToggles) (f : FoundFile) (content : List Char) : List Finding :=
  findIf (isPipeline f.name content)
    (findIf sources.airflow (Airflow.Outline.findings content f.pathText) ++
      findIf sources.prefect (Prefect.findings content f.pathText))

theorem addScript_eq (sources : SourceToggles) (f : FoundFile) (content : List Char)
    (g : PipelineGraph) :
    addScript sources f content g = g.record (scriptFindings sources f content) := by
  rw [addScript,scriptFindings,addIf_eq (Airflow.Outline.extract_eq content f.pathText),
    addIf_eq (Prefect.extract_eq content f.pathText),← record_append]
  cases isPipeline f.name content <;> rfl

def sqlFindings (sources : SourceToggles) (f : FoundFile) (content : List Char) : List Finding :=
  findIf sources.dbt (Dbt.modelFindings content (FileName.stem f.name) f.pathText)

theorem addSql_eq (sources : SourceToggles) (f : FoundFile) (content : List Char)
    (g : PipelineGraph) : addSql sources f content g = g.record (sqlFindings sources f content) :=
  addIf_eq (Dbt.extractModel_eq content (FileName.stem f.name) f.pathText) g

def yamlFindings (sources : SourceToggles) (f : FoundFile) (content : List Char) : List Finding :=
  match Yaml.Value.read? content with
  | some v =>
    findIf sources.dbt (Dbt.schemaFindings v content f.pathText) ++
      findIf sources.githubActions (Workflow.findings v content f.pathText) ++
      findIf sources.definitions (DefinitionFile.findings v content f.pathText)
  | none => []

theorem addYaml_eq (sources : SourceToggles) (f : FoundFile) (content : List Char)
    (g : PipelineGraph) :
    addYaml sources f content g = g.record (yamlFindings sources f content) := by
  rw [addYaml,yamlFindings]
  cases Yaml.Value.read? content with
  | none => rfl
  | some v =>
    dsimp only
    rw [record_append,record_append,addIf_eq (DefinitionFile.extract_eq v content f.pathText),
      addIf_eq (Workflow.extract_eq v content f.pathText),
      addIf_eq (Dbt.extractSchema_eq v content f.pathText)]

/-- What is found in those of some files that have one of the extensions. -/
def fileFindings (settings : ScanSettings) (extensions : List String)
    (found : SourceToggles → FoundFile → List Char → List Finding) (files : List FoundFile) :
    List Finding :=
  (files.filter (·.hasExtension extensions)).flatMap fun f =>
    match readable? settings f with
    | some content => found settings.sources f content
    | none => []

theorem addFiles_eq (settings : ScanSettings) (extensions : List String)
    {add : SourceToggles → FoundFile → List Char → PipelineGraph → PipelineGraph}
    {found : SourceToggles → FoundFile → List Char → List Finding}
    (records : ∀ sources f content g, add sources f content g = g.record (found sources f content))
    (files : List FoundFile) (g : PipelineGraph) :
    addFiles settings extensions add files g =
      g.record (fileFindings settings extensions found files) := by
  refine foldl_eq_record (fun g f => ?_) _ g
  cases readable? settings f with
  | none => rfl
  | some content => exact records settings.sources f content g

/-- All that a scan finds, in the order in which the files are read. -/
def findings (settings : ScanSettings) (root : FileTree) : List Finding :=
  let files := root.files settings.ignoredDirectories
  fileFindings settings ["py"] scriptFindings files ++
    fileFindings settings ["sql"] sqlFindings files ++
    fileFindings settings ["yml","yaml"] yamlFindings files

theorem scan_eq (settings : ScanSettings) (root : FileTree) :
    scan settings root = PipelineGraph.empty.record (findings settings root) := by
  simp only [scan,findings,record_append,addFiles_eq _ _ addScript_eq,addFiles_eq _ _ addSql_eq,
    addFiles_eq _ _ addYaml_eq]

def entities (settings : ScanSettings) (root : FileTree) : List Entity :=
  (findings settings root).filterMap Finding.entity?

end Workspace

end PipelineAtlas

import PipelineAtlas.Airflow.Outline
import PipelineAtlas.FileTree
import PipelineAtlas.Source.Dbt
import PipelineAtlas.Source.DefinitionFile
import PipelineAtlas.Source.Prefect
import PipelineAtlas.Source.Workflow

/-! Scanning a workspace: all its pipeline files make one graph. Python files come first, then SQL
files, then YAML files, and files of one kind in the order of a walk. -/
namespace PipelineAtlas.Workspace

def occurs (part : List Char) : List Char → Bool
  | [] => part.isEmpty
  | c :: cs => part.isPrefixOf (c :: cs) || occurs part cs

/-- Python files of interest are those named as DAG files, and those in which a word stands that
the files of Airflow and Prefect have. -/
def isPipeline (name : String) (content : List Char) : Bool :=
  "_dag.py".toList.isSuffixOf name.toList ||
    ["DAG(","airflow","@task"].any fun part => occurs part.toList content

def readable? (settings : ScanSettings) (f : FoundFile) : Option (List Char) :=
  if settings.maxFileBytes < f.content.size then none else f.content.text?.map (·.toList)

def addIf (wanted : Bool) (extract : PipelineGraph → PipelineGraph) (g : PipelineGraph) :
    PipelineGraph :=
  if wanted then extract g else g

def addScript (sources : SourceToggles) (f : FoundFile) (content : List Char) (g : PipelineGraph) :
    PipelineGraph :=
  if isPipeline f.name content then
    addIf sources.prefect (Prefect.extract content f.pathText)
      (addIf sources.airflow (Airflow.Outline.extract content f.pathText) g)
  else g

def addSql (sources : SourceToggles) (f : FoundFile) (content : List Char) (g : PipelineGraph) :
    PipelineGraph :=
  addIf sources.dbt (Dbt.extractModel content (FileName.stem f.name) f.pathText) g

def addYaml (sources : SourceToggles) (f : FoundFile) (content : List Char) (g : PipelineGraph) :
    PipelineGraph :=
  match Yaml.Value.read? content with
  | some v =>
    addIf sources.definitions (DefinitionFile.extract v content f.pathText)
      (addIf sources.githubActions (Workflow.extract v content f.pathText)
        (addIf sources.dbt (Dbt.extractSchema v content f.pathText) g))
  | none => g

def addFiles (settings : ScanSettings) (extensions : List String)
    (add : SourceToggles → FoundFile → List Char → PipelineGraph → PipelineGraph)
    (files : List FoundFile) (g : PipelineGraph) : PipelineGraph :=
  (files.filter (·.hasExtension extensions)).foldl
    (fun g f =>
      match readable? settings f with
      | some content => add settings.sources f content g
      | none => g) g

def scan (settings : ScanSettings) (root : FileTree) : PipelineGraph :=
  let files := root.files settings.ignoredDirectories
  addFiles settings ["yml","yaml"] addYaml files
    (addFiles settings ["sql"] addSql files
      (addFiles settings ["py"] addScript files .empty))

end PipelineAtlas.Workspace

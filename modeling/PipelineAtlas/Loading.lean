import PipelineAtlas.Airflow.DagFile
import PipelineAtlas.Definition.Build
import PipelineAtlas.Definition.Reading
import PipelineAtlas.Workspace

/-! Loading DAGs, settings and workspaces from the paths at which they stand. -/
namespace PipelineAtlas

abbrev Paths := String → Option FileTree

namespace Paths

def text? (paths : Paths) (path : String) : Option (List Char) :=
  (paths path).bind fun t => t.text?.map (·.toList)

def isDirectory (paths : Paths) (path : String) : Bool := (paths path).any (·.isDirectory)

def definitionDag (t : FileTree) : Except DefinitionError Dag :=
  match t.text? with
  | none => .error .unreadableFile
  | some text =>
    match Definition.ofText? text.toList with
    | none => .error .malformedFile
    | some d => do
      d.validate
      d.build

def loadDefinition (paths : Paths) (path : String) : Except DefinitionError Dag :=
  match paths path with
  | some t => definitionDag t
  | none => .error .unreadableFile

def loadDirectory (paths : Paths) (path : String) : Except DefinitionError (List Dag) :=
  match paths path with
  | some (.directory entries) =>
    ((FileTree.sortByName entries).filter fun (name,_) =>
      (FileName.extension? name).any ["yaml","yml"].contains).mapM fun (_,t) => definitionDag t
  | _ => .error (.notADirectory path)

def loadAirflow (paths : Paths) (path : String) : Except Airflow.Error Dag :=
  match paths.text? path with
  | some source => Airflow.readDag source
  | none => .error .unreadableFile

def loadSettings (paths : Paths) (path : String) : Except DefinitionError ScanSettings :=
  match paths.text? path with
  | none => .error .unreadableFile
  | some text =>
    match ScanSettings.ofText? text with
    | some settings => .ok settings
    | none => .error .malformedFile

def scan? (paths : Paths) (settings : ScanSettings) (path : String) : Option PipelineGraph :=
  ((paths path).filter (·.isDirectory)).map (Workspace.scan settings)

end Paths

end PipelineAtlas

import PipelineAtlas.Definition.Check
import PipelineAtlas.Yaml.Value

/-! Reading definitions and scan settings. What a definition looks like is said once; how its texts,
lists and records are read depends on the format that it stands in. -/
namespace PipelineAtlas

/-- How the nodes of a format are read. Of a record, the fields are given by their names, and the
names of all known fields are at hand in their order. -/
structure NodeReader (m : Type → Type) (ν : Type) where
  text : ν → m String
  optionalText : ν → m (Option String)
  flag : ν → m Bool
  items : ν → m (List ν)
  fields : List String → ν → m (List (String × ν))

namespace NodeReader

variable {m : Type → Type} {ν : Type} [Monad m] [MonadExcept Unit m]

def record (r : NodeReader m ν) (names : List String) (v : ν) : m (String → Option ν) := do
  let fields ← r.fields names v
  if names.any fun name => decide (1 < fields.countP fun (key,_) => key == name) then throw ()
  else return fun name => fields.lookup name

def required (read : ν → m α) : Option ν → m α
  | some v => read v
  | none => throw ()

def orElse (read : ν → m α) (default : α) : Option ν → m α
  | some v => read v
  | none => pure default

def texts (r : NodeReader m ν) (v : ν) : m (List String) := do
  (← r.items v).mapM r.text

end NodeReader

section

variable {m : Type → Type} {ν : Type} [Monad m] [MonadExcept Unit m]

def TaskDefinition.read (r : NodeReader m ν) (v : ν) : m TaskDefinition := do
  let field ← r.record ["id","command","depends_on"] v
  return {
    id := ← NodeReader.required r.text (field "id")
    command := ← NodeReader.required r.text (field "command")
    dependsOn := ← NodeReader.orElse r.texts [] (field "depends_on") }

def Definition.read (r : NodeReader m ν) (v : ν) : m Definition := do
  let field ← r.record ["id","description","start_date","schedule","catchup","tasks"] v
  return {
    id := ← NodeReader.required r.text (field "id")
    description := ← NodeReader.orElse r.optionalText none (field "description")
    start := ← NodeReader.required r.text (field "start_date")
    schedule := ← NodeReader.orElse r.optionalText (some "@daily") (field "schedule")
    catchup := ← NodeReader.orElse r.flag false (field "catchup")
    tasks := ← NodeReader.required
      (fun v => do (← r.items v).mapM (TaskDefinition.read r)) (field "tasks") }

end

namespace Yaml

def standardTag (name : String) : List Char := ("tag:yaml.org,2002:" ++ name).toList

namespace Document

def text (d : Document) (n : Node) : Reading String := do
  match ← d.follow n with
  | .scalar s => return String.ofList s.text
  | _ => failure

/-- The text of a scalar, unless that is plain and null. -/
def optionalText (d : Document) (n : Node) : Reading (Option String) := do
  match ← d.follow n with
  | .nothing => return none
  | .scalar s =>
    let text := String.ofList s.text
    if s.style ≠ .plain then return some text
    else
      match s.tag with
      | none => return if s.text.isEmpty || isNull s.text then none else some text
      | some tag =>
        if tag ≠ standardTag "null" then return some text
        else if isNull s.text then return none
        else failure
  | _ => failure

/-- Whether a scalar can be more than a text: it is plain, or literal with the tag of a kind. -/
def isOfKind (kind : String) (s : Scalar) : Bool :=
  s.style == .plain || (s.style == .literal && s.tag == some (standardTag kind))

def flag (d : Document) (n : Node) : Reading Bool := do
  match ← d.follow n with
  | .scalar s => if isOfKind "bool" s then truth? s.text else failure
  | _ => failure

def natural (limit : Nat) (d : Document) (n : Node) : Reading Nat := do
  match ← d.follow n with
  | .scalar s => if isOfKind "int" s then (positive? s.text).filter (· < limit) else failure
  | _ => failure

def isMissing : Node → Bool
  | .nothing => true
  | .scalar s => s.style == .plain && s.text.isEmpty
  | _ => false

def items (d : Document) (n : Node) : Reading (List Node) := do
  match ← d.follow n with
  | .sequence _ items => return items
  | n => if isMissing n then return [] else failure

def fields (d : Document) (n : Node) : Reading (List (String × Node)) := do
  match ← d.follow n with
  | .mapping _ entries => entries.mapM fun (key,v) => do return (← d.text key,v)
  | n => if isMissing n then return [] else failure

def reader (d : Document) : NodeReader Reading Node where
  text := d.text
  optionalText := d.optionalText
  flag := d.flag
  items := d.items
  fields _ := d.fields

end Document

namespace Value

def flag? (v : Value) : Option Bool :=
  match v.untagged with
  | .bool b => some b
  | _ => none

def optionalText? : Value → Option (Option String)
  | .null => some none
  | v => v.text?.map some

def list? (v : Value) : Option (List Value) :=
  match v.untagged with
  | .null => some []
  | v => v.items?

def fields? (v : Value) : Option (List (String × Value)) :=
  match v.untagged with
  | .null => some []
  | v => do (← v.entries?).mapM fun (key,v) => do return (← key.text?,v)

/-- Reads values, in which numbers, truth values and null are no texts. -/
def reader : NodeReader Option Value where
  text := text?
  optionalText := optionalText?
  flag := flag?
  items := list?
  fields _ := fields?

end Value

end Yaml

def Definition.ofText? (text : List Char) : Option Definition := do
  let d ← Yaml.Document.read? text
  d.readRoot (Definition.read d.reader)

def Definition.parse (text : List Char) : Except DefinitionError Definition :=
  match Definition.ofText? text with
  | some d => d.validate.map fun _ => d
  | none => .error .malformedText

open NodeReader in
def SourceToggles.read (d : Yaml.Document) (n : Yaml.Node) : Yaml.Reading SourceToggles := do
  let field ← d.reader.record ["airflow","prefect","dbt","github_actions","dagscout"] n
  return {
    airflow := ← orElse d.flag true (field "airflow")
    prefect := ← orElse d.flag true (field "prefect")
    dbt := ← orElse d.flag true (field "dbt")
    githubActions := ← orElse d.flag true (field "github_actions")
    definitions := ← orElse d.flag true (field "dagscout") }

open NodeReader in
def ScanSettings.read (d : Yaml.Document) (n : Yaml.Node) : Yaml.Reading ScanSettings := do
  let field ← d.reader.record ["ignore_dirs","sources","max_file_bytes"] n
  let standard : ScanSettings := {}
  return {
    ignoredDirectories := ←
      orElse d.reader.texts standard.ignoredDirectories (field "ignore_dirs")
    sources := ← orElse (SourceToggles.read d) standard.sources (field "sources")
    maxFileBytes := ←
      orElse (d.natural 0x10000000000000000) standard.maxFileBytes (field "max_file_bytes") }

def ScanSettings.ofText? (text : List Char) : Option ScanSettings := do
  let d ← Yaml.Document.read? text
  d.readRoot (ScanSettings.read d)

end PipelineAtlas

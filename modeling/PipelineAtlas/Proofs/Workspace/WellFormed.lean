import PipelineAtlas.Loading
import PipelineAtlas.Proofs.FileTree.Walk
import PipelineAtlas.Proofs.Graph.WellFormed

/-! Graphs of workspaces. Whatever the files say, names, edges and locations fit together, and every
location is a line of a file that was scanned. -/
namespace PipelineAtlas

open PipelineGraph

/-- The number of a line. The first line counts even if there is none. -/
def IsLine (content : List Char) (n : Nat) : Prop := 1 ≤ n ∧ n ≤ max 1 (Text.lines content).length

theorem isLine_first (content : List Char) : IsLine content 1 := ⟨Nat.le_refl 1,by omega⟩

theorem isLine_of_mem {content line : List Char} {n : Nat}
    (member : (line,n) ∈ (Text.lines content).zipIdx 1) : IsLine content n := by
  obtain ⟨least,most,-⟩ := List.mem_zipIdx member
  exact ⟨least,by omega⟩

theorem isLine_lineWhere (test : List Char → Bool) (content : List Char) :
    IsLine content (Text.lineWhere test (Text.trimmedLines content)) := by
  unfold Text.lineWhere
  split
  next i found =>
    obtain ⟨inside,-⟩ := List.findIdx?_eq_some_iff_findIdx_eq.mp found
    rw [Text.trimmedLines,List.length_map] at inside
    exact ⟨by omega,by omega⟩
  next => exact isLine_first content

/-- The lines of a file are all places. -/
def Places (placed : Location → Prop) (content : List Char) (file : String) : Prop :=
  ∀ n, IsLine content n → placed ⟨file,n⟩

section Extractors

variable {placed : Location → Prop} {content : List Char} {file : String} {g : PipelineGraph}

theorem wellFormed_linked (wellFormed : g.WellFormed placed) (source target label : String) :
    (((g.addNode (nodeId file source) label).addNode (nodeId file target) target).addEdge
      (nodeId file source) (nodeId file target)).WellFormed placed := by
  have ends := (wellFormed.addNode (isNodeName_nodeId file source) label).addNode
    (isNodeName_nodeId file target) target
  refine ends.addEdge ?_ (contains_addNode_self _ _ _)
  exact (grows_addNode _ _ _).nodes _ (contains_addNode_self _ _ _)

theorem Airflow.Outline.wellFormed_addLine (places : Places placed content file)
    (wellFormed : g.WellFormed placed) {line : List Char × Nat}
    (member : line ∈ (Text.lines content).zipIdx 1) : (addLine file g line).WellFormed placed := by
  refine List.foldlRecOn (motive := WellFormed placed) _ _ ?_ fun g wellFormed link _ =>
    wellFormed_linked wellFormed link.1 link.2 link.1
  split
  next name _ => exact wellFormed.define (isNodeName_nodeId _ _) _ (places _ (isLine_of_mem member))
  next => exact wellFormed

theorem Airflow.Outline.wellFormed_extract (places : Places placed content file)
    (wellFormed : g.WellFormed placed) : (extract content file g).WellFormed placed :=
  List.foldlRecOn (motive := WellFormed placed) _ _ wellFormed fun _ wellFormed _ member =>
    wellFormed_addLine places wellFormed member

theorem Prefect.line_of_mem_tasks {n : Nat} {ls : List (List Char)} {name : String} {line : Nat}
    (member : (name,line) ∈ tasks n ls) : n < line ∧ line < n + ls.length := by
  fun_induction tasks n ls with
  | case1 n a b rest ih =>
    rcases List.mem_append.mp member with here | later
    · split at here
      next =>
        obtain ⟨-,rfl⟩ := Prod.mk.inj (List.mem_singleton.mp here)
        simp
      next => simp at here
    · obtain ⟨above,below⟩ := ih later
      simp only [List.length_cons] at below ⊢
      omega
  | case2 => simp at member

theorem Prefect.wellFormed_extract (places : Places placed content file)
    (wellFormed : g.WellFormed placed) : (extract content file g).WellFormed placed := by
  refine List.foldlRecOn (motive := WellFormed placed) _ _ wellFormed fun g wellFormed task member => ?_
  obtain ⟨name,line⟩ := task
  obtain ⟨above,below⟩ := line_of_mem_tasks member
  exact wellFormed.define (isNodeName_nodeId _ _) _ (places line ⟨by omega,by omega⟩)

theorem Dbt.wellFormed_extractModel (places : Places placed content file)
    (wellFormed : g.WellFormed placed) (model : String) :
    (extractModel content model file g).WellFormed placed := by
  -- the model stays a node, so that every reference has an edge to it
  have step (g : PipelineGraph) (line : List Char × Nat)
      (member : line ∈ (Text.lines content).zipIdx 1)
      (before : g.WellFormed placed ∧ g.contains (modelId model) = true) :
      let g' := (references line.1).foldl (addReference model file line.2) g
      g'.WellFormed placed ∧ g'.contains (modelId model) = true := by
    refine List.foldlRecOn (motive := fun g => WellFormed placed g ∧
      g.contains (modelId model) = true) _ _ before fun g before target _ => ?_
    obtain ⟨wellFormed,there⟩ := before
    have mentioned := wellFormed.mention (isNodeName_nodeId "dbt" target) target
      (places line.2 (isLine_of_mem member))
    have stays := (g.grows_mention (modelId target) target ⟨file,line.2⟩).nodes _ there
    exact ⟨mentioned.addEdge (contains_addNode_self _ _ _) stays,
      (grows_addEdge _ _ _).nodes _ stays⟩
  have defined := wellFormed.define (isNodeName_nodeId "dbt" model) model
    (places 1 (isLine_first content))
  exact (List.foldlRecOn (motive := fun g => WellFormed placed g ∧
    g.contains (modelId model) = true) _ _ ⟨defined,contains_addNode_self _ _ _⟩
      fun g before line member => step g line member before).1

theorem Dbt.wellFormed_extractSchema (places : Places placed content file)
    (wellFormed : g.WellFormed placed) (v : Yaml.Value) :
    (extractSchema v content file g).WellFormed placed :=
  List.foldlRecOn (motive := WellFormed placed) _ _ wellFormed fun _ wellFormed name _ =>
    wellFormed.mention (isNodeName_nodeId "dbt" name) name (places _ (isLine_lineWhere _ _))

theorem Workflow.isLine_jobLine (content : List Char) (name : String) :
    IsLine content (jobLine (linesBelowJobs content) name) := by
  unfold jobLine
  split
  next line n found =>
    obtain ⟨⟨line',n'⟩,among,same⟩ := List.mem_map.mp (List.mem_of_find?_eq_some found)
    obtain ⟨-,rfl⟩ := Prod.mk.inj same
    exact isLine_of_mem ((List.dropWhile_sublist _).mem (List.mem_of_mem_drop among))
  next => exact isLine_first content

theorem wellFormed_linkedTo (wellFormed : g.WellFormed placed) {target : String}
    (there : g.contains target = true) (source : String) :
    let g' := (g.addNode (nodeId file source) source).addEdge (nodeId file source) target
    g'.WellFormed placed ∧ g'.contains target = true := by
  have stays := (g.grows_addNode (nodeId file source) source).nodes _ there
  exact ⟨(wellFormed.addNode (isNodeName_nodeId file source) source).addEdge
    (contains_addNode_self _ _ _) stays,(grows_addEdge _ _ _).nodes _ stays⟩

theorem wellFormed_fanIn (wellFormed : g.WellFormed placed) (target : String) {line : Nat}
    (place : placed ⟨file,line⟩) (sources : List String) :
    (sources.foldl (fun g source =>
        (g.addNode (nodeId file source) source).addEdge (nodeId file source) (nodeId file target))
      (g.define (nodeId file target) target ⟨file,line⟩)).WellFormed placed :=
  (List.foldlRecOn (motive := fun g => WellFormed placed g ∧
    g.contains (nodeId file target) = true) _ _
      ⟨wellFormed.define (isNodeName_nodeId file target) target place,contains_addNode_self _ _ _⟩
      fun _ before source _ => wellFormed_linkedTo before.1 before.2 source).1

theorem Workflow.wellFormed_extract (places : Places placed content file)
    (wellFormed : g.WellFormed placed) (v : Yaml.Value) :
    (extract v content file g).WellFormed placed :=
  List.foldlRecOn (motive := WellFormed placed) _ _ wellFormed fun _ wellFormed job _ =>
    wellFormed_fanIn wellFormed job.1 (places _ (isLine_jobLine content job.1)) job.2

theorem DefinitionFile.wellFormed_extract (places : Places placed content file)
    (wellFormed : g.WellFormed placed) (v : Yaml.Value) :
    (extract v content file g).WellFormed placed := by
  unfold extract
  split
  next d _ =>
    exact List.foldlRecOn (motive := WellFormed placed) _ _ wellFormed fun _ wellFormed t _ =>
      wellFormed_fanIn wellFormed t.id (places _ (isLine_lineWhere _ _)) t.dependsOn
  next => exact wellFormed

end Extractors

namespace Workspace

/-- A line of a file that takes part in a scan: a file at a path through directories that are not
ignored, of a kind that is read and not too large. -/
def Placed (settings : ScanSettings) (root : FileTree) (l : Location) : Prop :=
  ∃ (path : List String) (text : String),
    root.Holds settings.ignoredDirectories path (.text text) ∧
    (FoundFile.mk path (.text text)).hasExtension ["py","sql","yml","yaml"] = true ∧
    text.utf8ByteSize ≤ settings.maxFileBytes ∧
    l.file = (FoundFile.mk path (.text text)).pathText ∧ IsLine text.toList l.line

theorem wellFormed_addIf {placed : Location → Prop} (wanted : Bool)
    {extract : PipelineGraph → PipelineGraph} {g : PipelineGraph} (wellFormed : g.WellFormed placed)
    (kept : (extract g).WellFormed placed) : (addIf wanted extract g).WellFormed placed := by
  unfold addIf
  split
  next => exact kept
  next => exact wellFormed

section Kinds

variable {placed : Location → Prop} {f : FoundFile} {content : List Char} {g : PipelineGraph}
  (places : Places placed content f.pathText) (wellFormed : g.WellFormed placed)
  (sources : SourceToggles)

include places wellFormed

theorem wellFormed_addScript : (addScript sources f content g).WellFormed placed := by
  unfold addScript
  split
  next =>
    have outlined := wellFormed_addIf sources.airflow wellFormed
      (Airflow.Outline.wellFormed_extract places wellFormed)
    exact wellFormed_addIf sources.prefect outlined (Prefect.wellFormed_extract places outlined)
  next => exact wellFormed

theorem wellFormed_addSql : (addSql sources f content g).WellFormed placed :=
  wellFormed_addIf sources.dbt wellFormed (Dbt.wellFormed_extractModel places wellFormed _)

theorem wellFormed_addYaml : (addYaml sources f content g).WellFormed placed := by
  unfold addYaml
  split
  next v _ =>
    have schema := wellFormed_addIf sources.dbt wellFormed
      (Dbt.wellFormed_extractSchema places wellFormed v)
    have workflow := wellFormed_addIf sources.githubActions schema
      (Workflow.wellFormed_extract places schema v)
    exact wellFormed_addIf sources.definitions workflow
      (DefinitionFile.wellFormed_extract places workflow v)
  next => exact wellFormed

end Kinds

theorem places_of_readable {settings : ScanSettings} {root : FileTree} {f : FoundFile}
    (found : f ∈ root.files settings.ignoredDirectories)
    (kind : f.hasExtension ["py","sql","yml","yaml"] = true) {content : List Char}
    (readable : readable? settings f = some content) :
    Places (Placed settings root) content f.pathText := by
  obtain ⟨path,c⟩ := f
  have holds := FileTree.holds_of_mem_files found
  unfold readable? at readable
  split at readable
  next => simp at readable
  next small =>
    obtain ⟨text,isText,rfl⟩ := Option.map_eq_some_iff.mp readable
    cases c with
    | binary size => simp [Content.text?] at isText
    | text s =>
      obtain rfl : s = text := Option.some.inj isText
      exact fun n line => ⟨path,s,holds,kind,Nat.le_of_not_lt small,rfl,line⟩

theorem wellFormed_addFiles (settings : ScanSettings) (root : FileTree) (extensions : List String)
    (known : ∀ e ∈ extensions, e ∈ ["py","sql","yml","yaml"])
    {add : SourceToggles → FoundFile → List Char → PipelineGraph → PipelineGraph}
    (keeps : ∀ f content g, Places (Placed settings root) content f.pathText →
      g.WellFormed (Placed settings root) →
        (add settings.sources f content g).WellFormed (Placed settings root))
    {g : PipelineGraph} (wellFormed : g.WellFormed (Placed settings root)) :
    (addFiles settings extensions add (root.files settings.ignoredDirectories) g).WellFormed
      (Placed settings root) := by
  refine List.foldlRecOn (motive := WellFormed (Placed settings root)) _ _ wellFormed
    fun g wellFormed f member => ?_
  obtain ⟨found,kind⟩ := List.mem_filter.mp member
  have kind : f.hasExtension ["py","sql","yml","yaml"] = true := by
    obtain ⟨e,extension,among⟩ := (Option.any_eq_true _ _).mp kind
    exact (Option.any_eq_true _ _).mpr
      ⟨e,extension,List.contains_iff_mem.mpr (known e (List.contains_iff_mem.mp among))⟩
  split
  next content readable => exact keeps f content g (places_of_readable found kind readable) wellFormed
  next => exact wellFormed

theorem wellFormed_scan (settings : ScanSettings) (root : FileTree) :
    (scan settings root).WellFormed (Placed settings root) := by
  have scripts := wellFormed_addFiles settings root ["py"] (by decide)
    (fun _ _ _ places kept => wellFormed_addScript places kept settings.sources)
    (WellFormed.empty _)
  have models := wellFormed_addFiles settings root ["sql"] (by decide)
    (fun _ _ _ places kept => wellFormed_addSql places kept settings.sources) scripts
  exact wellFormed_addFiles settings root ["yml","yaml"] (by decide)
    (fun _ _ _ places kept => wellFormed_addYaml places kept settings.sources) models

end Workspace

/-- A scan that gives a graph gives one whose parts fit together, with every location a line of a
scanned file of the directory at the path. -/
theorem Paths.wellFormed_of_scanned {paths : Paths} {settings : ScanSettings} {path : String}
    {g : PipelineGraph} (scanned : paths.scan? settings path = some g) :
    ∃ root, paths path = some root ∧ root.isDirectory = true ∧
      g.WellFormed (Workspace.Placed settings root) := by
  obtain ⟨root,directory,rfl⟩ := Option.map_eq_some_iff.mp scanned
  obtain ⟨stands,isDirectory⟩ := Option.filter_eq_some_iff.mp directory
  exact ⟨root,stands,isDirectory,Workspace.wellFormed_scan settings root⟩

/-- Files of several kinds, some of them passed over. -/
def Workspace.mixed : FileTree :=
  .directory
    [("dags",.directory
      [("etl_dag.py",.file (.text "load = BashOperator(\n\nload >> store\n")),
        ("notes.txt",.file (.text "load >> store"))]),
      ("node_modules",.directory [("b_dag.py",.file (.text "b = BashOperator("))]),
      ("models",.directory
        [("orders.sql",.file (.text "select 1\nfrom \x7b\x7b ref('customers') \x7d\x7d\n"))]),
      ("ci.yml",.file (.text "jobs:\n  build:\n    x: 1\n  test:\n    needs: build\n"))]

theorem Paths.wellFormed_of_scanned_mixed :
    let paths : Paths := fun path => if path = "ws" then some Workspace.mixed else none
    ∃ g root, paths.scan? {} "ws" = some g ∧ paths "ws" = some root ∧ root.isDirectory = true ∧
      g.WellFormed (Workspace.Placed {} root) ∧
      g.nodes.map (·.label) = ["load","store","orders","customers","build","test"] ∧
      g.edges.length = 3 ∧ g.locations.map (fun (_,l) => l.text) =
        ["dags/etl_dag.py:1","ci.yml:4","ci.yml:2","models/orders.sql:2","models/orders.sql:1"] := by
  intro paths
  have scanned : paths.scan? {} "ws" = some (Workspace.scan {} Workspace.mixed) := rfl
  obtain ⟨root,stands,isDirectory,wellFormed⟩ := wellFormed_of_scanned scanned
  exact ⟨_,root,scanned,stands,isDirectory,wellFormed,by decide +kernel,by decide +kernel,
    by decide +kernel⟩

end PipelineAtlas

import PipelineAtlas.Proofs.Definition.TypedReading
import PipelineAtlas.Proofs.Fallible
import PipelineAtlas.Proofs.FileTree.Walk
import PipelineAtlas.Proofs.Graph.WellFormed
import PipelineAtlas.Workspace

/-! Definition files in a scan. All tasks and dependencies of a definition are in the graph of a
workspace with its file, if the value of the file is a definition. -/
namespace PipelineAtlas

open PipelineGraph

/-- The tasks are nodes with locations, and the dependencies edges. -/
def Contributed (file : String) (tasks : List TaskDefinition) (g : PipelineGraph) : Prop :=
  ∀ t ∈ tasks, g.contains (nodeId file t.id) = true ∧
    (g.location? (nodeId file t.id)).isSome = true ∧
      ∀ dependency ∈ t.dependsOn, ⟨nodeId file dependency,nodeId file t.id⟩ ∈ g.edges

theorem Contributed.grows {file : String} {tasks : List TaskDefinition} {g g' : PipelineGraph}
    (grows : Grows g g') (contributed : Contributed file tasks g) : Contributed file tasks g' := by
  intro t member
  obtain ⟨node,located,edges⟩ := contributed t member
  exact ⟨grows.nodes _ node,grows.locations _ located,fun dependency inside =>
    grows.edges _ (edges dependency inside)⟩

namespace DefinitionFile

theorem grows_addDependency (file task : String) (g : PipelineGraph) (dependency : String) :
    Grows g (addDependency file task g dependency) :=
  (grows_addNode g _ _).trans (grows_addEdge _ _ _)

theorem grows_addTask (ls : List (List Char)) (file : String) (g : PipelineGraph)
    (t : TaskDefinition) : Grows g (addTask ls file g t) :=
  (grows_define g _ _ _).trans (grows_foldl _ (grows_addDependency file t.id) _)

theorem addTask_contributes (ls : List (List Char)) (file : String) (g : PipelineGraph)
    (t : TaskDefinition) : Contributed file [t] (addTask ls file g t) := by
  intro t' member
  obtain rfl := List.mem_singleton.mp member
  let defined := g.define (nodeId file t'.id) t'.id ⟨file,Source.lineGiving ["- id:"] t'.id ls⟩
  have grows : Grows defined (addTask ls file g t') :=
    grows_foldl _ (grows_addDependency file t'.id) _
  refine ⟨grows.nodes _ ?_,grows.locations _ ?_,?_⟩
  · exact (contains_addNode g _ _ _).trans (by simp)
  · exact (Locations.isSome_put _ _ g.locations _).trans (by simp)
  · exact holds_foldl
      (P := fun dependency g => ⟨nodeId file dependency,nodeId file t'.id⟩ ∈ g.edges)
      (fun grows edge => grows.edges _ edge) (grows_addDependency file t'.id)
      (fun dependency _ g => mem_addEdge.mpr (.inr rfl)) defined

theorem grows_extract (v : Yaml.Value) (content : List Char) (file : String) (g : PipelineGraph) :
    Grows g (extract v content file g) := by
  unfold extract
  split
  next => exact grows_foldl _ (grows_addTask _ file) g
  next => exact .refl g

theorem extract_contributes {v : Yaml.Value} {d : Definition} (reads : definition? v = some d)
    (content : List Char) (file : String) (g : PipelineGraph) :
    Contributed file d.tasks (extract v content file g) := by
  intro t member
  simp only [extract,reads]
  refine holds_foldl (P := fun t g => Contributed file [t] g) (fun grows held => held.grows grows)
    (grows_addTask _ file) (fun t _ g => addTask_contributes _ file g t) g t member t ?_
  exact List.mem_singleton_self t

end DefinitionFile

theorem Workflow.grows_extract (v : Yaml.Value) (content : List Char) (file : String)
    (g : PipelineGraph) : Grows g (Workflow.extract v content file g) := by
  refine grows_foldl _ (fun g job => ?_) g
  refine (grows_define g _ _ _).trans (grows_foldl _ (fun g need => ?_) _)
  exact (grows_addNode g _ _).trans (grows_addEdge _ _ _)

theorem Dbt.grows_extractSchema (v : Yaml.Value) (content : List Char) (file : String)
    (g : PipelineGraph) : Grows g (Dbt.extractSchema v content file g) :=
  grows_foldl _ (fun g _ => grows_mention g _ _ _) g

namespace Workspace

theorem grows_addIf (wanted : Bool) {extract : PipelineGraph → PipelineGraph}
    (grows : ∀ g, Grows g (extract g)) (g : PipelineGraph) : Grows g (addIf wanted extract g) := by
  unfold addIf
  split
  next => exact grows g
  next => exact .refl g

theorem grows_addYaml (sources : SourceToggles) (f : FoundFile) (content : List Char)
    (g : PipelineGraph) : Grows g (addYaml sources f content g) := by
  unfold addYaml
  split
  next v _ =>
    have dbt := grows_addIf sources.dbt (Dbt.grows_extractSchema v content f.pathText)
    have workflows := grows_addIf sources.githubActions (Workflow.grows_extract v content f.pathText)
    have definitions := grows_addIf sources.definitions
      (DefinitionFile.grows_extract v content f.pathText)
    exact ((dbt g).trans (workflows _)).trans (definitions _)
  next => exact .refl g

theorem addYaml_contributes {sources : SourceToggles} (enabled : sources.definitions = true)
    {content : List Char} {v : Yaml.Value} {d : Definition}
    (value : Yaml.Value.read? content = some v) (reads : DefinitionFile.definition? v = some d)
    (f : FoundFile) (g : PipelineGraph) :
    Contributed f.pathText d.tasks (addYaml sources f content g) := by
  simp only [addYaml,value]
  rw [addIf,if_pos enabled]
  exact DefinitionFile.extract_contributes reads content f.pathText _

/-- Every file of a kind takes part in a scan. -/
theorem scan_contributes {settings : ScanSettings} (enabled : settings.sources.definitions = true)
    {root : FileTree} {f : FoundFile} (found : f ∈ root.files settings.ignoredDirectories)
    (kind : f.hasExtension ["yml","yaml"] = true) {content : List Char}
    (readable : readable? settings f = some content) {v : Yaml.Value} {d : Definition}
    (value : Yaml.Value.read? content = some v) (reads : DefinitionFile.definition? v = some d) :
    Contributed f.pathText d.tasks (scan settings root) := by
  have member : f ∈ (root.files settings.ignoredDirectories).filter
      (·.hasExtension ["yml","yaml"]) := List.mem_filter.mpr ⟨found,kind⟩
  refine holds_foldl (P := fun f' g => f' = f → Contributed f.pathText d.tasks g)
    (fun grows held same => (held same).grows grows) (fun g f => ?_) (fun f' _ g same => ?_) _
    f member rfl
  · split
    next => exact grows_addYaml _ f _ g
    next => exact .refl g
  · subst same
    simp only [readable]
    exact addYaml_contributes enabled value reads f' g

/-- A workspace with a definition that is accepted, and that is also read with each part as its value,
has all tasks of the definition as located nodes and all its dependencies as edges. -/
theorem scan_of_accepted {text : String} {c : Definition}
    (accepted : Definition.parse text.toList = .ok c)
    (typed : (Definition.ofTypedText? text.toList).isSome = true)
    (value : (Yaml.Value.read? text.toList).isSome = true) {settings : ScanSettings}
    (enabled : settings.sources.definitions = true)
    (small : text.utf8ByteSize ≤ settings.maxFileBytes) {root : FileTree} {path : List String}
    (holds : root.Holds settings.ignoredDirectories path (.text text))
    (kind : (FoundFile.mk path (.text text)).hasExtension ["yml","yaml"] = true) :
    Contributed (FoundFile.mk path (.text text)).pathText c.tasks (scan settings root) := by
  have read : Definition.ofText? text.toList = some c := by
    unfold Definition.parse at accepted
    split at accepted
    next d found =>
      obtain ⟨-,-,rfl⟩ := Fallible.map_ok.mp accepted
      exact found
    next => simp at accepted
  obtain ⟨v,valued⟩ := Option.isSome_iff_exists.mp value
  obtain ⟨c',reads,tasks⟩ := Definition.definition?_of_text read typed valued
  have readable : readable? settings ⟨path,.text text⟩ = some text.toList := by
    simp [readable?,Content.size,Content.text?,Nat.not_lt.mpr small]
  rw [← tasks]
  exact scan_contributes enabled (FileTree.mem_files holds) kind readable valued reads

/-- A definition with a quoted number as a name, and a command that an alias repeats. -/
def aliased : String :=
  "id: etl\nstart_date: 2024-01-01\ntasks:\n- id: load\n  command: &run make\n" ++
    "- id: '5'\n  command: *run\n  depends_on: [load]\n"

theorem scan_of_accepted_aliased :
    let root : FileTree := .directory [("dags",.directory [("etl.yaml",.file (.text aliased))])]
    let f : FoundFile := ⟨["dags","etl.yaml"],.text aliased⟩
    ∃ c, Definition.parse aliased.toList = .ok c ∧
      (Definition.ofTypedText? aliased.toList).isSome = true ∧
      (Yaml.Value.read? aliased.toList).isSome = true ∧ aliased.utf8ByteSize ≤ 1048576 ∧
      root.Holds ({} : ScanSettings).ignoredDirectories f.path f.content ∧
      f.hasExtension ["yml","yaml"] = true ∧ Contributed f.pathText c.tasks (scan {} root) ∧
      c.tasks = [⟨"load","make",[]⟩,⟨"5","make",["load"]⟩] := by
  intro root f
  have tasks : (Definition.parse aliased.toList).map (·.tasks) =
      .ok [⟨"load","make",[]⟩,⟨"5","make",["load"]⟩] := by decide +kernel
  obtain ⟨c,accepted,tasks⟩ := Fallible.map_ok.mp tasks
  have typed : (Definition.ofTypedText? aliased.toList).isSome = true := by decide +kernel
  have value : (Yaml.Value.read? aliased.toList).isSome = true := by decide +kernel
  have small : aliased.utf8ByteSize ≤ 1048576 := by decide +kernel
  have holds : root.Holds ({} : ScanSettings).ignoredDirectories f.path f.content :=
    .entry (List.mem_singleton_self _) (by decide)
      (.entry (List.mem_singleton_self _) (by decide) (.file _))
  have kind : f.hasExtension ["yml","yaml"] = true := by decide
  exact ⟨c,accepted,typed,value,small,holds,kind,
    scan_of_accepted accepted typed value rfl small holds kind,tasks⟩

def unquoted : String := "id: x\nstart_date: 2024-01-01\ntasks:\n- id: 5\n  command: c\n"

/-- The number is a text for the reader of definitions, and none in a scan. -/
theorem scan_unquoted :
    (Definition.parse unquoted.toList).map (·.tasks) = .ok [⟨"5","c",[]⟩] ∧
      scan {} (.directory [("x.yaml",.file (.text unquoted))]) = .empty ∧
      ¬ Contributed "x.yaml" [⟨"5","c",[]⟩]
        (scan {} (.directory [("x.yaml",.file (.text unquoted))])) := by
  have empty : scan {} (.directory [("x.yaml",.file (.text unquoted))]) = .empty := by
    decide +kernel
  refine ⟨by decide +kernel,empty,fun contributed => ?_⟩
  rw [empty] at contributed
  have node := (contributed _ (List.mem_singleton_self _)).1
  simp [PipelineGraph.contains,PipelineGraph.empty] at node

end Workspace

end PipelineAtlas

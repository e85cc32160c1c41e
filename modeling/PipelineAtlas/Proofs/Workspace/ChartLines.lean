import Mathlib.Algebra.Order.BigOperators.Group.List
import Mathlib.Data.List.TakeWhile
import PipelineAtlas.Proofs.Mermaid
import PipelineAtlas.Proofs.Workspace.Recorded
import PipelineAtlas.Proofs.Workspace.WellFormed

/-! The lines of the charts of workspaces. A chart has one line for each node and each edge, and another
one for each line feed in a label. Names in the text of scripts and models hold none, but those that a
YAML file gives, and the names of files, may. -/
namespace PipelineAtlas

open Text

namespace Mermaid

def lineFeeds (s : String) : Nat := s.toList.count '\n'

theorem lineFeeds_append (s t : String) : lineFeeds (s ++ t) = lineFeeds s + lineFeeds t := by
  rw [lineFeeds,String.toList_append,List.count_append,lineFeeds,lineFeeds]

theorem lineFeeds_eq_zero {s : String} : lineFeeds s = 0 ↔ '\n' ∉ s.toList := List.count_eq_zero

theorem lineFeeds_escapeLabel (label : String) : lineFeeds (escapeLabel label) = lineFeeds label := by
  rw [lineFeeds,escapeLabel,String.toList_ofList,lineFeeds]
  induction label.toList with
  | nil => rfl
  | cons c s ih =>
    rw [List.flatMap_cons,List.count_append,ih]
    split
    next quote =>
      subst quote
      simp
    next => rw [List.count_singleton,List.count_cons,Nat.add_comm]

theorem lineFeeds_nodeText {id : String} (unbroken : '\n' ∉ id.toList) (label : String) :
    lineFeeds (nodeText id label) = lineFeeds label := by
  have shown : lineFeeds (if label.isEmpty then id else label) = lineFeeds label := by
    split
    next empty =>
      obtain rfl := String.isEmpty_iff.mp empty
      exact lineFeeds_eq_zero.mpr unbroken
    next => rfl
  have plain : lineFeeds "  " = 0 ∧ lineFeeds "[\"" = 0 ∧ lineFeeds "\"]" = 0 := by decide
  simp only [nodeText,lineFeeds_append,lineFeeds_escapeLabel,shown,lineFeeds_eq_zero.mpr unbroken,
    plain,Nat.zero_add,Nat.add_zero]

theorem getLast?_nodeText (id label : String) : (nodeText id label).toList.getLast? = some ']' := by
  rw [nodeText,String.toList_append,List.getLast?_append]
  rfl

/-- Names without line feeds, and edges that end in a visible name. -/
structure Unbroken (nodes edges : List (String × String)) : Prop where
  nodes : ∀ n ∈ nodes, '\n' ∉ n.1.toList
  edges : ∀ e ∈ edges, '\n' ∉ e.1.toList ∧ IsWhole e.2.toList

section Chart

variable {nodes edges : List (String × String)} (unbroken : Unbroken nodes edges)

include unbroken

theorem sum_lineFeeds_rows : ((rows nodes edges).map lineFeeds).sum =
    (nodes.map fun n => lineFeeds n.2).sum := by
  have labels : (nodes.map fun n => lineFeeds (nodeText n.1 n.2)) =
      nodes.map fun n => lineFeeds n.2 :=
    List.map_congr_left fun n inside => lineFeeds_nodeText (unbroken.nodes n inside) n.2
  have none : (edges.map fun e => lineFeeds (edgeText e.1 e.2)) = edges.map fun _ => 0 :=
    List.map_congr_left fun e inside => lineFeeds_eq_zero.mpr
      (isWhole_edgeText (unbroken.edges e inside).1 (unbroken.edges e inside).2).unbroken
  simp only [rows,List.map_append,List.map_map,List.sum_append,Function.comp_def,labels,none]
  simp

theorem getLast?_row {row : String} (member : row ∈ rows nodes edges) :
    row.toList ≠ [] ∧ row.toList.getLast? ≠ some '\n' := by
  rcases List.mem_append.mp member with node | edge
  · obtain ⟨n,-,rfl⟩ := List.mem_map.mp node
    have last := getLast?_nodeText n.1 n.2
    refine ⟨fun empty => ?_,?_⟩
    · rw [empty] at last
      cases last
    · rw [last]
      decide
  · obtain ⟨e,inside,rfl⟩ := List.mem_map.mp edge
    have whole := isWhole_edgeText (unbroken.edges e inside).1 (unbroken.edges e inside).2
    exact ⟨whole.nonempty,fun last => whole.unbroken (List.mem_of_getLast? last)⟩

theorem getLast?_flowchart : (flowchart nodes edges).toList.getLast? ≠ some '\n' := by
  rw [toList_flowchart]
  rcases List.eq_nil_or_concat (rows nodes edges) with empty | ⟨front,row,ends⟩
  · rw [empty]
    decide
  · have last : row ∈ rows nodes edges := by simp [ends]
    obtain ⟨nonempty,visible⟩ := getLast?_row unbroken last
    rw [ends,List.concat_eq_append,List.flatMap_append,List.flatMap_singleton,← List.append_assoc,List.getLast?_append,
      List.getLast?_cons_of_ne_nil nonempty,Option.or_of_isSome (by simpa using nonempty)]
    exact visible

theorem length_lines_flowchart : (lines (flowchart nodes edges).toList).length =
    1 + nodes.length + edges.length + (nodes.map fun n => lineFeeds n.2).sum := by
  have feeds (all : List String) : (all.flatMap fun row => '\n' :: row.toList).count '\n' =
      all.length + (all.map lineFeeds).sum := by
    induction all with
    | nil => rfl
    | cons row all ih =>
      rw [List.flatMap_cons,List.count_append,List.count_cons_self,ih,List.length_cons,
        List.map_cons,List.sum_cons,lineFeeds]
      omega
  have size : (rows nodes edges).length = nodes.length + edges.length := by simp [rows]
  have header : "flowchart TD".toList.count '\n' = 0 := by decide
  have nonempty : (flowchart nodes edges).toList ≠ [] := by
    rw [toList_flowchart]
    exact List.append_ne_nil_of_left_ne_nil (by decide) _
  rw [lines,length_linesFrom (getLast?_flowchart unbroken) (.inr nonempty),toList_flowchart,
    List.count_append,feeds,sum_lineFeeds_rows unbroken,size,header]
  omega

/-- Below its header a chart has the lines written for its nodes and edges, and no other, only if no label
has a line feed. -/
theorem lines_flowchart_iff : (lines (flowchart nodes edges).toList).map String.ofList =
    "flowchart TD" :: rows nodes edges ↔ ∀ n ∈ nodes, '\n' ∉ n.2.toList := by
  constructor
  · intro same n inside
    have count := congrArg List.length same
    rw [List.length_map,length_lines_flowchart unbroken,List.length_cons,rows,List.length_append,
      List.length_map,List.length_map] at count
    have none : (nodes.map fun n => lineFeeds n.2).sum = 0 := by omega
    exact lineFeeds_eq_zero.mp (List.sum_eq_zero_iff.mp none _ (List.mem_map_of_mem inside))
  · intro labels
    exact lines_flowchart (fun n inside => ⟨unbroken.nodes n inside,labels n inside⟩) unbroken.edges

end Chart

end Mermaid

open PipelineGraph

theorem unbroken_takeWhile {p : Char → Bool} (other : p '\n' = false) (s : List Char) :
    '\n' ∉ (String.ofList (s.takeWhile p)).toList := by
  rw [String.toList_ofList]
  intro inside
  have kept := List.mem_takeWhile_imp inside
  rw [other] at kept
  cases kept

namespace Airflow.Outline

theorem unbroken_assigned {inWord : Bool} {line name : List Char}
    (found : assignedFrom inWord line = some name) : '\n' ∉ (String.ofList name).toList := by
  fun_induction assignedFrom inWord line with
  | case1 => cases found
  | case2 =>
    obtain rfl := Option.some.inj found
    exact unbroken_takeWhile (by decide +kernel) _
  | case3 _ _ _ _ ih => exact ih found

theorem unbroken_firstName {part name : List Char} (found : firstName? part = some name) :
    '\n' ∉ (String.ofList name).toList := by
  simp only [firstName?,Option.ite_none_left_eq_some,Option.some.injEq] at found
  obtain ⟨-,rfl⟩ := found
  exact unbroken_takeWhile (by decide) _

theorem unbroken_linked {line : List Char} {link : String × String} (found : link ∈ linked line) :
    '\n' ∉ link.1.toList ∧ '\n' ∉ link.2.toList := by
  obtain ⟨pair,-,named⟩ := List.mem_filterMap.mp found
  dsimp only at named
  split at named
  next first second =>
    obtain rfl := Option.some.inj named
    exact ⟨unbroken_firstName first,unbroken_firstName second⟩
  next => cases named

theorem unbroken_findings {content : List Char} {file : String} {x : Entity}
    (found : x ∈ Finding.entities (findings content file)) : '\n' ∉ x.name.toList := by
  rw [findings,Finding.entities_flatMap] at found
  obtain ⟨line,-,found⟩ := List.mem_flatMap.mp found
  rw [Function.comp_apply,lineFindings,Finding.entities,List.filterMap_append,List.mem_append]
    at found
  rcases found with assigned | linked
  · obtain ⟨f,inside,entity⟩ := List.mem_filterMap.mp assigned
    obtain ⟨name,here,rfl⟩ := Option.map_eq_some_iff.mp (Option.mem_toList.mp inside)
    obtain rfl := Option.some.inj entity
    exact unbroken_assigned here
  · rw [List.filterMap_flatMap] at linked
    obtain ⟨link,inside,entity⟩ := List.mem_flatMap.mp linked
    have ends := unbroken_linked inside
    simp only [linkFindings,Finding.entity?,List.filterMap_cons,List.filterMap_nil,List.mem_cons,
      List.not_mem_nil,or_false] at entity
    rcases entity with rfl | rfl
    · exact ends.1
    · exact ends.2

end Airflow.Outline

theorem Prefect.unbroken_defined {line name : List Char} (found : defined? line = some name) :
    '\n' ∉ (String.ofList name).toList := by
  fun_induction defined? line with
  | case1 => cases found
  | case2 c cs ih =>
    cases here : definedHere? (c :: cs) with
    | none =>
      rw [here] at found
      exact ih found
    | some other =>
      rw [here] at found
      obtain rfl := Option.some.inj found
      unfold definedHere? at here
      split at here
      next =>
        obtain ⟨-,named⟩ := Option.ite_none_right_eq_some.mp here
        obtain rfl := Option.some.inj named
        exact unbroken_takeWhile (by decide +kernel) _
      next => cases here

theorem Prefect.unbroken_tasks {n : Nat} {ls : List (List Char)} {task : String × Nat}
    (found : task ∈ tasks n ls) : '\n' ∉ task.1.toList := by
  fun_induction tasks n ls with
  | case1 n a b rest ih =>
    rcases List.mem_append.mp found with here | later
    · split at here
      next name named =>
        obtain rfl := List.mem_singleton.mp here
        split at named
        next => exact unbroken_defined named
        next => cases named
      next => simp at here
    · exact ih later
  | case2 => simp at found

theorem Prefect.unbroken_findings {content : List Char} {file : String} {x : Entity}
    (found : x ∈ Finding.entities (findings content file)) : '\n' ∉ x.name.toList := by
  rw [findings,Finding.entities_flatMap] at found
  obtain ⟨task,inside,entity⟩ := List.mem_flatMap.mp found
  obtain rfl := List.mem_singleton.mp entity
  exact unbroken_tasks inside

theorem Dbt.unbroken_references {line : List Char} {target : String}
    (found : target ∈ references line) : '\n' ∉ target.toList := by
  fun_induction references line with
  | case1 => simp at found
  | case2 c cs ih =>
    rcases List.mem_append.mp found with here | later
    · simp only [referenceHere?,Option.mem_toList,Option.bind_eq_bind,Option.bind_eq_some_iff] at here
      obtain ⟨behind,-,inner,-,named⟩ := here
      split at named
      next =>
        obtain rfl := Option.some.inj named
        exact unbroken_takeWhile (by decide +kernel) _
      next => cases named
    · exact ih later

theorem Dbt.unbroken_modelFindings {content : List Char} {name file : String} {x : Entity}
    (found : x ∈ Finding.entities (modelFindings content name file)) :
    x.name = name ∨ '\n' ∉ x.name.toList := by
  have first : Finding.entities (modelFindings content name file) = model name ::
      (((lines content).zipIdx 1).flatMap fun numbered =>
        (references numbered.1).flatMap
          (referenceFindings (model name) file numbered.2)).filterMap Finding.entity? := rfl
  rw [first,List.mem_cons] at found
  rcases found with rfl | mentioned
  · exact .inl rfl
  · rw [List.filterMap_flatMap] at mentioned
    obtain ⟨line,-,mentioned⟩ := List.mem_flatMap.mp mentioned
    rw [List.filterMap_flatMap] at mentioned
    obtain ⟨target,inside,entity⟩ := List.mem_flatMap.mp mentioned
    obtain rfl := List.mem_singleton.mp entity
    exact .inr (unbroken_references inside)

/-- The names that a value gives to jobs, together with those that they need. -/
def Workflow.names (v : Yaml.Value) : List String := (jobs v).flatMap fun job => job.1 :: job.2

/-- The names that a value gives to the tasks of a definition, together with their dependencies. -/
def DefinitionFile.names (v : Yaml.Value) : List String :=
  (definition? v).toList.flatMap fun d => d.tasks.flatMap fun t => t.id :: t.dependsOn

theorem mem_names_needFindings {file name : String} {needs : List String} {x : Entity}
    (found : x ∈ Finding.entities (needFindings file name needs)) : x.name ∈ needs := by
  rw [needFindings,Finding.entities_flatMap] at found
  obtain ⟨need,inside,entity⟩ := List.mem_flatMap.mp found
  obtain rfl := List.mem_singleton.mp entity
  exact inside

theorem Dbt.mem_listed {v : Yaml.Value} {content : List Char} {file : String} {x : Entity}
    (found : x ∈ Finding.entities (schemaFindings v content file)) : x.name ∈ listed v := by
  rw [schemaFindings,Finding.entities_flatMap] at found
  obtain ⟨name,inside,entity⟩ := List.mem_flatMap.mp found
  obtain rfl := List.mem_singleton.mp entity
  exact inside

theorem Workflow.mem_names {v : Yaml.Value} {content : List Char} {file : String} {x : Entity}
    (found : x ∈ Finding.entities (findings v content file)) : x.name ∈ names v := by
  rw [findings,Finding.entities_flatMap] at found
  obtain ⟨job,inside,found⟩ := List.mem_flatMap.mp found
  refine List.mem_flatMap.mpr ⟨job,inside,?_⟩
  rcases List.mem_cons.mp found with rfl | need
  · exact List.mem_cons_self
  · exact List.mem_cons_of_mem _ (mem_names_needFindings need)

theorem DefinitionFile.mem_names {v : Yaml.Value} {content : List Char} {file : String} {x : Entity}
    (found : x ∈ Finding.entities (findings v content file)) : x.name ∈ names v := by
  unfold findings at found
  split at found
  next d read =>
    rw [Finding.entities_flatMap] at found
    obtain ⟨t,inside,found⟩ := List.mem_flatMap.mp found
    refine List.mem_flatMap.mpr ⟨d,Option.mem_toList.mpr read,List.mem_flatMap.mpr ⟨t,inside,?_⟩⟩
    rcases List.mem_cons.mp found with rfl | need
    · exact List.mem_cons_self
    · exact List.mem_cons_of_mem _ (mem_names_needFindings need)
  next => cases found

namespace Workspace

/-- The names that the sources read off the value of a YAML file. -/
def valueNames (sources : SourceToggles) (v : Yaml.Value) : List String :=
  (if sources.dbt then Dbt.listed v else []) ++
    (if sources.githubActions then Workflow.names v else []) ++
    (if sources.definitions then DefinitionFile.names v else [])

theorem mem_entities_findIf {wanted : Bool} {findings : List Finding} {x : Entity}
    (found : x ∈ Finding.entities (findIf wanted findings)) :
    wanted = true ∧ x ∈ Finding.entities findings := by
  cases wanted with
  | false => cases found
  | true => exact ⟨rfl,found⟩

theorem unbroken_scriptFindings {sources : SourceToggles} {f : FoundFile} {content : List Char}
    {x : Entity} (found : x ∈ Finding.entities (scriptFindings sources f content)) :
    '\n' ∉ x.name.toList := by
  have either := (mem_entities_findIf found).2
  rw [Finding.entities,List.filterMap_append,List.mem_append] at either
  rcases either with outline | tasks
  · exact Airflow.Outline.unbroken_findings (mem_entities_findIf outline).2
  · exact Prefect.unbroken_findings (mem_entities_findIf tasks).2

theorem mem_valueNames {sources : SourceToggles} {f : FoundFile} {content : List Char} {x : Entity}
    (found : x ∈ Finding.entities (yamlFindings sources f content)) :
    ∃ v, Yaml.Value.read? content = some v ∧ x.name ∈ valueNames sources v := by
  unfold yamlFindings at found
  split at found
  next v read =>
    refine ⟨v,read,?_⟩
    rw [Finding.entities,List.filterMap_append,List.filterMap_append,List.mem_append,
      List.mem_append] at found
    rw [valueNames,List.mem_append,List.mem_append]
    rcases found with (listed | job) | task
    · obtain ⟨wanted,inside⟩ := mem_entities_findIf listed
      exact .inl (.inl (by simpa [wanted] using Dbt.mem_listed inside))
    · obtain ⟨wanted,inside⟩ := mem_entities_findIf job
      exact .inl (.inr (by simpa [wanted] using Workflow.mem_names inside))
    · obtain ⟨wanted,inside⟩ := mem_entities_findIf task
      exact .inr (by simpa [wanted] using DefinitionFile.mem_names inside)
  next => cases found

theorem mem_fileFindings {settings : ScanSettings} {extensions : List String}
    {found : SourceToggles → FoundFile → List Char → List Finding} {files : List FoundFile} {x : Entity}
    (inside : x ∈ Finding.entities (fileFindings settings extensions found files)) :
    ∃ f ∈ files, f.hasExtension extensions = true ∧ ∃ content, readable? settings f = some content ∧
      x ∈ Finding.entities (found settings.sources f content) := by
  rw [fileFindings,Finding.entities_flatMap] at inside
  obtain ⟨f,member,inside⟩ := List.mem_flatMap.mp inside
  obtain ⟨among,kind⟩ := List.mem_filter.mp member
  refine ⟨f,among,kind,?_⟩
  rw [Function.comp_apply] at inside
  split at inside
  next content readable => exact ⟨content,readable,inside⟩
  next => cases inside

/-- A name that a readable YAML file of the workspace gives. -/
def GivenByValue (settings : ScanSettings) (root : FileTree) (name : String) : Prop :=
  ∃ f ∈ root.files settings.ignoredDirectories, f.hasExtension ["yml","yaml"] = true ∧
    ∃ content v, readable? settings f = some content ∧ Yaml.Value.read? content = some v ∧
      name ∈ valueNames settings.sources v

/-- The name of a readable SQL file of the workspace, without its extension. -/
def GivenByFile (settings : ScanSettings) (root : FileTree) (name : String) : Prop :=
  ∃ f ∈ root.files settings.ignoredDirectories, f.hasExtension ["sql"] = true ∧
    (readable? settings f).isSome = true ∧ name = FileName.stem f.name

theorem given_of_broken {settings : ScanSettings} {root : FileTree} {n : GraphNode}
    (member : n ∈ (scan settings root).nodes) (broken : '\n' ∈ n.label.toList) :
    GivenByValue settings root n.label ∨ GivenByFile settings root n.label := by
  rw [scan_eq] at member
  obtain ⟨x,found,rfl⟩ := exists_of_mem_nodes member
  have broken : '\n' ∈ x.name.toList := broken
  rw [findings,Finding.entities,List.filterMap_append,List.filterMap_append,List.mem_append,
    List.mem_append] at found
  rcases found with (script | model) | yaml
  · obtain ⟨f,-,-,content,-,inside⟩ := mem_fileFindings script
    exact absurd broken (unbroken_scriptFindings inside)
  · obtain ⟨f,among,kind,content,readable,inside⟩ := mem_fileFindings model
    refine .inr ⟨f,among,kind,by rw [readable]; rfl,?_⟩
    exact (Dbt.unbroken_modelFindings (mem_entities_findIf inside).2).resolve_right (not_not_intro broken)
  · obtain ⟨f,among,kind,content,readable,inside⟩ := mem_fileFindings yaml
    obtain ⟨v,read,named⟩ := mem_valueNames inside
    exact .inl ⟨f,among,kind,content,v,readable,read,named⟩

theorem unbroken_scan (settings : ScanSettings) (root : FileTree) :
    Mermaid.Unbroken ((scan settings root).nodes.map fun n => (n.id,n.label))
      ((scan settings root).edges.map fun e => (e.source,e.target)) := by
  have wellFormed := wellFormed_scan settings root
  have named {id : String} (there : (scan settings root).contains id = true) : IsNodeName id := by
    obtain ⟨n,member,rfl⟩ := List.mem_map.mp (contains_iff.mp there)
    exact wellFormed.named n member
  constructor
  · intro n inside
    obtain ⟨node,member,rfl⟩ := List.mem_map.mp inside
    exact (wellFormed.named node member).isWhole.unbroken
  · intro e inside
    obtain ⟨edge,member,rfl⟩ := List.mem_map.mp inside
    obtain ⟨source,target⟩ := wellFormed.closed edge member
    exact ⟨(named source).isWhole.unbroken,(named target).isWhole⟩

/-- The chart of a workspace has a header, a line for each node and each edge, and one line more for each
line feed in a label: it is these lines alone and in order if no label has one. A label that has one
is a name that a YAML file gives, or the name of an SQL file; names in the text of scripts and models
have none. The chart of a DAG is its lines in any case. -/
theorem lines_of_charts (settings : ScanSettings) (root : FileTree) {d : Dag}
    (reachable : Dag.Reachable d) :
    (let g := scan settings root
     let chart := (lines (Mermaid.ofGraph g).toList).map String.ofList
     chart.length = 1 + g.nodes.length + g.edges.length +
       (g.nodes.map fun n => Mermaid.lineFeeds n.label).sum ∧
     (chart = "flowchart TD" :: ((g.nodes.map fun n => Mermaid.nodeText n.id n.label) ++
        g.edges.map fun e => Mermaid.edgeText e.source e.target) ↔
      ∀ n ∈ g.nodes, '\n' ∉ n.label.toList) ∧
     ∀ n ∈ g.nodes, '\n' ∈ n.label.toList →
       GivenByValue settings root n.label ∨ GivenByFile settings root n.label) ∧
    (lines (Mermaid.ofDag d).toList).map String.ofList =
      "flowchart TD" ::
        ((d.ids.map fun id => "  " ++ nodeId d.id id ++ "[\"" ++ id ++ "\"]") ++
          d.edges.map fun e =>
            "  " ++ nodeId d.id e.source ++ " --> " ++ nodeId d.id e.target) := by
  have unbroken := unbroken_scan settings root
  have count := Mermaid.length_lines_flowchart unbroken
  have written := Mermaid.lines_flowchart_iff unbroken
  simp only [List.length_map,List.map_map,Function.comp_def] at count
  simp only [Mermaid.rows,List.map_map,List.forall_mem_map,Function.comp_def] at written
  refine ⟨⟨?_,written,fun n => given_of_broken⟩,Mermaid.lines_ofDag reachable⟩
  rw [List.length_map]
  exact count

def quotedJobs : FileTree :=
  .directory
    [("ci.yml",.file (.text "jobs:\n  \"a\\nb\":\n    x: 1\n  test:\n    needs: lint\n"))]

theorem lines_of_charts_quoted :
    Dag.Reachable (twoTasks "a" "b") ∧
    (lines (Mermaid.ofDag (twoTasks "a" "b")).toList).map String.ofList =
      ["flowchart TD","  n3632553[\"a\"]","  n3632554[\"b\"]","  n3632553 --> n3632554"] ∧
    (lines (Mermaid.ofGraph (scan {} quotedJobs)).toList).length = 6 ∧
    (scan {} quotedJobs).nodes.map (·.label) = ["a\nb","test","lint"] ∧
    (scan {} quotedJobs).edges.length = 1 ∧ GivenByValue {} quotedJobs "a\nb" := by
  have reachable := reachable_twoTasks "a" "b"
  obtain ⟨⟨count,-,given⟩,drawn⟩ := lines_of_charts {} quotedJobs reachable
  have labels : (scan {} quotedJobs).nodes.map (·.label) = ["a\nb","test","lint"] := by
    decide +kernel
  have edges : (scan {} quotedJobs).edges.length = 1 := by decide +kernel
  have nodes : (scan {} quotedJobs).nodes.length = 3 := by
    rw [← List.length_map GraphNode.label,labels]
    rfl
  have feeds : ((scan {} quotedJobs).nodes.map fun n => Mermaid.lineFeeds n.label).sum = 1 := by
    have listed : ((scan {} quotedJobs).nodes.map fun n => Mermaid.lineFeeds n.label) =
        ["a\nb","test","lint"].map Mermaid.lineFeeds := by rw [← labels,List.map_map]; rfl
    rw [listed]
    decide
  refine ⟨reachable,?_,?_,labels,edges,?_⟩
  · rw [drawn]
    decide
  · rw [List.length_map,nodes,edges,feeds] at count
    exact count
  · have member : "a\nb" ∈ (scan {} quotedJobs).nodes.map (·.label) := by
      rw [labels]
      exact List.mem_cons_self
    obtain ⟨n,inside,label⟩ := List.mem_map.mp member
    have broken := given n inside (by rw [label]; decide)
    rw [label] at broken
    refine broken.resolve_right ?_
    have none : ∀ f ∈ quotedJobs.files ({} : ScanSettings).ignoredDirectories,
        f.hasExtension ["sql"] = false := by decide +kernel
    rintro ⟨f,found,kind,-⟩
    rw [none f found] at kind
    cases kind

/-- A label read from a file adds a line to the chart. -/
theorem lines_of_quoted_chart : ¬ ∀ (settings : ScanSettings) (root : FileTree),
    (lines (Mermaid.ofGraph (scan settings root)).toList).length =
      1 + (scan settings root).nodes.length + (scan settings root).edges.length := by
  intro always
  have added := always {} quotedJobs
  revert added
  decide +kernel

end Workspace

end PipelineAtlas

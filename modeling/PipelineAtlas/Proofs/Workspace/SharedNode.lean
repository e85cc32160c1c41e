import PipelineAtlas.Proofs.Mermaid
import PipelineAtlas.Proofs.NodeId
import PipelineAtlas.Proofs.Workspace.Finding

/-! Things that share a node. Node names are hashes, and in every file there are different names with the
same hash. Charts and scans keep apart what does not clash, and what does clash is one node, under the
name that came last. -/
namespace PipelineAtlas

def Entity.text (x : Entity) : String := x.space ++ "::" ++ x.name

theorem Entity.id_eq_iff {x y : Entity} : x.id = y.id ↔ Clash x.text y.text := nodeId_eq_iff

theorem nodeId_Aa_BB (file before after : String) :
    nodeId file (before ++ "Aa" ++ after) = nodeId file (before ++ "BB" ++ after) :=
  nodeId_replace (by decide) (by decide) file before after

namespace Finding

theorem named?_call (f : Finding) : f.call.named? = f.entity?.map fun x => (x.id,x.name) := by
  cases f <;> rfl

theorem filterMap_named? (findings : List Finding) :
    (findings.map Finding.call).filterMap PipelineGraph.Call.named? =
      (findings.filterMap Finding.entity?).map fun x => (x.id,x.name) := by
  rw [List.filterMap_map,List.map_filterMap]
  refine congrArg (List.filterMap · findings) (funext fun f => ?_)
  rw [Function.comp_apply,named?_call]

end Finding

theorem lookup_map_entity (found : List Entity) (id : String) :
    (found.map fun x => (x.id,x.name)).lookup id =
      (found.find? (·.id == id)).map Entity.name := by
  induction found with
  | nil => rfl
  | cons x found ih =>
    rw [List.map_cons,List.lookup_cons,List.find?_cons,Bool.beq_comm]
    cases x.id == id with
    | true => rfl
    | false => exact ih

namespace Workspace

variable (settings : ScanSettings) (root : FileTree)

theorem records_scan : PipelineGraph.Records ((findings settings root).map Finding.call)
    (scan settings root) := by
  rw [scan_eq]
  exact PipelineGraph.records_afterAll _

theorem ids_scan : (scan settings root).ids = ((entities settings root).map Entity.id).eraseDups := by
  rw [(records_scan settings root).ids,Finding.filterMap_named?,List.map_map]
  rfl

theorem label_scan {n : GraphNode} (member : n ∈ (scan settings root).nodes) :
    ((entities settings root).reverse.find? (·.id == n.id)).map Entity.name = some n.label := by
  have last := (records_scan settings root).labels n member
  rwa [Finding.filterMap_named?,← List.map_reverse,lookup_map_entity] at last

theorem mem_nodes_scan {x : Entity} (found : x ∈ entities settings root)
    (alike : ∀ y ∈ entities settings root, Clash x.text y.text → x.name = y.name) :
    ⟨x.id,x.name⟩ ∈ (scan settings root).nodes := by
  have named : x.id ∈ (scan settings root).ids := by
    rw [ids_scan,List.mem_eraseDups]
    exact List.mem_map_of_mem found
  obtain ⟨n,member,same⟩ := List.mem_map.mp named
  obtain ⟨y,last,label⟩ := Option.map_eq_some_iff.mp (label_scan settings root member)
  have shared := List.find?_some last
  rw [beq_iff_eq] at shared
  have inside : y ∈ entities settings root := List.mem_reverse.mp (List.mem_of_find?_eq_some last)
  rw [alike y inside (Entity.id_eq_iff.mp (same.symm.trans shared.symm)),← same,label]
  exact member

theorem own_nodes_iff : (∀ x ∈ entities settings root, ⟨x.id,x.name⟩ ∈ (scan settings root).nodes) ↔
    ∀ x ∈ entities settings root, ∀ y ∈ entities settings root,
      Clash x.text y.text → x.name = y.name := by
  constructor
  · intro own x first y second clash
    have distinct : ((scan settings root).nodes.map (·.id)).Nodup := by
      have unique := FirstOccurrence.nodup_eraseDups ((entities settings root).map Entity.id)
      rwa [← ids_scan] at unique
    have same : (⟨x.id,x.name⟩ : GraphNode) = ⟨y.id,y.name⟩ :=
      List.inj_on_of_nodup_map distinct (own x first) (own y second) (Entity.id_eq_iff.mpr clash)
    exact congrArg GraphNode.label same
  · intro alike x found
    exact mem_nodes_scan settings root found (alike x found)

/-- Names of a file share a node name if their texts clash, and in every file there are some that do.
The chart of a DAG has a node line for each task, and no two of them share a name if no two tasks
clash. A scan has one node for each name, at the place of the first thing found that has it and
labelled with the last, so that all things found have nodes under their own names if only things of
the same name clash. -/
theorem shared_iff_clash (file : String) {d : Dag} (reachable : Dag.Reachable d)
    (settings : ScanSettings) (root : FileTree) :
    (∀ a b, nodeId file a = nodeId file b ↔ Clash (file ++ "::" ++ a) (file ++ "::" ++ b)) ∧
    (∀ before after,
      nodeId file (before ++ "Aa" ++ after) = nodeId file (before ++ "BB" ++ after)) ∧
    ((Text.lines (Mermaid.ofDag d).toList).map String.ofList =
      "flowchart TD" ::
        ((d.ids.map fun id => "  " ++ nodeId d.id id ++ "[\"" ++ id ++ "\"]") ++
          d.edges.map fun e =>
            "  " ++ nodeId d.id e.source ++ " --> " ++ nodeId d.id e.target)) ∧
    ((d.ids.map (nodeId d.id)).Nodup ↔ ∀ a ∈ d.ids, ∀ b ∈ d.ids,
      Clash (d.id ++ "::" ++ a) (d.id ++ "::" ++ b) → a = b) ∧
    ((scan settings root).ids = ((entities settings root).map Entity.id).eraseDups) ∧
    (∀ n ∈ (scan settings root).nodes,
      ((entities settings root).reverse.find? (·.id == n.id)).map Entity.name = some n.label) ∧
    ((∀ x ∈ entities settings root, ⟨x.id,x.name⟩ ∈ (scan settings root).nodes) ↔
      ∀ x ∈ entities settings root, ∀ y ∈ entities settings root,
        Clash x.text y.text → x.name = y.name) := by
  have tasks : (d.ids.map (nodeId d.id)).Nodup ↔ ∀ a ∈ d.ids, ∀ b ∈ d.ids,
      Clash (d.id ++ "::" ++ a) (d.id ++ "::" ++ b) → a = b := by
    rw [List.nodup_map_iff_inj_on reachable.consistent.distinct]
    simp only [nodeId_eq_iff]
  exact ⟨fun _ _ => nodeId_eq_iff,nodeId_Aa_BB file,Mermaid.lines_ofDag reachable,tasks,
    ids_scan settings root,fun _ => label_scan settings root,own_nodes_iff settings root⟩

def twoTasks (a b : String) : Dag :=
  [.bashTask a "true",.bashTask b "true",.link ⟨"x",a⟩ ⟨"x",b⟩].foldl Dag.after
    ⟨"x",none,⟨0,0⟩,Schedule.manual,false,[],[]⟩

theorem reachable_twoTasks (a b : String) : Dag.Reachable (twoTasks a b) :=
  (Dag.Reachable.new (Dag.new_ok.mpr ⟨by decide,rfl⟩)).afterAll _

def twoJobs (a b : String) : FileTree :=
  .directory
    [("ci.yml",.file (.text ("jobs:\n  " ++ a ++ ":\n    x: 1\n  " ++ b ++ ":\n    x: 1\n")))]

theorem shared_iff_clash_apart :
    (Text.lines (Mermaid.ofDag (twoTasks "a" "b")).toList).map String.ofList =
      ["flowchart TD","  n3632553[\"a\"]","  n3632554[\"b\"]","  n3632553 --> n3632554"] ∧
    ((twoTasks "a" "b").ids.map (nodeId "x")).Nodup ∧
    (∀ x ∈ entities {} (twoJobs "Aa" "Bb"),
      ⟨x.id,x.name⟩ ∈ (scan {} (twoJobs "Aa" "Bb")).nodes) ∧
    entities {} (twoJobs "Aa" "Bb") = [⟨"ci.yml","Aa"⟩,⟨"ci.yml","Bb"⟩] := by
  obtain ⟨-,-,lines,tasks,-,-,own⟩ :=
    shared_iff_clash "ci.yml" (reachable_twoTasks "a" "b") {} (twoJobs "Aa" "Bb")
  have found : entities {} (twoJobs "Aa" "Bb") = [⟨"ci.yml","Aa"⟩,⟨"ci.yml","Bb"⟩] := by
    decide +kernel
  refine ⟨?_,tasks.mpr (by decide),own.mpr ?_,found⟩
  · rw [lines]
    decide
  · rw [found]
    decide

/-- Two tasks of one DAG share a name in its chart, and two jobs of one file a node, which is found
under the second name only. -/
theorem shared_Aa_BB : "Aa" ≠ "BB" ∧ nodeId "ci.yml" "Aa" = nodeId "ci.yml" "BB" ∧
    (Dag.Reachable (twoTasks "Aa" "BB") ∧ (twoTasks "Aa" "BB").ids = ["Aa","BB"] ∧
      ¬ ((twoTasks "Aa" "BB").ids.map (nodeId "x")).Nodup) ∧
    entities {} (twoJobs "Aa" "BB") = [⟨"ci.yml","Aa"⟩,⟨"ci.yml","BB"⟩] ∧
    (scan {} (twoJobs "Aa" "BB")).nodes = [⟨"n1278362160","BB"⟩] ∧
    (scan {} (twoJobs "Aa" "BB")).findByLabel "Aa" = [] := by
  refine ⟨by decide,by decide,⟨reachable_twoTasks "Aa" "BB",by decide,by decide⟩,
    by decide +kernel,by decide +kernel,by decide +kernel⟩

end Workspace

end PipelineAtlas

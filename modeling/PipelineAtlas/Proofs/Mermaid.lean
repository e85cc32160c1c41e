import PipelineAtlas.Mermaid
import PipelineAtlas.Proofs.Dag.Operation
import PipelineAtlas.Proofs.Graph.WellFormed
import PipelineAtlas.Proofs.Text.Lines

/-! The lines of flowcharts. A chart of names and labels that hold no line feed is its header, a line for
each node and a line for each edge, in order. -/
namespace PipelineAtlas

theorem IsNodeName.isWhole {id : String} (name : IsNodeName id) : Text.IsWhole id.toList := by
  obtain ⟨n,-,rfl⟩ := name
  have digits : Text.IsWhole (Nat.toDigits 10 n) := by
    have digit {c : Char} (inside : c ∈ Nat.toDigits 10 n) : c.isDigit = true :=
      Nat.isDigit_of_mem_toDigits (by decide) (by decide) inside
    refine ⟨fun inside => ?_,fun last => ?_,Nat.toDigits_ne_nil⟩
    · exact absurd (digit inside) (by decide)
    · exact absurd (digit (List.mem_of_getLast? last)) (by decide)
  rw [String.toList_append]
  have shown : (toString n).toList = Nat.toDigits 10 n := Nat.toList_repr
  rw [shown]
  exact digits.append (by decide)

namespace Mermaid

def nodeText (id label : String) : String :=
  "  " ++ id ++ "[\"" ++ escapeLabel (if label.isEmpty then id else label) ++ "\"]"

def edgeText (source target : String) : String := "  " ++ source ++ " --> " ++ target

theorem toList_nodeLine (id label : String) :
    (nodeLine id label).toList = '\n' :: (nodeText id label).toList := by
  simp [nodeLine,nodeText]

theorem toList_edgeLine (source target : String) :
    (edgeLine source target).toList = '\n' :: (edgeText source target).toList := by
  simp [edgeLine,edgeText]

/-- The lines of a chart below its header. -/
def rows (nodes edges : List (String × String)) : List String :=
  (nodes.map fun (id,label) => nodeText id label) ++
    edges.map fun (source,target) => edgeText source target

theorem toList_flowchart (nodes edges : List (String × String)) : (flowchart nodes edges).toList =
    "flowchart TD".toList ++ (rows nodes edges).flatMap fun row => '\n' :: row.toList := by
  simp only [flowchart,rows,String.toList_append,String.toList_join,List.flatMap_append,
    List.flatMap_map,toList_nodeLine,toList_edgeLine,List.append_assoc]

theorem not_mem_escapeLabel {label : String} (unbroken : '\n' ∉ label.toList) :
    '\n' ∉ (escapeLabel label).toList := by
  rw [escapeLabel,String.toList_ofList,List.mem_flatMap]
  rintro ⟨c,inside,escaped⟩
  split at escaped
  · revert escaped
    decide
  · rw [List.mem_singleton] at escaped
    exact unbroken (escaped ▸ inside)

theorem isWhole_nodeText {id label : String} (idUnbroken : '\n' ∉ id.toList)
    (labelUnbroken : '\n' ∉ label.toList) : Text.IsWhole (nodeText id label).toList := by
  have shown : '\n' ∉ (escapeLabel (if label.isEmpty then id else label)).toList := by
    split
    · exact not_mem_escapeLabel idUnbroken
    · exact not_mem_escapeLabel labelUnbroken
  rw [nodeText,String.toList_append]
  refine Text.IsWhole.append ?_ ⟨by decide,by decide,by decide⟩
  simp only [String.toList_append,List.mem_append,not_or]
  exact ⟨⟨⟨by decide,idUnbroken⟩,by decide⟩,shown⟩

theorem isWhole_edgeText {source target : String} (unbroken : '\n' ∉ source.toList)
    (whole : Text.IsWhole target.toList) : Text.IsWhole (edgeText source target).toList := by
  rw [edgeText,String.toList_append]
  refine whole.append ?_
  simp [unbroken]

theorem lines_flowchart {nodes edges : List (String × String)}
    (nodesUnbroken : ∀ n ∈ nodes, '\n' ∉ n.1.toList ∧ '\n' ∉ n.2.toList)
    (edgesWhole : ∀ e ∈ edges, '\n' ∉ e.1.toList ∧ Text.IsWhole e.2.toList) :
    (Text.lines (flowchart nodes edges).toList).map String.ofList =
      "flowchart TD" :: rows nodes edges := by
  rw [toList_flowchart]
  refine Text.lines_rows ⟨by decide,by decide,by decide⟩ fun row member => ?_
  rcases List.mem_append.mp member with node | edge
  · obtain ⟨n,inside,rfl⟩ := List.mem_map.mp node
    exact isWhole_nodeText (nodesUnbroken n inside).1 (nodesUnbroken n inside).2
  · obtain ⟨e,inside,rfl⟩ := List.mem_map.mp edge
    exact isWhole_edgeText (edgesWhole e inside).1 (edgesWhole e inside).2

theorem isIdentifierChar_of_mem {id : String} (wellFormed : isWellFormed id = true) {c : Char}
    (inside : c ∈ id.toList) : isIdentifierChar c = true := by
  rw [isWellFormed,Bool.and_eq_true,List.all_eq_true] at wellFormed
  exact wellFormed.2 c inside

theorem unbroken_of_wellFormed {id : String} (wellFormed : isWellFormed id = true) :
    '\n' ∉ id.toList := fun inside =>
  absurd (isIdentifierChar_of_mem wellFormed inside) (by decide)

theorem escapeLabel_of_wellFormed {label : String} (wellFormed : isWellFormed label = true) :
    escapeLabel label = label := by
  have kept : (label.toList.flatMap fun c => if c = '"' then ['\\','"'] else [c]) =
      label.toList.flatMap fun c => [c] := by
    refine List.flatMap_congr fun c inside => if_neg ?_
    rintro rfl
    exact absurd (isIdentifierChar_of_mem wellFormed inside) (by decide)
  rw [escapeLabel,kept,List.flatMap_singleton',String.ofList_toList]

theorem nodeText_of_wellFormed {id label : String} (wellFormed : isWellFormed label = true) :
    nodeText id label = "  " ++ id ++ "[\"" ++ label ++ "\"]" := by
  have nonempty : label.isEmpty = false := by
    rw [Bool.eq_false_iff]
    intro empty
    obtain rfl := String.isEmpty_iff.mp empty
    exact absurd wellFormed (by decide)
  rw [nodeText,nonempty,if_neg Bool.false_ne_true,escapeLabel_of_wellFormed wellFormed]

theorem lines_ofDag {d : Dag} (reachable : Dag.Reachable d) :
    (Text.lines (ofDag d).toList).map String.ofList =
      "flowchart TD" ::
        ((d.ids.map fun id => "  " ++ nodeId d.id id ++ "[\"" ++ id ++ "\"]") ++
          d.edges.map fun e =>
            "  " ++ nodeId d.id e.source ++ " --> " ++ nodeId d.id e.target) := by
  have consistent := reachable.consistent
  have plain (key : String) := (isNodeName_nodeId d.id key).isWhole
  rw [ofDag,lines_flowchart]
  · have shown : ∀ t ∈ d.tasks, nodeText (nodeId d.id t.id) t.id =
        "  " ++ nodeId d.id t.id ++ "[\"" ++ t.id ++ "\"]" := fun t member =>
      nodeText_of_wellFormed (consistent.wellFormed t.id (List.mem_map_of_mem member))
    simp only [rows,List.map_map,Dag.ids]
    exact congrArg _ (congrArg (· ++ _) (List.map_congr_left shown))
  · rintro n member
    obtain ⟨t,inside,rfl⟩ := List.mem_map.mp member
    have wellFormed := consistent.wellFormed t.id (List.mem_map_of_mem inside)
    exact ⟨(plain t.id).unbroken,unbroken_of_wellFormed wellFormed⟩
  · rintro n member
    obtain ⟨e,inside,rfl⟩ := List.mem_map.mp member
    exact ⟨(plain e.source).unbroken,plain e.target⟩

end Mermaid

end PipelineAtlas

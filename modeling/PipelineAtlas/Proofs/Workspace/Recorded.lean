import PipelineAtlas.Proofs.Workspace.SharedNode

/-! Graphs of things that do not share nodes. The nodes, the edges and the places are read off what was
found: each thing has one node with its own name, at the place of its first finding, and its location
is the place where it is defined. -/
namespace PipelineAtlas

/-- No two things have one node. -/
def Entity.Apart (xs : List Entity) : Prop := ∀ x ∈ xs, ∀ y ∈ xs, x.id = y.id → x = y

theorem Entity.Apart.subset {xs ys : List Entity} (apart : Apart ys) (inside : xs ⊆ ys) :
    Apart xs :=
  fun x first y second => apart x (inside first) y (inside second)

def Entity.node (x : Entity) : GraphNode := ⟨x.id,x.name⟩

namespace Finding

def link? : Finding → Option (Entity × Entity)
  | .linked source target => some (source,target)
  | _ => none

def definition? : Finding → Option (Entity × Location)
  | .defined x l => some (x,l)
  | _ => none

def mention? : Finding → Option (Entity × Location)
  | .mentioned x l => some (x,l)
  | _ => none

def entities (findings : List Finding) : List Entity := findings.filterMap entity?

def links (findings : List Finding) : List (Entity × Entity) := findings.filterMap link?

def definitions (findings : List Finding) : List (Entity × Location) := findings.filterMap definition?

def mentions (findings : List Finding) : List (Entity × Location) := findings.filterMap mention?

def place (p : Entity × Location) : String × Location := (p.1.id,p.2)

theorem definitions_append (findings more : List Finding) :
    definitions (findings ++ more) = definitions findings ++ definitions more := List.filterMap_append

theorem mentions_append (findings more : List Finding) :
    mentions (findings ++ more) = mentions findings ++ mentions more := List.filterMap_append

variable (items : List α) (found : α → List Finding)

theorem entities_flatMap : entities (items.flatMap found) = items.flatMap (entities ∘ found) :=
  List.filterMap_flatMap

theorem links_flatMap : links (items.flatMap found) = items.flatMap (links ∘ found) :=
  List.filterMap_flatMap

theorem definitions_flatMap :
    definitions (items.flatMap found) = items.flatMap (definitions ∘ found) :=
  List.filterMap_flatMap

theorem mentions_flatMap : mentions (items.flatMap found) = items.flatMap (mentions ∘ found) :=
  List.filterMap_flatMap

end Finding

def linkEdge (link : Entity × Entity) : GraphEdge := ⟨link.1.id,link.2.id⟩

namespace PipelineGraph

open Finding

theorem records_record (findings : List Finding) :
    Records (findings.map Finding.call) (empty.record findings) := records_afterAll _

theorem ids_record (findings : List Finding) :
    (empty.record findings).ids = ((entities findings).map Entity.id).eraseDups := by
  rw [(records_record findings).ids,filterMap_named?,List.map_map]
  rfl

theorem edges_record (findings : List Finding) :
    (empty.record findings).edges = ((links findings).map linkEdge).eraseDups := by
  rw [(records_record findings).edges,List.filterMap_map,links,List.map_filterMap]
  congr 2
  funext f
  cases f <;> rfl

theorem mem_edges_record {findings : List Finding} {e : GraphEdge} :
    e ∈ (empty.record findings).edges ↔ ∃ link ∈ links findings, linkEdge link = e := by
  rw [edges_record,List.mem_eraseDups,List.mem_map]

theorem nodup_edges_record (findings : List Finding) : (empty.record findings).edges.Nodup := by
  rw [edges_record]
  exact FirstOccurrence.nodup_eraseDups _

theorem exists_of_mem_nodes {findings : List Finding} {n : GraphNode}
    (member : n ∈ (empty.record findings).nodes) : ∃ x ∈ entities findings, n = x.node := by
  have last := (records_record findings).labels n member
  rw [filterMap_named?,← List.map_reverse,lookup_map_entity] at last
  obtain ⟨x,found,label⟩ := Option.map_eq_some_iff.mp last
  have named : x.id = n.id := by simpa using List.find?_some found
  refine ⟨x,List.mem_reverse.mp (List.mem_of_find?_eq_some found),?_⟩
  rw [Entity.node,named,label]

/-- Things that are apart have a node each, in the order in which they were found. -/
theorem nodes_record {findings : List Finding} (apart : Entity.Apart (entities findings)) :
    (empty.record findings).nodes = (entities findings).eraseDups.map Entity.node := by
  have ids : (empty.record findings).nodes.map (·.id) =
      (entities findings).eraseDups.map Entity.id :=
    (ids_record findings).trans (FirstOccurrence.eraseDups_map apart)
  have size := congrArg List.length ids
  rw [List.length_map,List.length_map] at size
  apply List.ext_getElem
  · rw [size,List.length_map]
  · intro i left right
    obtain ⟨x,found,node⟩ := exists_of_mem_nodes (List.getElem_mem left)
    have bound : i < (entities findings).eraseDups.length := by simpa using right
    have member := List.mem_eraseDups.mp (List.getElem_mem bound)
    have named : (empty.record findings).nodes[i].id = ((entities findings).eraseDups[i]).id := by
      have here := List.getElem_of_eq ids (by simpa using left : i < _)
      rwa [List.getElem_map,List.getElem_map] at here
    rw [List.getElem_map,node]
    rw [node] at named
    rw [apart x found _ member named]

theorem mem_nodes_record {findings : List Finding} (apart : Entity.Apart (entities findings))
    {n : GraphNode} :
    n ∈ (empty.record findings).nodes ↔ ∃ x ∈ entities findings, x.node = n := by
  rw [nodes_record apart,List.mem_map]
  simp only [List.mem_eraseDups]

theorem nodup_nodes_record (findings : List Finding) : (empty.record findings).nodes.Nodup := by
  have distinct : (empty.record findings).ids.Nodup := by
    rw [ids_record]
    exact FirstOccurrence.nodup_eraseDups _
  exact distinct.of_map _

/-- Where a name is located once more is recorded: where it was last defined, or else where it was located
before, or else where it was first mentioned. -/
theorem location?_record_onto (g : PipelineGraph) (findings : List Finding) (id : String) :
    (g.record findings).location? id = (((definitions findings).map place).reverse.lookup id).or
      ((g.location? id).or (((mentions findings).map place).lookup id)) := by
  induction findings using List.reverseRecOn with
  | nil => exact Option.or_none.symm
  | append_singleton findings f ih =>
    have step : (g.record (findings ++ [f])).location? id =
        (((definitions [f]).map place).reverse.lookup id).or
          (((g.record findings).location? id).or (((mentions [f]).map place).lookup id)) := by
      rw [record_append]
      refine (location?_after (g.record findings) f.call id).trans ?_
      cases f <;> rfl
    rw [step,ih,definitions_append,mentions_append,List.map_append,List.map_append,
      List.reverse_append,List.lookup_append,List.lookup_append]
    simp only [Option.or_assoc]

theorem location?_record_empty (findings : List Finding) (id : String) :
    (empty.record findings).location? id = (((definitions findings).map place).reverse.lookup id).or
      (((mentions findings).map place).lookup id) := by
  rw [location?_record_onto]
  rfl

theorem location?_record {findings : List Finding} {x : Entity} {l : Location}
    (defined : (x,l) ∈ definitions findings)
    (unique : ∀ other ∈ definitions findings, other.1.id = x.id → other.2 = l) :
    (empty.record findings).location? x.id = some l := by
  have found : ((definitions findings).map place).reverse.lookup x.id = some l := by
    apply FirstOccurrence.lookup_of_unique
    · exact List.mem_reverse.mpr (List.mem_map.mpr ⟨(x,l),defined,rfl⟩)
    · intro other member
      obtain ⟨d,inside,same⟩ := List.mem_map.mp (List.mem_reverse.mp member)
      obtain ⟨named,rfl⟩ := Prod.mk.inj same
      exact unique d inside named
  rw [location?_record_empty,found]
  rfl

end PipelineGraph

end PipelineAtlas

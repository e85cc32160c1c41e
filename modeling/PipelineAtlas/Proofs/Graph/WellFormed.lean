import Mathlib.Data.List.Nodup
import PipelineAtlas.Graph
import PipelineAtlas.NodeId

/-! Graphs grow: nothing that is done to a graph takes a node, a location or an edge away. And what is
done keeps the parts of a graph fitting together. -/
namespace PipelineAtlas

theorem Locations.isSome_put (id : String) (l : Location) (ls : Locations) (key : String) :
    ((ls.put id l).find? key).isSome = (key == id || (ls.find? key).isSome) := by
  induction ls with
  | nil =>
    rw [put,find?,List.lookup_cons]
    cases key == id <;> rfl
  | cons entry rest ih =>
    obtain ⟨other,old⟩ := entry
    simp only [find?] at ih ⊢
    unfold put
    split
    next same =>
      subst same
      rw [List.lookup_cons,List.lookup_cons]
      cases key == id <;> simp
    next =>
      split
      next =>
        rw [List.lookup_cons]
        cases key == id <;> simp
      next =>
        rw [List.lookup_cons,List.lookup_cons]
        cases key == other <;> simp [ih]

namespace PipelineGraph

structure Grows (g g' : PipelineGraph) : Prop where
  nodes : ∀ id, g.contains id = true → g'.contains id = true
  locations : ∀ id, (g.location? id).isSome = true → (g'.location? id).isSome = true
  edges : ∀ e ∈ g.edges, e ∈ g'.edges

theorem contains_addNode (g : PipelineGraph) (id label key : String) :
    (g.addNode id label).contains key = (key == id || g.contains key) := by
  cases there : g.contains id with
  | true =>
    have renamed : (g.addNode id label).contains key = g.contains key := by
      have relabelled : (g.addNode id label).nodes =
          g.nodes.map fun n => if n.id == id then ⟨n.id,label⟩ else n := by
        simp only [addNode,there,if_true]
      rw [contains,relabelled,List.any_map,contains]
      congr 1
      funext n
      simp only [Function.comp_apply]
      split <;> rfl
    rw [renamed]
    cases same : key == id with
    | false => rfl
    | true =>
      obtain rfl := eq_of_beq same
      exact there
  | false =>
    have appended : (g.addNode id label).nodes = g.nodes ++ [⟨id,label⟩] := by
      simp only [addNode,there,Bool.false_eq_true,if_false]
    rw [contains,appended,List.any_append,Bool.or_comm,List.any_cons,List.any_nil,Bool.or_false,
      Bool.beq_comm]
    rfl

theorem Grows.refl (g : PipelineGraph) : Grows g g :=
  ⟨fun _ here => here,fun _ here => here,fun _ here => here⟩

theorem Grows.trans {g g' g'' : PipelineGraph} (first : Grows g g') (second : Grows g' g'') :
    Grows g g'' :=
  ⟨fun id here => second.nodes id (first.nodes id here),
    fun id here => second.locations id (first.locations id here),
    fun e here => second.edges e (first.edges e here)⟩

theorem grows_addNode (g : PipelineGraph) (id label : String) : Grows g (g.addNode id label) where
  nodes key here := by rw [contains_addNode,here,Bool.or_true]
  locations _ here := here
  edges _ here := here

theorem grows_define (g : PipelineGraph) (id label : String) (l : Location) :
    Grows g (g.define id label l) where
  nodes := (g.grows_addNode id label).nodes
  locations key here := (Locations.isSome_put id l g.locations key).trans (by
    simp only [location?] at here
    rw [here,Bool.or_true])
  edges _ here := here

theorem grows_mention (g : PipelineGraph) (id label : String) (l : Location) :
    Grows g (g.mention id label l) where
  nodes := (g.grows_addNode id label).nodes
  locations key here := by
    simp only [mention,location?,Locations.putNew]
    split
    next => exact here
    next => exact (g.grows_define id label l).locations key here
  edges _ here := here

theorem mem_addEdge {g : PipelineGraph} {source target : String} {e : GraphEdge} :
    e ∈ (g.addEdge source target).edges ↔ e ∈ g.edges ∨ e = ⟨source,target⟩ := by
  unfold addEdge
  split
  next there =>
    have member : (⟨source,target⟩ : GraphEdge) ∈ g.edges := by simpa using there
    refine ⟨.inl,fun either => either.elim id ?_⟩
    rintro rfl
    exact member
  next => simp

theorem grows_addEdge (g : PipelineGraph) (source target : String) :
    Grows g (g.addEdge source target) where
  nodes id here := by
    unfold addEdge
    split <;> exact here
  locations id here := by
    unfold addEdge
    split <;> exact here
  edges e here := mem_addEdge.mpr (.inl here)

theorem grows_foldl {add : PipelineGraph → α → PipelineGraph} (items : List α)
    (step : ∀ g x, Grows g (add g x)) (g : PipelineGraph) : Grows g (items.foldl add g) := by
  induction items generalizing g with
  | nil => exact .refl g
  | cons x items ih => exact (step g x).trans (ih (add g x))

/-- What one step brings about holds in the end. -/
theorem holds_foldl {add : PipelineGraph → α → PipelineGraph} {P : α → PipelineGraph → Prop}
    (keeps : ∀ {x g g'}, Grows g g' → P x g → P x g') (grows : ∀ g x, Grows g (add g x))
    {items : List α} (step : ∀ x ∈ items, ∀ g, P x (add g x)) (g : PipelineGraph) :
    ∀ x ∈ items, P x (items.foldl add g) := by
  induction items generalizing g with
  | nil => simp
  | cons x items ih =>
    refine List.forall_mem_cons.mpr ⟨?_,ih (fun y inside => step y (List.mem_cons_of_mem x inside)) _⟩
    exact keeps (grows_foldl items grows (add g x)) (step x List.mem_cons_self g)

end PipelineGraph

/-- The letter n and the digits of the magnitude of a 32-bit number. -/
def IsNodeName (id : String) : Prop := ∃ n, n ≤ 0x80000000 ∧ id = "n" ++ toString n

theorem natAbs_hashCode_le (s : String) : (hashCode s).natAbs ≤ 0x80000000 := by
  refine List.foldlRecOn (motive := fun h : Int => h.natAbs ≤ 0x80000000) _ _ (by decide) ?_
  intro h _ u _
  have lower := Int.le_bmod (x := h * 31 + u) (m := 0x100000000) (by decide)
  have upper := Int.bmod_lt (x := h * 31 + u) (m := 0x100000000) (by decide)
  simp only [hashStep]
  omega

theorem isNodeName_nodeId (file key : String) : IsNodeName (nodeId file key) :=
  ⟨_,natAbs_hashCode_le _,rfl⟩

theorem Locations.mem_put {id : String} {l : Location} {ls : Locations}
    {entry : String × Location} (member : entry ∈ ls.put id l) :
    entry = (id,l) ∨ entry ∈ ls := by
  induction ls with
  | nil => exact .inl (List.mem_singleton.mp member)
  | cons other rest ih =>
    obtain ⟨key,old⟩ := other
    unfold put at member
    split at member
    next same =>
      subst same
      exact (List.mem_cons.mp member).imp_right (List.mem_cons_of_mem _)
    next =>
      split at member
      next => exact List.mem_cons.mp member
      next =>
        rcases List.mem_cons.mp member with rfl | later
        · exact .inr List.mem_cons_self
        · exact (ih later).imp_right (List.mem_cons_of_mem _)

theorem Locations.mem_putNew {id : String} {l : Location} {ls : Locations}
    {entry : String × Location} (member : entry ∈ ls.putNew id l) :
    entry = (id,l) ∨ entry ∈ ls := by
  unfold putNew at member
  split at member
  next => exact .inr member
  next => exact mem_put member

namespace PipelineGraph

/-- What holds of a graph all of whose locations are of one kind. -/
structure WellFormed (placed : Location → Prop) (g : PipelineGraph) : Prop where
  distinct : (g.nodes.map (·.id)).Nodup
  named : ∀ n ∈ g.nodes, IsNodeName n.id
  unique : g.edges.Nodup
  closed : ∀ e ∈ g.edges, g.contains e.source = true ∧ g.contains e.target = true
  located : ∀ entry ∈ g.locations, g.contains entry.1 = true
  placed : ∀ entry ∈ g.locations, placed entry.2

theorem contains_iff {g : PipelineGraph} {id : String} :
    g.contains id = true ↔ id ∈ g.nodes.map (·.id) := by
  simp [contains]

theorem contains_addNode_self (g : PipelineGraph) (id label : String) :
    (g.addNode id label).contains id = true := by
  simp [contains_addNode]

theorem ids_addNode (g : PipelineGraph) (id label : String) : (g.addNode id label).nodes.map (·.id) =
    if g.contains id then g.nodes.map (·.id) else g.nodes.map (·.id) ++ [id] := by
  unfold addNode
  cases g.contains id with
  | true =>
    simp only [if_true,List.map_map]
    refine List.map_congr_left fun n _ => ?_
    simp only [Function.comp_apply]
    split <;> rfl
  | false => simp

namespace WellFormed

variable {placed : Location → Prop} {g : PipelineGraph}

theorem empty (placed : Location → Prop) : WellFormed placed .empty := by
  constructor <;> simp [PipelineGraph.empty]

variable (wellFormed : WellFormed placed g)

include wellFormed

theorem addNode {id : String} (name : IsNodeName id) (label : String) :
    WellFormed placed (g.addNode id label) := by
  have grows := g.grows_addNode id label
  have ids := g.ids_addNode id label
  constructor
  · rw [ids]
    split
    next => exact wellFormed.distinct
    next absent =>
      rw [contains_iff] at absent
      exact wellFormed.distinct.append (by simp) (by simpa using absent)
  · have named : ∀ key ∈ (g.addNode id label).nodes.map (·.id), IsNodeName key := by
      rw [ids]
      intro key member
      have old : ∀ key ∈ g.nodes.map (·.id), IsNodeName key := by
        simpa using wellFormed.named
      split at member
      next => exact old key member
      next =>
        rcases List.mem_append.mp member with before | new
        · exact old key before
        · rwa [List.mem_singleton.mp new]
    exact fun n member => named n.id (List.mem_map_of_mem member)
  · exact wellFormed.unique
  · intro e member
    exact (wellFormed.closed e member).imp (grows.nodes _) (grows.nodes _)
  · exact fun entry member => grows.nodes _ (wellFormed.located entry member)
  · exact wellFormed.placed

theorem relocate {locations : Locations}
    (located : ∀ entry ∈ locations, (g.contains entry.1 = true ∧ placed entry.2) ∨
      entry ∈ g.locations) : WellFormed placed { g with locations := locations } where
  distinct := wellFormed.distinct
  named := wellFormed.named
  unique := wellFormed.unique
  closed := wellFormed.closed
  located entry member := (located entry member).elim And.left (wellFormed.located entry)
  placed entry member := (located entry member).elim And.right (wellFormed.placed entry)

theorem define {id : String} (name : IsNodeName id) (label : String) {l : Location}
    (place : placed l) : WellFormed placed (g.define id label l) := by
  refine (wellFormed.addNode name label).relocate fun entry member => ?_
  rcases Locations.mem_put member with rfl | old
  · exact .inl ⟨g.contains_addNode_self id label,place⟩
  · exact .inr old

theorem mention {id : String} (name : IsNodeName id) (label : String) {l : Location}
    (place : placed l) : WellFormed placed (g.mention id label l) := by
  refine (wellFormed.addNode name label).relocate fun entry member => ?_
  rcases Locations.mem_putNew member with rfl | old
  · exact .inl ⟨g.contains_addNode_self id label,place⟩
  · exact .inr old

theorem addEdge {source target : String} (sourceThere : g.contains source = true)
    (targetThere : g.contains target = true) : WellFormed placed (g.addEdge source target) := by
  unfold PipelineGraph.addEdge
  split
  next => exact wellFormed
  next absent =>
    constructor
    · exact wellFormed.distinct
    · exact wellFormed.named
    · exact wellFormed.unique.append (by simp) (by simpa using absent)
    · intro e member
      rcases List.mem_append.mp member with old | new
      · exact wellFormed.closed e old
      · obtain rfl := List.mem_singleton.mp new
        exact ⟨sourceThere,targetThere⟩
    · exact wellFormed.located
    · exact wellFormed.placed

end WellFormed

end PipelineGraph

end PipelineAtlas

import PipelineAtlas.Proofs.FirstOccurrence
import PipelineAtlas.Proofs.Graph.WellFormed

/-! Graphs as records of calls. What a graph holds is read off the calls that were made on it: the
names in the order in which they came up first, each with its last label, the edges without their
repetitions, and for each name the last place of a definition or else the first of a mention. -/
namespace PipelineAtlas

namespace Locations

def keys (ls : Locations) : List String := ls.map (·.1)

theorem find?_cons (id : String) (l : Location) (ls : Locations) (key : String) :
    find? ((id,l) :: ls) key = if key = id then some l else ls.find? key := by
  rw [find?,List.lookup_cons]
  by_cases same : key = id
  · rw [beq_iff_eq.mpr same,if_pos same]
  · rw [beq_eq_false_iff_ne.mpr same,if_neg same,find?]

theorem find?_put (id : String) (l : Location) (ls : Locations) (key : String) :
    (ls.put id l).find? key = if key = id then some l else ls.find? key := by
  induction ls with
  | nil => exact find?_cons id l [] key
  | cons entry rest ih =>
    obtain ⟨other,old⟩ := entry
    unfold put
    split
    next same =>
      subst same
      simp only [find?_cons]
      split <;> rfl
    next different =>
      split
      next => rw [find?_cons]
      next =>
        simp only [find?_cons,ih]
        split
        next there => rw [if_neg fun same => different (same.symm.trans there)]
        next => rfl

theorem find?_putNew (id : String) (l : Location) (ls : Locations) (key : String) :
    (ls.putNew id l).find? key = (ls.find? key).or (if key = id then some l else none) := by
  unfold putNew
  split
  next there =>
    split
    next same => rw [same,Option.or_of_isSome there]
    next => rw [Option.or_none]
  next absent =>
    rw [find?_put]
    split
    next same => rw [same,Option.not_isSome_iff_eq_none.mp absent,Option.none_or]
    next => rw [Option.or_none]

theorem keys_put (id : String) (l : Location) (ls : Locations) {key : String}
    (member : key ∈ (ls.put id l).keys) : key = id ∨ key ∈ ls.keys := by
  obtain ⟨entry,inside,rfl⟩ := List.mem_map.mp member
  rcases mem_put inside with rfl | old
  · exact .inl rfl
  · exact .inr (List.mem_map_of_mem old)

def Sorted (ls : Locations) : Prop := ls.keys.Pairwise (· < ·)

theorem Sorted.put {ls : Locations} (sorted : Sorted ls) (id : String) (l : Location) :
    Sorted (ls.put id l) := by
  induction ls with
  | nil => exact List.pairwise_singleton _ _
  | cons entry rest ih =>
    obtain ⟨other,old⟩ := entry
    obtain ⟨least,sortedRest⟩ := List.pairwise_cons.mp sorted
    unfold Locations.put
    split
    next => exact List.pairwise_cons.mpr ⟨least,sortedRest⟩
    next different =>
      split
      next before =>
        refine List.pairwise_cons.mpr ⟨fun key member => ?_,sorted⟩
        rcases List.mem_cons.mp member with rfl | later
        · exact before
        · exact String.lt_trans before (least key later)
      next behind =>
        refine List.pairwise_cons.mpr ⟨fun key member => ?_,ih sortedRest⟩
        rcases keys_put id l rest member with rfl | later
        · exact String.not_le.mp fun above =>
            different (String.le_antisymm above (String.not_lt.mp behind))
        · exact least key later

theorem Sorted.putNew {ls : Locations} (sorted : Sorted ls) (id : String) (l : Location) :
    Sorted (ls.putNew id l) := by
  unfold Locations.putNew
  split
  next => exact sorted
  next => exact sorted.put id l

theorem find?_eq_none {ls : Locations} {key : String} (absent : key ∉ ls.keys) :
    ls.find? key = none := by
  rw [find?,List.lookup_eq_none_iff]
  intro entry member
  rw [bne_iff_ne]
  rintro rfl
  exact absent (List.mem_map_of_mem member)

theorem mem_keys_of_find? {ls : Locations} {key : String} {l : Location}
    (found : ls.find? key = some l) : key ∈ ls.keys := by
  by_contra absent
  rw [find?_eq_none absent] at found
  cases found

theorem Sorted.first_le {first key : String} {old l : Location} {rest : Locations}
    (sorted : Sorted ((first,old) :: rest)) (found : find? ((first,old) :: rest) key = some l) :
    first ≤ key := by
  rcases List.mem_cons.mp (mem_keys_of_find? found) with rfl | later
  · exact String.le_refl _
  · exact String.not_lt.mp (String.lt_asymm ((List.pairwise_cons.mp sorted).1 key later))

/-- Sorted locations are determined by what is found in them. -/
theorem Sorted.eq_of_find? {ls others : Locations} (sorted : Sorted ls)
    (othersSorted : Sorted others) (same : ∀ key, ls.find? key = others.find? key) :
    ls = others := by
  induction ls generalizing others with
  | nil =>
    cases others with
    | nil => rfl
    | cons entry rest =>
      have found := (same entry.1).trans (List.lookup_cons_self (k := entry.1))
      cases found
  | cons entry rest ih =>
    obtain ⟨key,l⟩ := entry
    have here : find? ((key,l) :: rest) key = some l := List.lookup_cons_self
    cases others with
    | nil =>
      rw [same] at here
      cases here
    | cons other otherRest =>
      obtain ⟨otherKey,otherL⟩ := other
      have there : find? ((otherKey,otherL) :: otherRest) otherKey = some otherL :=
        List.lookup_cons_self
      have above := othersSorted.first_le ((same key).symm.trans here)
      have below := sorted.first_le ((same otherKey).trans there)
      obtain rfl := String.le_antisymm below above
      rw [same,there,Option.some.injEq] at here
      subst here
      obtain ⟨least,restSorted⟩ := List.pairwise_cons.mp sorted
      obtain ⟨otherLeast,otherRestSorted⟩ := List.pairwise_cons.mp othersSorted
      refine congrArg _ (ih restSorted otherRestSorted fun name => ?_)
      have found := same name
      simp only [find?_cons] at found
      split at found
      next again =>
        subst again
        rw [find?_eq_none fun member => String.lt_irrefl _ (least _ member),
          find?_eq_none fun member => String.lt_irrefl _ (otherLeast _ member)]
      next => exact found

end Locations

namespace PipelineGraph

inductive Call where
  | addNode (id label : String)
  | define (id label : String) (l : Location)
  | mention (id label : String) (l : Location)
  | addEdge (source target : String)
deriving DecidableEq, Repr

namespace Call

def named? : Call → Option (String × String)
  | .addNode id label | .define id label _ | .mention id label _ => some (id,label)
  | .addEdge _ _ => none

def defined? : Call → Option (String × Location)
  | .define id _ l => some (id,l)
  | _ => none

def mentioned? : Call → Option (String × Location)
  | .mention id _ l => some (id,l)
  | _ => none

def edge? : Call → Option GraphEdge
  | .addEdge source target => some ⟨source,target⟩
  | _ => none

end Call

def after (g : PipelineGraph) : Call → PipelineGraph
  | .addNode id label => g.addNode id label
  | .define id label l => g.define id label l
  | .mention id label l => g.mention id label l
  | .addEdge source target => g.addEdge source target

def afterAll (g : PipelineGraph) (calls : List Call) : PipelineGraph := calls.foldl after g

def ids (g : PipelineGraph) : List String := g.nodes.map (·.id)

theorem nodes_after_named (g : PipelineGraph) {call : Call} {id label : String}
    (named : call.named? = some (id,label)) : (g.after call).nodes = (g.addNode id label).nodes := by
  cases call <;> cases named <;> rfl

theorem nodes_after_other (g : PipelineGraph) {call : Call} (other : call.named? = none) :
    (g.after call).nodes = g.nodes := by
  cases call with
  | addEdge source target =>
    simp only [after,addEdge]
    split <;> rfl
  | _ => cases other

theorem edges_after (g : PipelineGraph) (call : Call) : (g.after call).edges =
    g.edges ++ call.edge?.toList.filter fun e => !g.edges.elem e := by
  cases call with
  | addEdge source target =>
    simp only [after,addEdge,Call.edge?,Option.toList_some,List.filter_singleton,
      List.contains_eq_mem]
    split <;> simp_all
  | _ => exact (List.append_nil _).symm

theorem location?_after (g : PipelineGraph) (call : Call) (id : String) :
    (g.after call).location? id = (Locations.find? call.defined?.toList id).or
      ((g.location? id).or (Locations.find? call.mentioned?.toList id)) := by
  have unmoved (key label : String) : (g.addNode key label).locations = g.locations := rfl
  have nothing : Locations.find? [] id = none := rfl
  cases call with
  | addNode key label => exact Option.or_none.symm
  | define key label l =>
    simp only [after,define,location?,Locations.find?_put,unmoved,Call.defined?,Call.mentioned?,
      Option.toList_some,Option.toList_none,Locations.find?_cons,nothing]
    split <;> simp
  | mention key label l =>
    simp only [after,mention,location?,Locations.find?_putNew,unmoved,Call.defined?,
      Call.mentioned?,Option.toList_some,Option.toList_none,Locations.find?_cons,nothing]
    split
    next same => simp [same]
    next => simp
  | addEdge source target =>
    simp only [after,addEdge]
    split <;> exact Option.or_none.symm

theorem sorted_after {g : PipelineGraph} (sorted : g.locations.Sorted) (call : Call) :
    (g.after call).locations.Sorted := by
  cases call with
  | addNode id label => exact sorted
  | define id label l => exact sorted.put id l
  | mention id label l => exact sorted.putNew id l
  | addEdge source target =>
    simp only [after,addEdge]
    split <;> exact sorted

theorem filterMap_concat (read : Call → Option α) (calls : List Call) (call : Call) :
    (calls ++ [call]).filterMap read = calls.filterMap read ++ (read call).toList := by
  rw [List.filterMap_append,List.filterMap_cons]
  cases read call <;> rfl

/-- The graph holds what the calls said. -/
structure Records (calls : List Call) (g : PipelineGraph) : Prop where
  ids : g.ids = ((calls.filterMap Call.named?).map (·.1)).eraseDups
  labels : ∀ n ∈ g.nodes, (calls.filterMap Call.named?).reverse.lookup n.id = some n.label
  edges : g.edges = (calls.filterMap Call.edge?).eraseDups
  locations : ∀ id, g.location? id = ((calls.filterMap Call.defined?).reverse.lookup id).or
    ((calls.filterMap Call.mentioned?).lookup id)
  sorted : g.locations.Sorted

namespace Records

theorem empty : Records [] .empty := by
  constructor <;> simp [PipelineGraph.empty,PipelineGraph.ids,location?,Locations.find?,
    Locations.Sorted,Locations.keys]

variable {calls : List Call} {g : PipelineGraph} (records : Records calls g)

include records

theorem mem_ids {id : String} :
    id ∈ g.ids ↔ id ∈ (calls.filterMap Call.named?).map (·.1) := by
  rw [records.ids,List.mem_eraseDups]

theorem ids_addNode (id label : String) : (g.addNode id label).ids =
    ((calls.filterMap Call.named?).map (·.1) ++ [id]).eraseDups := by
  have known : g.contains id = ((calls.filterMap Call.named?).map (·.1)).elem id := by
    rw [Bool.eq_iff_iff,List.elem_eq_mem,decide_eq_true_iff,← records.mem_ids]
    exact contains_iff
  have named := PipelineGraph.ids_addNode g id label
  rw [FirstOccurrence.eraseDups_concat,← records.ids,← known]
  cases there : g.contains id with
  | true => simpa [there,PipelineGraph.ids] using named
  | false => simpa [there,PipelineGraph.ids] using named

theorem labels_addNode (id label : String) : ∀ n ∈ (g.addNode id label).nodes,
    ((id,label) :: (calls.filterMap Call.named?).reverse).lookup n.id = some n.label := by
  intro n member
  cases known : g.contains id with
  | true =>
    simp only [PipelineGraph.addNode,known,if_true] at member
    obtain ⟨old,inside,rfl⟩ := List.mem_map.mp member
    cases same : old.id == id with
    | true => simp [List.lookup_cons,same]
    | false => simpa [List.lookup_cons,same] using records.labels old inside
  | false =>
    simp only [PipelineGraph.addNode,known,Bool.false_eq_true,if_false] at member
    rcases List.mem_append.mp member with old | new
    · have other : (n.id == id) = false := by
        rw [beq_eq_false_iff_ne]
        rintro rfl
        rw [contains_iff.mpr (List.mem_map_of_mem old)] at known
        cases known
      simpa [List.lookup_cons,other] using records.labels n old
    · obtain rfl := List.mem_singleton.mp new
      exact List.lookup_cons_self

theorem after (call : Call) : Records (calls ++ [call]) (g.after call) where
  ids := by
    rw [filterMap_concat,List.map_append]
    cases named : call.named? with
    | none => simpa [PipelineGraph.ids,nodes_after_other g named] using records.ids
    | some entry =>
      rw [PipelineGraph.ids,nodes_after_named g named]
      exact records.ids_addNode entry.1 entry.2
  labels := by
    rw [filterMap_concat,List.reverse_append]
    cases named : call.named? with
    | none => simpa [nodes_after_other g named] using records.labels
    | some entry =>
      rw [nodes_after_named g named]
      exact records.labels_addNode entry.1 entry.2
  edges := by
    rw [edges_after,records.edges,filterMap_concat]
    cases added : call.edge? with
    | none => simp
    | some e =>
      rw [Option.toList_some,FirstOccurrence.eraseDups_concat,List.filter_singleton,
        FirstOccurrence.elem_eraseDups]
      cases (calls.filterMap Call.edge?).elem e <;> rfl
  locations id := by
    rw [location?_after,records.locations,filterMap_concat,filterMap_concat,List.reverse_append,
      List.lookup_append,List.lookup_append,Option.or_assoc]
    cases call.defined? with
    | none => rfl
    | some entry => rw [Option.or_assoc]; rfl
  sorted := sorted_after records.sorted call

end Records

/-- Graphs are equal if they have the same nodes and edges, and a location for the same names. -/
theorem Records.eq_iff {calls others : List Call} {g other : PipelineGraph}
    (records : Records calls g) (otherRecords : Records others other) :
    g = other ↔ g.nodes = other.nodes ∧ g.edges = other.edges ∧
      ∀ id, g.location? id = other.location? id := by
  constructor
  · rintro rfl
    exact ⟨rfl,rfl,fun _ => rfl⟩
  · rintro ⟨nodes,edges,same⟩
    have locations := records.sorted.eq_of_find? otherRecords.sorted same
    cases g
    cases other
    simp_all

theorem afterAll_concat (g : PipelineGraph) (calls : List Call) (call : Call) :
    g.afterAll (calls ++ [call]) = (g.afterAll calls).after call := by
  rw [afterAll,List.foldl_concat,afterAll]

theorem records_afterAll (calls : List Call) : Records calls (empty.afterAll calls) := by
  induction calls using List.reverseRecOn with
  | nil => exact .empty
  | append_singleton calls call ih =>
    rw [afterAll_concat]
    exact ih.after call

end PipelineGraph

end PipelineAtlas

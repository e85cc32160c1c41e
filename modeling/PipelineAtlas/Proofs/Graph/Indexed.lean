import PipelineAtlas.Graph.Indexed
import PipelineAtlas.Proofs.Graph.Call

/-! The index of a graph and its set of edges stay in step with its nodes and edges, whatever calls
are made. Without them, it is the graph that the same calls make. -/
namespace PipelineAtlas.IndexedGraph

open PipelineGraph (Call)

def after (g : IndexedGraph) : Call → Option IndexedGraph
  | .addNode id label => g.addNode id label
  | .define id label l => g.define id label l
  | .mention id label l => g.mention id label l
  | .addEdge source target => some (g.addEdge source target)

def afterAll (g : IndexedGraph) (calls : List Call) : Option IndexedGraph := calls.foldlM after g

/-- What is kept twice agrees. -/
structure InStep (g : IndexedGraph) : Prop where
  positions : ∀ id i, g.positions.lookup id = some i ↔ g.ids[i]? = some id
  edgeSet : ∀ e, e ∈ g.edgeSet ↔ e ∈ g.edges

/-- The result is there, in step, and with nodes, edges and locations as given. -/
def Makes (result : Option IndexedGraph) (g : PipelineGraph) : Prop :=
  ∃ g', result = some g' ∧ InStep g' ∧ g'.toPipelineGraph = g

namespace InStep

theorem empty : InStep .empty := by
  constructor <;> simp [IndexedGraph.empty,PipelineGraph.ids]

variable {g : IndexedGraph} (inStep : InStep g)

include inStep

theorem mem_ids (id : String) : id ∈ g.ids ↔ ∃ i, g.positions.lookup id = some i := by
  simp only [inStep.positions]
  exact List.mem_iff_getElem?

theorem named {id : String} {i : Nat} (place : g.positions.lookup id = some i) :
    ∃ n, g.nodes[i]? = some n ∧ n.id = id := by
  have name := (inStep.positions id i).mp place
  rw [PipelineGraph.ids,List.getElem?_map] at name
  exact Option.map_eq_some_iff.mp name

theorem set_eq {label : String} {i : Nat} {n : GraphNode}
    (place : g.positions.lookup n.id = some i) (here : g.nodes[i]? = some n) :
    g.nodes.set i ⟨n.id,label⟩ =
      g.nodes.map fun m => if m.id == n.id then ⟨m.id,label⟩ else m := by
  refine List.ext_getElem? fun j => ?_
  rw [List.getElem?_map]
  by_cases same : i = j
  · subst same
    obtain ⟨inside,-⟩ := List.getElem?_eq_some_iff.mp here
    simp [List.getElem?_set_self inside,here]
  · rw [List.getElem?_set_ne same]
    cases there : g.nodes[j]? with
    | none => rfl
    | some m =>
      have other : m.id ≠ n.id := by
        intro again
        have second := (inStep.positions m.id j).mpr (by simp [PipelineGraph.ids,there])
        rw [again,place] at second
        exact same (Option.some.inj second)
      simp [other]

theorem positions_insert {id : String} (absent : id ∉ g.ids) (key : String) (i : Nat) :
    (g.positions.insert id g.nodes.length).lookup key = some i ↔
      (g.ids ++ [id])[i]? = some key := by
  have size : g.nodes.length = g.ids.length := (List.length_map _).symm
  rw [size]
  by_cases same : key = id
  · subst same
    rw [Finmap.lookup_insert,Option.some.injEq,List.getElem?_append]
    split
    next =>
      have other : g.ids[i]? ≠ some key := fun found => absent (List.mem_of_getElem? found)
      simp only [other,iff_false]
      omega
    next =>
      rw [List.getElem?_singleton]
      split <;> simp <;> omega
  · rw [Finmap.lookup_insert_of_ne _ same,inStep.positions,List.getElem?_append]
    split
    next => rfl
    next behind =>
      rw [List.getElem?_eq_none (by omega),List.getElem?_singleton]
      split <;> simp [Ne.symm same]

theorem addNode (id label : String) :
    Makes (g.addNode id label) (g.toPipelineGraph.addNode id label) := by
  unfold IndexedGraph.addNode
  cases place : g.positions.lookup id with
  | some i =>
    obtain ⟨n,here,rfl⟩ := inStep.named place
    have known : g.contains n.id = true :=
      PipelineGraph.contains_iff.mpr ((inStep.mem_ids n.id).mpr ⟨i,place⟩)
    have plain : { g.toPipelineGraph with nodes := g.nodes.set i ⟨n.id,label⟩ } =
        g.toPipelineGraph.addNode n.id label := by
      rw [inStep.set_eq place here,PipelineGraph.addNode,if_pos known]
    have ids := PipelineGraph.ids_addNode g.toPipelineGraph n.id label
    rw [← plain,if_pos known] at ids
    refine ⟨{ g with nodes := g.nodes.set i ⟨n.id,label⟩ },by simp [here],
      ⟨fun key j => ?_,inStep.edgeSet⟩,plain⟩
    rw [inStep.positions,PipelineGraph.ids,PipelineGraph.ids,ids]
  | none =>
    have absent : id ∉ g.ids := by
      rw [inStep.mem_ids]
      simp [place]
    have unknown : ¬ g.contains id = true := by
      rw [PipelineGraph.contains_iff]
      exact absent
    refine ⟨_,rfl,⟨fun key j => ?_,inStep.edgeSet⟩,?_⟩
    · rw [inStep.positions_insert absent]
      simp [PipelineGraph.ids]
    · rw [PipelineGraph.addNode,if_neg unknown]

theorem relocate (locations : Locations) : InStep { g with locations := locations } :=
  ⟨inStep.positions,inStep.edgeSet⟩

theorem addEdge (source target : String) : InStep (g.addEdge source target) ∧
    (g.addEdge source target).toPipelineGraph = g.toPipelineGraph.addEdge source target := by
  unfold IndexedGraph.addEdge
  by_cases old : (⟨source,target⟩ : GraphEdge) ∈ g.edges
  · have known := (inStep.edgeSet _).mpr old
    simp [known,old,PipelineGraph.addEdge,inStep]
  · have unknown := mt (inStep.edgeSet _).mp old
    simp only [unknown,if_false]
    refine ⟨⟨inStep.positions,fun e => ?_⟩,?_⟩
    · rw [Finset.mem_insert,inStep.edgeSet,List.mem_append,List.mem_singleton,or_comm]
    · simp [PipelineGraph.addEdge,old]

theorem after (call : Call) : Makes (g.after call) (g.toPipelineGraph.after call) := by
  cases call with
  | addNode id label => exact inStep.addNode id label
  | define id label l =>
    obtain ⟨g',made,inStep',plain⟩ := inStep.addNode id label
    refine ⟨{ g' with locations := g'.locations.put id l },?_,inStep'.relocate _,?_⟩
    · rw [IndexedGraph.after,define,made,Option.map_some]
    · rw [PipelineGraph.after,PipelineGraph.define,← plain]
  | mention id label l =>
    obtain ⟨g',made,inStep',plain⟩ := inStep.addNode id label
    refine ⟨{ g' with locations := g'.locations.putNew id l },?_,inStep'.relocate _,?_⟩
    · rw [IndexedGraph.after,mention,made,Option.map_some]
    · rw [PipelineGraph.after,PipelineGraph.mention,← plain]
  | addEdge source target => exact ⟨_,rfl,inStep.addEdge source target⟩

theorem afterAll (calls : List Call) :
    Makes (g.afterAll calls) (g.toPipelineGraph.afterAll calls) := by
  induction calls generalizing g with
  | nil => exact ⟨g,rfl,inStep,rfl⟩
  | cons call calls ih =>
    obtain ⟨g',made,inStep',plain⟩ := inStep.after call
    have rest := ih inStep'
    rw [plain] at rest
    rwa [IndexedGraph.afterAll,List.foldlM_cons,made]

theorem eq_iff {other : IndexedGraph} (otherInStep : InStep other) :
    g = other ↔ g.toPipelineGraph = other.toPipelineGraph := by
  refine ⟨congrArg _,fun plain => ?_⟩
  have positions : g.positions = other.positions := by
    refine Finmap.ext_lookup fun id => Option.ext fun i => ?_
    rw [inStep.positions,otherInStep.positions,plain]
  have edgeSet : g.edgeSet = other.edgeSet := by
    refine Finset.ext fun e => ?_
    rw [inStep.edgeSet,otherInStep.edgeSet,plain]
  cases g
  cases other
  simp_all

end InStep

/-- Whatever calls are made on an empty graph, there is a result, and it holds what they say: the
names in the order in which they came up first, once each and with the label given last, the edges in
the order in which they were first added, and for each name the place of its last definition, or of
its first mention if it was never defined. The index leads to the places of the names and nowhere
else, and the set holds the edges, so two such graphs are equal if nodes, edges and locations are.
Without index and set, it is the graph that the same calls make. -/
theorem recorded_of_calls (calls : List Call) : ∃ g, empty.afterAll calls = some g ∧
    (g.nodes.map (·.id) = ((calls.filterMap Call.named?).map (·.1)).eraseDups ∧
      (g.nodes.map (·.id)).Nodup ∧
      ∀ n ∈ g.nodes, (calls.filterMap Call.named?).reverse.lookup n.id = some n.label) ∧
    (g.edges = (calls.filterMap Call.edge?).eraseDups ∧ g.edges.Nodup) ∧
    (∀ id, g.location? id = ((calls.filterMap Call.defined?).reverse.lookup id).or
      ((calls.filterMap Call.mentioned?).lookup id)) ∧
    (∀ id i, g.positions.lookup id = some i ↔ (g.nodes.map (·.id))[i]? = some id) ∧
    (∀ e, e ∈ g.edgeSet ↔ e ∈ g.edges) ∧
    g.toPipelineGraph = PipelineGraph.empty.afterAll calls ∧
    ∀ others other, empty.afterAll others = some other → ((g == other) = true ↔
      g.nodes = other.nodes ∧ g.edges = other.edges ∧
        ∀ id, g.location? id = other.location? id) := by
  have records := PipelineGraph.records_afterAll calls
  obtain ⟨g,made,inStep,plain⟩ := InStep.empty.afterAll calls
  have origin : IndexedGraph.empty.toPipelineGraph = .empty := rfl
  rw [origin] at plain
  rw [← plain] at records
  have ids : g.nodes.map (·.id) = _ := records.ids
  refine ⟨g,made,⟨ids,?_,records.labels⟩,⟨records.edges,?_⟩,records.locations,inStep.positions,
    inStep.edgeSet,plain,?_⟩
  · rw [ids]
    exact FirstOccurrence.nodup_eraseDups _
  · rw [records.edges]
    exact FirstOccurrence.nodup_eraseDups _
  · intro others other otherMade
    obtain ⟨g',made',otherInStep,otherPlain⟩ := InStep.empty.afterAll others
    obtain rfl := Option.some.inj (otherMade.symm.trans made')
    have otherRecords := PipelineGraph.records_afterAll others
    rw [← origin,← otherPlain] at otherRecords
    rw [beq_iff_eq,inStep.eq_iff otherInStep,records.eq_iff otherRecords]

/-- A name that is mentioned before and after its definition, with a new label each time, one that is
never defined, and an edge that is added again. -/
def interleaved : List Call :=
  [.mention "n1" "load" ⟨"a.sql",3⟩,.mention "n2" "store" ⟨"a.sql",4⟩,.addEdge "n1" "n2",
    .define "n1" "Load" ⟨"load.sql",1⟩,.mention "n2" "Store" ⟨"b.sql",9⟩,.addEdge "n2" "n1",
    .mention "n1" "LOAD" ⟨"c.sql",7⟩,.addEdge "n1" "n2",.addNode "n3" ""]

theorem recorded_of_interleaved : ∃ g other, empty.afterAll interleaved = some g ∧
    empty.afterAll (interleaved ++ [.addEdge "n2" "n1"]) = some other ∧ (g == other) = true ∧
    g.nodes = [⟨"n1","LOAD"⟩,⟨"n2","Store"⟩,⟨"n3",""⟩] ∧
    g.edges = [⟨"n1","n2"⟩,⟨"n2","n1"⟩] ∧ g.location? "n1" = some ⟨"load.sql",1⟩ ∧
    g.location? "n2" = some ⟨"a.sql",4⟩ ∧ g.location? "n3" = none ∧
    g.positions.lookup "n2" = some 1 := by
  obtain ⟨g,made,-,-,locations,positions,-,plain,equal⟩ := recorded_of_calls interleaved
  obtain ⟨other,otherMade,-,-,-,-,-,otherPlain,-⟩ :=
    recorded_of_calls (interleaved ++ [.addEdge "n2" "n1"])
  have same : g.toPipelineGraph = other.toPipelineGraph := by
    rw [plain,otherPlain]
    decide
  have nodes : g.nodes = [⟨"n1","LOAD"⟩,⟨"n2","Store"⟩,⟨"n3",""⟩] := by
    rw [plain]
    decide
  refine ⟨g,other,made,otherMade,(equal _ other otherMade).mpr ?_,nodes,?_,?_,?_,?_,?_⟩
  · rw [same]
    exact ⟨rfl,rfl,fun _ => rfl⟩
  · rw [plain]
    decide
  · rw [locations]
    decide
  · rw [locations]
    decide
  · rw [locations]
    decide
  · rw [positions,nodes]
    rfl

end PipelineAtlas.IndexedGraph

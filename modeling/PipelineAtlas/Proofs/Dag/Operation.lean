import PipelineAtlas.Dag
import PipelineAtlas.Proofs.Edge.Neighbours

/-! What the operations on a DAG do when they succeed, what is seen of its edges, and the DAGs that
operations lead to, whether they succeed or fail, with what holds of all of them. -/
namespace PipelineAtlas.Dag

theorem contains_iff (d : Dag) (id : String) : d.contains id = true ↔ id ∈ d.ids := by
  simp [contains,ids]

theorem handle?_of_mem {d : Dag} {id : String} (member : id ∈ d.ids) :
    d.handle? id = some ⟨d.id,id⟩ := if_pos ((contains_iff d id).mpr member)

theorem handle?_of_notMem {d : Dag} {id : String} (absent : id ∉ d.ids) : d.handle? id = none :=
  if_neg (mt (contains_iff d id).mp absent)

theorem new_ok {id : String} {start : Instant} {schedule : Schedule} {catchup : Bool} {d : Dag} :
    new id start schedule catchup = .ok d ↔
      isWellFormed id = true ∧ d = ⟨id,none,start,schedule,catchup,[],[]⟩ := by
  unfold new
  cases isWellFormed id
  · simp
  · simp [eq_comm]

theorem addTask_ok {d d' : Dag} {t : Task} {h : TaskHandle} :
    d.addTask t = .ok (d',h) ↔ isWellFormed t.id = true ∧ t.id ∉ d.ids ∧
      d' = { d with tasks := d.tasks ++ [t] } ∧ h = ⟨d.id,t.id⟩ := by
  unfold addTask
  rw [← contains_iff]
  cases isWellFormed t.id <;> cases d.contains t.id <;> simp [eq_comm]

theorem checkHandle_ok {d : Dag} {h : TaskHandle} :
    d.checkHandle h = .ok () ↔ h.dag = d.id ∧ h.task ∈ d.ids := by
  unfold checkHandle
  rw [← contains_iff]
  by_cases own : h.dag = d.id <;> cases d.contains h.task <;> simp [own]

theorem link_ok {d d' : Dag} {source target : TaskHandle} :
    d.link source target = .ok d' ↔ d.checkHandle source = .ok () ∧
      d.checkHandle target = .ok () ∧
      d' = { d with edges := Edge.insert d.edges ⟨source.task,target.task⟩ } := by
  unfold link
  cases d.checkHandle source <;> cases d.checkHandle target <;>
    simp [bind,Except.bind,pure,Except.pure,eq_comm]

theorem danglingEnd?_eq_none (d : Dag) :
    d.danglingEnd? = none ↔ ∀ e ∈ d.edges, e.source ∈ d.ids ∧ e.target ∈ d.ids := by
  simp only [danglingEnd?,List.find?_eq_none,List.mem_flatMap,Bool.not_eq_true,
    Bool.not_eq_false',contains_iff]
  constructor
  · intro registered e inside
    exact ⟨registered _ ⟨e,inside,by simp⟩,registered _ ⟨e,inside,by simp⟩⟩
  · rintro closed id ⟨e,inside,isEnd⟩
    simp only [List.mem_cons,List.not_mem_nil,or_false] at isEnd
    rcases isEnd with rfl | rfl
    · exact (closed e inside).1
    · exact (closed e inside).2

theorem hasEdge_iff (d : Dag) (a b : String) : d.hasEdge a b = true ↔ ⟨a,b⟩ ∈ d.edges := by
  simp only [hasEdge,List.any_eq_true,Bool.and_eq_true,beq_iff_eq]
  constructor
  · rintro ⟨e,inside,rfl,rfl⟩
    exact inside
  · intro inside
    exact ⟨⟨a,b⟩,inside,rfl,rfl⟩

theorem roots_eq (d : Dag) : d.roots = d.ids.filter fun id => (d.predecessors id).isEmpty := by
  simp only [roots,predecessors,Edge.predecessors_isEmpty]

theorem leaves_eq (d : Dag) : d.leaves = d.ids.filter fun id => (d.successors id).isEmpty := by
  simp only [leaves,successors,Edge.successors_isEmpty]

theorem mem_roots {d : Dag} {id : String} :
    id ∈ d.roots ↔ id ∈ d.ids ∧ d.predecessors id = [] := by
  simp [roots_eq]

theorem mem_leaves {d : Dag} {id : String} :
    id ∈ d.leaves ↔ id ∈ d.ids ∧ d.successors id = [] := by
  simp [leaves_eq]

theorem beq_iff (d other : Dag) : (d == other) = true ↔ d.id = other.id ∧
    d.description = other.description ∧ d.start = other.start ∧
    d.schedule.expression = other.schedule.expression ∧ d.catchup = other.catchup ∧
    d.tasks = other.tasks ∧ d.edges = other.edges := by
  have parts : (d == other) = (d.id == other.id && (d.description == other.description &&
      (d.start == other.start && (d.schedule.expression == other.schedule.expression &&
        (d.catchup == other.catchup && (d.tasks == other.tasks && d.edges == other.edges)))))) := by
    cases d
    cases other
    rfl
  simp only [parts,Bool.and_eq_true,beq_iff_eq]

/-- An operation on a DAG. A chain declares the edges in front of its first fault. -/
inductive Operation where
  | describe (text : String)
  | addTask (t : Task)
  | bashTask (id command : String)
  | link (source target : TaskHandle)
  | linkAfter (task earlier : TaskHandle)
  | chain (handles : List TaskHandle)
deriving DecidableEq, Repr

/-- The DAG that a result holds, and the old one where it holds none. -/
def kept (d : Dag) (result : Except DagError Dag) : Dag :=
  match result with
  | .ok d' => d'
  | .error _ => d

def after (d : Dag) : Operation → Dag
  | .describe text => d.describe text
  | .addTask t => d.kept ((d.addTask t).map (·.1))
  | .bashTask id command => d.kept ((d.addTask ⟨id,command⟩).map (·.1))
  | .link source target => d.kept (d.link source target)
  | .linkAfter task earlier => d.kept (d.linkAfter task earlier)
  | .chain handles => (d.chain handles).1

/-- Made by `new` and any operations. -/
inductive Reachable : Dag → Prop
  | new {id start schedule catchup d} (made : Dag.new id start schedule catchup = .ok d) :
      Reachable d
  | after {d} (before : Reachable d) (operation : Operation) : Reachable (d.after operation)

theorem Reachable.afterAll {d : Dag} (before : Reachable d) (operations : List Operation) :
    Reachable (operations.foldl Dag.after d) := by
  induction operations generalizing d with
  | nil => exact before
  | cons operation operations ih => exact ih (before.after operation)

def drawn (ids : List String) (edges : List Edge) : Dag :=
  ((ids.map fun id => Operation.bashTask id "true") ++
    edges.map fun e => Operation.link ⟨"x",e.source⟩ ⟨"x",e.target⟩).foldl Dag.after
    ⟨"x",none,⟨0,0⟩,Schedule.manual,false,[],[]⟩

theorem reachable_drawn (ids : List String) (edges : List Edge) : Reachable (drawn ids edges) :=
  (Reachable.new (new_ok.mpr ⟨by decide,rfl⟩)).afterAll _

/-- Tasks and edges fit together. -/
structure Consistent (d : Dag) : Prop where
  named : isWellFormed d.id = true
  distinct : d.ids.Nodup
  wellFormed : ∀ id ∈ d.ids, isWellFormed id = true
  unique : d.edges.Nodup
  closed : ∀ e ∈ d.edges, e.source ∈ d.ids ∧ e.target ∈ d.ids

theorem Consistent.addTask {d d' : Dag} {t : Task} {h : TaskHandle} (consistent : Consistent d)
    (added : d.addTask t = .ok (d',h)) : Consistent d' := by
  obtain ⟨wellFormed,fresh,rfl,-⟩ := addTask_ok.mp added
  have ids : Dag.ids { d with tasks := d.tasks ++ [t] } = d.ids ++ [t.id] := by simp [Dag.ids]
  constructor
  · exact consistent.named
  · rw [ids]
    exact consistent.distinct.append (by simp) (by simpa using fresh)
  · rw [ids]
    intro id member
    rcases List.mem_append.mp member with old | same
    · exact consistent.wellFormed id old
    · rw [List.mem_singleton.mp same]
      exact wellFormed
  · exact consistent.unique
  · rw [ids]
    intro e inside
    have ends := consistent.closed e inside
    simp [ends]

theorem Consistent.link {d d' : Dag} {source target : TaskHandle} (consistent : Consistent d)
    (linked : d.link source target = .ok d') : Consistent d' := by
  obtain ⟨sourceOk,targetOk,rfl⟩ := link_ok.mp linked
  have sourceIn := (checkHandle_ok.mp sourceOk).2
  have targetIn := (checkHandle_ok.mp targetOk).2
  constructor
  · exact consistent.named
  · exact consistent.distinct
  · exact consistent.wellFormed
  · exact Edge.nodup_insert consistent.unique
  · intro e inside
    rcases Edge.mem_insert.mp inside with old | rfl
    · exact consistent.closed e old
    · exact ⟨sourceIn,targetIn⟩

theorem Consistent.chain {d : Dag} (consistent : Consistent d) (handles : List TaskHandle) :
    Consistent (d.chain handles).1 := by
  induction handles generalizing d with
  | nil => exact consistent
  | cons a rest ih =>
    cases rest with
    | nil => exact consistent
    | cons b rest =>
      unfold Dag.chain
      cases linked : d.link a b with
      | error e => exact consistent
      | ok d' => exact ih (consistent.link linked)

theorem Consistent.kept {d : Dag} {result : Except DagError Dag} (consistent : Consistent d)
    (good : ∀ d', result = .ok d' → Consistent d') : Consistent (d.kept result) := by
  cases result with
  | error e => exact consistent
  | ok d' => exact good d' rfl

theorem Consistent.after {d : Dag} (consistent : Consistent d) (operation : Operation) :
    Consistent (d.after operation) := by
  have added : ∀ t d', (d.addTask t).map (·.1) = .ok d' → Consistent d' := by
    intro t d' result
    cases stored : d.addTask t with
    | error e => simp [stored,Except.map] at result
    | ok pair =>
      simp only [stored,Except.map,Except.ok.injEq] at result
      exact result ▸ consistent.addTask stored
  cases operation with
  | describe text =>
    exact ⟨consistent.named,consistent.distinct,consistent.wellFormed,consistent.unique,
      consistent.closed⟩
  | addTask t => exact consistent.kept (added t)
  | bashTask id command => exact consistent.kept (added ⟨id,command⟩)
  | link source target => exact consistent.kept fun _ linked => consistent.link linked
  | linkAfter task earlier => exact consistent.kept fun _ linked => consistent.link linked
  | chain handles => exact consistent.chain handles

theorem Reachable.consistent {d : Dag} (reachable : Reachable d) : Consistent d := by
  induction reachable with
  | new made =>
    obtain ⟨wellFormed,rfl⟩ := new_ok.mp made
    exact ⟨wellFormed,by simp [Dag.ids],by simp [Dag.ids],by simp,by simp⟩
  | after _ operation ih => exact ih.after operation

end PipelineAtlas.Dag

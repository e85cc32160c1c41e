import PipelineAtlas.Proofs.Airflow.RoundTrip
import PipelineAtlas.Proofs.Dag.History

/-! Plain files: a declaration with a name and a start, a line for each task and a line for each chain of
tasks. They are read as the DAG of these tasks, with the edges along the chains. -/
namespace PipelineAtlas.Airflow

open Fallible Script

/-- A chain is a task and those that follow it one after another. -/
structure PlainFile where
  id : String
  start : String
  tasks : List Task
  chains : List (String × List String)

namespace PlainFile

variable (f : PlainFile) (var : String → List Char)

def ids : List String := f.tasks.map (·.id)

/-- The edges along the chains, with repetitions. -/
def links : List Edge :=
  f.chains.flatMap fun c => (Outline.neighbours (c.1 :: c.2)).map fun p => ⟨p.1,p.2⟩

def headArguments : List Keyed := [("dag_id",.string f.id),("start_date",.string f.start)]

def entry (t : Task) : TaskDefinition := ⟨t.id,t.command,[]⟩

def spelled : List (List Char × List (List Char)) := f.chains.map fun c => (var c.1,c.2.map var)

def lines : List Line :=
  dagLine f.headArguments :: ((f.tasks.map entry).map (taskLine var) ++
    (f.spelled var).map fun c => chainLine c.1 c.2)

def source : List Char := writtenLines (f.lines var)

/-- Names that are accepted, variables that are identifiers and differ for different tasks, commands
without a mark in their escaped texts, and chains of tasks of the file that make no cycle. -/
structure Plain : Prop where
  named : isWellFormed f.id = true
  started : (Instant.read? f.start.toList).isSome = true
  wellFormed : ∀ t ∈ f.tasks, isWellFormed t.id = true
  distinct : f.ids.Nodup
  names : ∀ id ∈ f.ids, Text.isIdentifier (var id) = true
  apart : ∀ a ∈ f.ids, ∀ b ∈ f.ids, var a = var b → a = b
  unmarked : ∀ t ∈ f.tasks, ¬ ['>','>'] <:+: escapeText t.command.toList
  known : ∀ c ∈ f.chains, ∀ id ∈ c.1 :: c.2, id ∈ f.ids
  acyclic : ¬ Edge.Cyclic f.links

end PlainFile

theorem mem_neighbours {items : List α} {p : α × α} (inside : p ∈ Outline.neighbours items) :
    p.1 ∈ items ∧ p.2 ∈ items := by
  induction items using Outline.neighbours.induct with
  | case1 a b rest ih =>
    rw [Outline.neighbours] at inside
    rcases List.mem_cons.mp inside with rfl | later
    · exact ⟨List.mem_cons_self,List.mem_cons_of_mem _ List.mem_cons_self⟩
    · exact ⟨List.mem_cons_of_mem a (ih later).1,List.mem_cons_of_mem a (ih later).2⟩
  | case2 items short =>
    rw [Outline.neighbours] at inside
    · cases inside
    · exact short

theorem neighbours_map (f : α → β) (items : List α) : Outline.neighbours (items.map f) =
    (Outline.neighbours items).map fun p => (f p.1,f p.2) := by
  induction items with
  | nil => rfl
  | cons a items ih =>
    cases items with
    | nil => rfl
    | cons b rest =>
      rw [List.map_cons,List.map_cons,Outline.neighbours,← List.map_cons,ih,Outline.neighbours,
        List.map_cons]

namespace PlainFile

variable {f : PlainFile} {var : String → List Char}

theorem named_headArguments (f : PlainFile) :
    ∀ a ∈ f.headArguments, Text.isIdentifier a.1.toList = true := by
  have keys : ∀ key ∈ ["dag_id","start_date"], Text.isIdentifier key.toList = true := by decide
  intro a inside
  apply keys a.1
  simp only [headArguments,List.mem_cons,List.not_mem_nil,or_false] at inside
  rcases inside with rfl | rfl <;> simp

theorem readDeclaration_head {start : Instant} {schedule : Schedule}
    (started : Instant.read? f.start.toList = some start)
    (daily : Schedule.parse "@daily" = .ok schedule) (named : isWellFormed f.id = true) :
    readDeclaration (f.headArguments.map Keyed.argument) 1 =
      .ok ⟨f.id,none,start,schedule,false,[],[]⟩ := by
  let args : Arguments := f.headArguments.map Keyed.argument
  have givenId : args.byKey "dag_id" = some (.string f.id) := rfl
  have givenStart : args.byKey "start_date" = some (.string f.start) := rfl
  have absent : ∀ key ∈ ["schedule","schedule_interval","catchup","description"],
      args.byKey key = none := by
    simp [args,headArguments,Keyed.argument,Arguments.byKey]
  have id : readId args 1 = .ok f.id := by simp [readId,givenId]
  have start : readStart args 1 = .ok start := by simp [readStart,givenStart,started]
  have schedule : readSchedule args 1 = .ok schedule := by
    simp [readSchedule,absent,daily,mapError_of_ok]
  have catchup : readCatchup args 1 = .ok false := by simp [readCatchup,absent]
  have description : readDescription args 1 = .ok none := by simp [readDescription,absent]
  change readDeclaration args 1 = _
  unfold readDeclaration
  rw [id,start,schedule,catchup,description]
  simp [bind,Except.bind,pure,Except.pure,Dag.new,named,mapError_of_ok]

def bodies (f : PlainFile) (var : String → List Char) : List (List Char) :=
  ("with".toList ++ declarationTail (lineView (argumentPieces f.headArguments))) ::
    ((f.tasks.map entry).map (fun t => var t.id ++ ' ' :: '=' :: ' ' ::
      operatorText (lineView (argumentPieces (taskArguments t)))) ++
    (f.spelled var).map fun c => chainText c.1 c.2)

def definition (f : PlainFile) : Definition :=
  ⟨f.id,none,f.start,none,false,f.tasks.map entry⟩

theorem ids_definition (f : PlainFile) : f.definition.ids = f.ids := by
  simp [definition,Definition.ids,ids,entry,Function.comp_def]

namespace Plain

variable (plain : f.Plain var)

include plain

theorem naming : Naming var f.definition where
  names := by
    rw [ids_definition]
    exact plain.names
  apart := by
    rw [ids_definition]
    exact plain.apart

theorem task_name {t : TaskDefinition} (member : t ∈ f.tasks.map entry) :
    Text.isIdentifier (var t.id) = true := by
  obtain ⟨given,inside,rfl⟩ := List.mem_map.mp member
  exact plain.names given.id (List.mem_map_of_mem inside)

theorem known_spelled : ∀ c ∈ f.spelled var, ∀ b ∈ c.1 :: c.2, ∃ id ∈ f.ids, b = var id := by
  intro c member b inside
  obtain ⟨given,chain,rfl⟩ := List.mem_map.mp member
  have inside : b ∈ (given.1 :: given.2).map var := inside
  obtain ⟨id,among,rfl⟩ := List.mem_map.mp inside
  exact ⟨id,plain.known given chain id among,rfl⟩

theorem chain_names : ∀ c ∈ f.spelled var, ∀ b ∈ c.1 :: c.2, Text.isIdentifier b = true := by
  intro c member b inside
  obtain ⟨id,among,rfl⟩ := plain.known_spelled c member b inside
  exact plain.names id among

theorem known_links : ∀ e ∈ f.links, e.source ∈ f.ids ∧ e.target ∈ f.ids := by
  intro e inside
  obtain ⟨c,member,inside⟩ := List.mem_flatMap.mp inside
  obtain ⟨p,pair,rfl⟩ := List.mem_map.mp inside
  exact ⟨plain.known c member _ (mem_neighbours pair).1,
    plain.known c member _ (mem_neighbours pair).2⟩

theorem spaced_lines : ∀ l ∈ f.lines var, Spaced l := by
  intro l inside
  rw [lines,List.mem_cons,List.mem_append,List.mem_map,List.mem_map] at inside
  rcases inside with rfl | ⟨t,member,rfl⟩ | ⟨c,member,rfl⟩
  · exact spaced_dagLine f.named_headArguments
  · exact spaced_taskLine (plain.task_name member)
  · exact spaced_chainLine (plain.chain_names c member)

theorem shows_lines : List.Forall₂ Shows (f.lines var) (f.bodies var) := by
  refine .cons (shows_dagLine f.named_headArguments) (List.rel_append ?_ ?_)
  · rw [List.forall₂_map_left_iff,List.forall₂_map_right_iff,List.forall₂_same]
    exact fun t member => shows_taskLine (plain.task_name member)
  · rw [List.forall₂_map_left_iff,List.forall₂_map_right_iff,List.forall₂_same]
    exact fun c member => shows_chainLine (plain.chain_names c member)

theorem cells_source : Script.source (f.source var) = lineCells (f.lines var) :=
  source_writtenLines plain.spaced_lines

theorem declared {start : Instant} {schedule : Schedule}
    (started : Instant.read? f.start.toList = some start)
    (daily : Schedule.parse "@daily" = .ok schedule) :
    readDeclared (f.source var) = .ok ⟨f.id,none,start,schedule,false,[],[]⟩ := by
  let below := (f.tasks.map entry).map (taskLine var) ++ (f.spelled var).map fun c => chainLine c.1 c.2
  have found : declaration? (lineCells (f.lines var)) = some (1,⟨'(',.code⟩ ::
      (pieceCells (argumentPieces f.headArguments) ++ ⟨')',.code⟩ ::
        (codeCells " as dag:\n".toList ++ lineCells below))) := by
    rw [lines,dagLine_cells]
    rfl
  have arguments := callArguments?_written (by simp [headArguments]) f.named_headArguments
    (codeCells " as dag:\n".toList ++ lineCells below)
  simp only [readDeclared,plain.cells_source,found,arguments]
  exact readDeclaration_head started daily plain.named

theorem calls : List.Forall₂ (Declares var) (f.tasks.map entry)
    (operatorCalls (Script.source (f.source var))) := by
  have oneLine := lineFeed_notMem_dagLine f.named_headArguments
  rw [plain.cells_source,operatorCalls_eq,lines,operatorCallsFrom_cons oneLine,operatorCall?_dagLine]
  exact operatorCallsFrom_tasks (fun _ member => plain.task_name member)
    (operatorCallsFrom_chains plain.chain_names) _

theorem other_or_chain : ∀ b ∈ f.bodies var, readDependency b = .other ∨
    ∃ c ∈ f.spelled var, b = chainText c.1 c.2 := by
  intro b inside
  rw [bodies,List.mem_cons,List.mem_append,List.mem_map,List.mem_map] at inside
  rcases inside with rfl | ⟨t,member,rfl⟩ | ⟨c,member,rfl⟩
  · exact .inl (readDependency_declaration (mild_arguments f.named_headArguments))
  · exact .inl (readDependency_task (mild_arguments (named_taskArguments t)) (plain.task_name member))
  · exact .inr ⟨c,member,rfl⟩

theorem readings : ∀ b ∈ f.bodies var, (readDependency b).makesSense = true ∧
    ∀ x ∈ (readDependency b).operands, ∃ id ∈ f.ids, x = var id := by
  intro b inside
  rcases plain.other_or_chain b inside with other | ⟨c,member,rfl⟩
  · rw [other]
    exact ⟨rfl,fun _ none => (List.not_mem_nil none).elim⟩
  · obtain ⟨sense,-,operands⟩ := reading_chainText (plain.chain_names c member)
    exact ⟨sense,fun x among => plain.known_spelled c member x (operands x among)⟩

theorem links_bodies : (f.bodies var).flatMap (fun b => (readDependency b).links) =
    f.links.map fun e => ⟨var e.source,var e.target⟩ := by
  have head : (readDependency
      ("with".toList ++ declarationTail (lineView (argumentPieces f.headArguments)))).links = [] := by
    rw [readDependency_declaration (mild_arguments f.named_headArguments)]
    rfl
  have tasks : ((f.tasks.map entry).map (fun t => var t.id ++ ' ' :: '=' :: ' ' ::
      operatorText (lineView (argumentPieces (taskArguments t))))).flatMap
        (fun b => (readDependency b).links) = [] := by
    rw [List.flatMap_map,List.flatMap_eq_nil_iff]
    intro t member
    rw [readDependency_task (mild_arguments (named_taskArguments t)) (plain.task_name member)]
    rfl
  have chain : ∀ c ∈ f.chains, (readDependency (chainText (var c.1) (c.2.map var))).links =
      (Outline.neighbours (c.1 :: c.2)).map fun p => ⟨var p.1,var p.2⟩ := by
    intro c member
    have names : ∀ b ∈ var c.1 :: c.2.map var, Text.isIdentifier b = true :=
      plain.chain_names (var c.1,c.2.map var) (List.mem_map_of_mem member)
    rw [(reading_chainText names).2.1,← List.map_cons,neighbours_map,List.map_map]
    rfl
  rw [bodies,List.flatMap_cons,head,List.nil_append,List.flatMap_append,tasks,List.nil_append,
    spelled,List.map_map,List.flatMap_map,links,List.map_flatMap]
  apply List.flatMap_congr
  intro c member
  rw [List.map_map]
  exact chain c member

theorem statements_source : statements (codeText (Script.source (f.source var))) =
    ((f.bodies var).zipIdx 1).map fun b => ⟨b.2,b.1⟩ := by
  rw [plain.cells_source,statements,statementsFrom_lines plain.shows_lines]

/-- The statements add the edges of the chains if the variables hold the tasks. -/
theorem applied_source {vars : Variables} {d : Dag} (sound : Registered d vars)
    (held : ∀ id ∈ f.ids, vars.lookup (String.ofList (var id)) = some ⟨f.id,id⟩) :
    (statements (codeText (Script.source (f.source var)))).foldlM (applyStatement vars) d =
      .ok { d with edges := Edge.insertAll d.edges f.links } := by
  rw [plain.statements_source,applyStatements_ok sound]
  constructor
  · intro s member
    obtain ⟨b,inside,rfl⟩ := List.mem_map.mp member
    obtain ⟨sense,operands⟩ := plain.readings b.1 (List.fst_mem_of_mem_zipIdx inside)
    refine ⟨sense,fun x among => ?_⟩
    obtain ⟨id,known,rfl⟩ := operands x among
    rw [held id known]
    rfl
  · have links : (((f.bodies var).zipIdx 1).map fun b => (⟨b.2,b.1⟩ : Statement)).flatMap
        (fun s => (readDependency s.text).links) = f.links.map fun e => ⟨var e.source,var e.target⟩ := by
      rw [← plain.links_bodies,List.flatMap_map]
      conv_rhs => rw [← List.zipIdx_map_fst 1 (f.bodies var),List.flatMap_map]
    have edges : (f.links.map fun e => (⟨var e.source,var e.target⟩ : Link)).filterMap
        (Link.edge? vars) = f.links := by
      rw [List.filterMap_map]
      refine (List.filterMap_congr fun e member => ?_).trans List.filterMap_some
      obtain ⟨source,target⟩ := plain.known_links e member
      simp only [Function.comp_apply,Link.edge?,held _ source,held _ target]
      rfl
    rw [linked,links,edges]

theorem readDag_source : ∃ d, readDag (f.source var) = .ok d ∧ d.id = f.id ∧ d.tasks = f.tasks ∧
    d.edges = f.links.eraseDups := by
  obtain ⟨start,started⟩ := Option.isSome_iff_exists.mp plain.started
  obtain ⟨schedule,daily⟩ : ∃ s, Schedule.parse "@daily" = .ok s := ⟨_,rfl⟩
  let empty : Dag := ⟨f.id,none,start,schedule,false,[],[]⟩
  let full : Dag := { empty with tasks := f.tasks }
  let vars := assigned var f.id (f.tasks.map entry)
  have registered : DagBuilder.register empty ((f.tasks.map entry).map fun t => ⟨t.id,t.command⟩) =
      .ok full := by
    have same : (f.tasks.map entry).map (fun t => (⟨t.id,t.command⟩ : Task)) = f.tasks := by
      rw [List.map_map]
      exact List.map_id f.tasks
    rw [same]
    exact (DagBuilder.register_ok (d := empty) List.nodup_nil).mpr
      ⟨plain.wellFormed,plain.distinct,rfl⟩
  have run : (operatorCalls (Script.source (f.source var))).foldlM registerTask (empty,[]) =
      .ok (full,vars ++ []) := registerTask_declares plain.calls registered []
  rw [List.append_nil] at run
  have held : ∀ id ∈ f.ids, vars.lookup (String.ofList (var id)) = some ⟨f.id,id⟩ := fun id member =>
    plain.naming.lookup f.id (f.ids_definition ▸ member)
  have sound : Registered full vars := (registerTasks_ok (registered_nil empty) run).1
  let final : Dag := { full with edges := Edge.insertAll [] f.links }
  have applied : (statements (codeText (Script.source (f.source var)))).foldlM
      (applyStatement vars) full = .ok final := plain.applied_source sound held
  have valid : final.validate = .ok () := by
    let b : DagBuilder := { id := f.id,tasks := f.tasks,dependencies := f.links }
    have consistent : Dag.Consistent (b.result start schedule) :=
      DagBuilder.result_consistent plain.named plain.wellFormed plain.distinct plain.known_links
    have same : ∀ e, e ∈ Edge.insertAll [] f.links ↔ e ∈ f.links := by simp [Edge.mem_insertAll]
    exact consistent.validate_ok.mpr ((Edge.cyclic_congr same).not.mpr plain.acyclic)
  refine ⟨final,readDag_ok.mpr ⟨empty,full,vars,plain.declared started daily,run,applied,valid⟩,rfl,
    rfl,Edge.insertAll_nil f.links⟩

end Plain

end PlainFile

end PipelineAtlas.Airflow

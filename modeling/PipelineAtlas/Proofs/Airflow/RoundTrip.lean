import PipelineAtlas.Proofs.Airflow.ChainLine
import PipelineAtlas.Proofs.Definition.Build
import PipelineAtlas.Proofs.FirstOccurrence

/-! A definition written as an Airflow file is read back as the DAG that building makes of it. -/
namespace PipelineAtlas.Airflow

open Fallible Script

def edgeText (a b : List Char) : List Char := a ++ ' ' :: '>' :: '>' :: ' ' :: b

theorem edgeText_eq (a b : List Char) : edgeText a b = chainText a [b] := by
  simp [edgeText,chainText]

theorem edgeLine_eq (var : String → List Char) (e : Edge) :
    edgeLine var e = chainLine (var e.source) [var e.target] := by
  simp [edgeLine,chainLine,chainText]

def fileBodies (var : String → List Char) (c : Definition) : List (List Char) :=
  ("with".toList ++ declarationTail (lineView (argumentPieces (declarationArguments c)))) ::
    c.tasks.map (fun t => var t.id ++ ' ' :: '=' :: ' ' ::
      operatorText (lineView (argumentPieces (taskArguments t)))) ++
    c.edges.map fun e => edgeText (var e.source) (var e.target)

section Lines

variable {var : String → List Char} {c : Definition}
  (names : ∀ id ∈ c.ids, Text.isIdentifier (var id) = true)
  (known : ∀ e ∈ c.edges, e.source ∈ c.ids ∧ e.target ∈ c.ids)

include names known

theorem edge_names : ∀ e ∈ c.edges, ∀ b ∈ [var e.source,var e.target],
    Text.isIdentifier b = true := by
  intro e inside
  simp only [List.forall_mem_cons]
  exact ⟨names e.source (known e inside).1,names e.target (known e inside).2,by simp⟩

theorem spaced_fileLines : ∀ l ∈ fileLines var c, Spaced l := by
  intro l inside
  simp only [fileLines,List.mem_append,List.mem_cons,List.mem_map] at inside
  rcases inside with (rfl | ⟨t,member,rfl⟩) | ⟨e,member,rfl⟩
  · exact spaced_dagLine (named_declarationArguments c)
  · exact spaced_taskLine (names t.id (List.mem_map_of_mem member))
  · rw [edgeLine_eq]
    exact spaced_chainLine (edge_names names known e member)

theorem operatorCalls_file :
    List.Forall₂ (Declares var) c.tasks (operatorCalls (lineCells (fileLines var c))) := by
  have oneLine := lineFeed_notMem_dagLine (named_declarationArguments c)
  have chains : c.edges.map (edgeLine var) =
      (c.edges.map fun e => (var e.source,[var e.target])).map fun c => chainLine c.1 c.2 := by
    rw [List.map_map]
    exact List.map_congr_left fun e _ => edgeLine_eq var e
  have edges : ∀ n, operatorCallsFrom n (lineCells (c.edges.map (edgeLine var))) = [] := by
    rw [chains]
    exact operatorCallsFrom_chains (List.forall_mem_map.mpr (edge_names names known))
  rw [operatorCalls_eq,fileLines,List.cons_append,declarationLine,operatorCallsFrom_cons oneLine,
    operatorCall?_dagLine]
  exact operatorCallsFrom_tasks (fun t inside => names t.id (List.mem_map_of_mem inside)) edges _

theorem shows_fileLines : List.Forall₂ Shows (fileLines var c) (fileBodies var c) := by
  refine List.rel_append (.cons (shows_dagLine (named_declarationArguments c)) ?_) ?_
  · rw [List.forall₂_map_left_iff,List.forall₂_map_right_iff,List.forall₂_same]
    exact fun t inside => shows_taskLine (names t.id (List.mem_map_of_mem inside))
  · rw [List.forall₂_map_left_iff,List.forall₂_map_right_iff,List.forall₂_same]
    intro e inside
    rw [edgeLine_eq,edgeText_eq]
    exact shows_chainLine (edge_names names known e inside)

end Lines

/-- What a declaration gives by key. -/
structure Given (c : Definition) (args : Arguments) : Prop where
  id : args.byKey "dag_id" = some (.string c.id)
  start : args.byKey "start_date" = some (.string c.start)
  schedule : args.byKey "schedule" = some (c.schedule.elim .none .string)
  catchup : args.byKey "catchup" = some (.bool c.catchup)
  description : args.byKey "description" = c.description.map .string

theorem given_declarationArguments (c : Definition) :
    Given c ((declarationArguments c).map Keyed.argument) := by
  cases scheduled : c.schedule <;> cases described : c.description <;> constructor <;>
    simp [declarationArguments,Keyed.argument,Constant.value,Arguments.byKey,scheduled,described]

theorem readDeclaration_given {c : Definition} {args : Arguments} (given : Given c args)
    {start : Instant} {schedule : Schedule} (started : Definition.readStart c.start = .ok start)
    (scheduled : c.readSchedule = .ok schedule) (named : isWellFormed c.id = true) (line : Nat) :
    readDeclaration args line =
      .ok ⟨c.id,c.description,start,schedule,c.catchup,[],[]⟩ := by
  have instant : Instant.read? c.start.toList = some start := by
    unfold Definition.readStart at started
    cases read : Instant.read? c.start.toList with
    | none => simp [read] at started
    | some i => simpa [read] using started
  have id : readId args line = .ok c.id := by
    simp [readId,given.id]
  have start : readStart args line = .ok start := by
    simp [readStart,given.start,instant]
  have schedule : readSchedule args line = .ok schedule := by
    unfold Definition.readSchedule at scheduled
    cases chosen : c.schedule with
    | none =>
      simp only [chosen,Except.ok.injEq] at scheduled
      simp [readSchedule,given.schedule,chosen,scheduled]
    | some text =>
      simp only [chosen,mapError_ok] at scheduled
      simp [readSchedule,given.schedule,chosen,scheduled,mapError_of_ok]
  have catchup : readCatchup args line = .ok c.catchup := by
    simp [readCatchup,given.catchup]
  have description : readDescription args line = .ok c.description := by
    cases chosen : c.description <;> simp [readDescription,given.description,chosen]
  unfold readDeclaration
  rw [id,start,schedule,catchup,description]
  simp [bind,Except.bind,pure,Except.pure,Dag.new,named,mapError_of_ok]

theorem readTask_declares {var : String → List Char} {t : TaskDefinition} {o : OperatorCall}
    (declares : Declares var t o) : readTask o = .ok ⟨t.id,t.command⟩ := by
  have carries : carriesCommand o.operator = true := by
    rw [declares.operator]
    decide
  simp [readTask,carries,declares.arguments,stringArgument,taskArguments,Keyed.argument,
    Constant.value,Arguments.byKey,bind,Except.bind,pure,Except.pure]

def assigned (var : String → List Char) (dag : String) (tasks : List TaskDefinition) : Variables :=
  (tasks.map fun t => (String.ofList (var t.id),(⟨dag,t.id⟩ : TaskHandle))).reverse

theorem registerTask_declares {var : String → List Char} {tasks : List TaskDefinition}
    {calls : List OperatorCall} (declares : List.Forall₂ (Declares var) tasks calls) {d d' : Dag}
    (registered : DagBuilder.register d (tasks.map fun t => ⟨t.id,t.command⟩) = .ok d')
    (vars : Variables) :
    calls.foldlM registerTask (d,vars) = .ok (d',assigned var d.id tasks ++ vars) := by
  induction declares generalizing d vars with
  | nil =>
    cases registered
    rfl
  | @cons t o tasks calls here _ ih =>
    rw [List.map_cons,DagBuilder.register_cons,bind_ok] at registered
    obtain ⟨_,added,registered⟩ := registered
    obtain ⟨⟨d₁,h⟩,addedHere,rfl⟩ := map_ok.mp added
    obtain ⟨-,-,rfl,rfl⟩ := Dag.addTask_ok.mp addedHere
    have step : registerTask (d,vars) o =
        .ok ({ d with tasks := d.tasks ++ [⟨t.id,t.command⟩] },
          (String.ofList (var t.id),⟨d.id,t.id⟩) :: vars) := by
      simp [registerTask,readTask_declares here,addedHere,here.target,bind,Except.bind,pure,
        Except.pure,mapError_of_ok]
    rw [List.foldlM_cons,step]
    refine (ih registered _).trans ?_
    simp [assigned]

theorem applyStatement_edge {var : String → List Char} {vars : Variables} {d d' : Dag} {e : Edge}
    (source : Text.isIdentifier (var e.source) = true)
    (target : Text.isIdentifier (var e.target) = true)
    (sourceTask : vars.lookup (String.ofList (var e.source)) = some ⟨d.id,e.source⟩)
    (targetTask : vars.lookup (String.ofList (var e.target)) = some ⟨d.id,e.target⟩)
    (linked : DagBuilder.link d e = .ok d') (line : Nat) :
    applyStatement vars d ⟨line,edgeText (var e.source) (var e.target)⟩ = .ok d' := by
  obtain ⟨⟨knownSource,knownTarget⟩,rfl⟩ := DagBuilder.link_ok.mp linked
  have link : d.link ⟨d.id,e.source⟩ ⟨d.id,e.target⟩ =
      .ok { d with edges := Edge.insert d.edges e } :=
    Dag.link_ok.mpr ⟨Dag.checkHandle_ok.mpr ⟨rfl,knownSource⟩,
      Dag.checkHandle_ok.mpr ⟨rfl,knownTarget⟩,rfl⟩
  have names : ∀ b ∈ [var e.source,var e.target], Text.isIdentifier b = true := by
    simp [source,target]
  have read : readDependency (edgeText (var e.source) (var e.target)) =
      .dependency (.groups [var e.source] [(.forward,[var e.target])]) := by
    rw [edgeText_eq,readDependency_chainText names rfl]
    rfl
  simp [applyStatement,read,Dependency.apply,linkChain,linkGroups,
    linkEach,resolve,sourceTask,targetTask,linkTasks,link,bind,Except.bind,pure,Except.pure,
    mapError_of_ok]

theorem applyStatement_edges {var : String → List Char} {vars : Variables} {edges : List Edge}
    {d d' : Dag}
    (names : ∀ e ∈ edges, Text.isIdentifier (var e.source) = true ∧
      Text.isIdentifier (var e.target) = true)
    (tasks : ∀ id ∈ d.ids, vars.lookup (String.ofList (var id)) = some ⟨d.id,id⟩)
    (linked : edges.foldlM DagBuilder.link d = .ok d') (n : Nat) :
    (((edges.map fun e => edgeText (var e.source) (var e.target)).zipIdx n).map
      fun b => (⟨b.2,b.1⟩ : Statement)).foldlM (applyStatement vars) d = .ok d' := by
  induction edges generalizing d n with
  | nil =>
    cases linked
    rfl
  | cons e edges ih =>
    rw [List.foldlM_cons,bind_ok] at linked
    obtain ⟨d₁,here,linked⟩ := linked
    obtain ⟨⟨knownSource,knownTarget⟩,same⟩ := DagBuilder.link_ok.mp here
    have step := applyStatement_edge (names e (by simp)).1 (names e (by simp)).2
      (tasks e.source knownSource) (tasks e.target knownTarget) here n
    have tasks' : ∀ id ∈ d₁.ids, vars.lookup (String.ofList (var id)) = some ⟨d₁.id,id⟩ := by
      rw [same]
      exact tasks
    simp only [List.map_cons,List.zipIdx_cons,List.foldlM_cons,step]
    exact ih (fun e inside => names e (List.mem_cons_of_mem _ inside)) tasks' linked (n + 1)

theorem applyStatement_other {vars : Variables} {bodies : List (List Char)}
    (other : ∀ b ∈ bodies, readDependency b = .other) (d : Dag) (n : Nat) :
    ((bodies.zipIdx n).map fun b => (⟨b.2,b.1⟩ : Statement)).foldlM (applyStatement vars) d =
      .ok d := by
  induction bodies generalizing n with
  | nil => rfl
  | cons b bodies ih =>
    have here : applyStatement vars d ⟨n,b⟩ = .ok d := by
      simp [applyStatement,other b (by simp)]
    simp only [List.zipIdx_cons,List.map_cons,List.foldlM_cons,here]
    exact ih (fun b inside => other b (List.mem_cons_of_mem _ inside)) (n + 1)

/-- The statements of a file link the tasks of its edges. -/
theorem applyStatement_file {var : String → List Char} {vars : Variables} {c : Definition}
    {d d' : Dag} (names : ∀ id ∈ c.ids, Text.isIdentifier (var id) = true)
    (known : ∀ e ∈ c.edges, e.source ∈ c.ids ∧ e.target ∈ c.ids)
    (tasks : ∀ id ∈ d.ids, vars.lookup (String.ofList (var id)) = some ⟨d.id,id⟩)
    (linked : c.edges.foldlM DagBuilder.link d = .ok d') :
    (statements (codeText (lineCells (fileLines var c)))).foldlM (applyStatement vars) d =
      .ok d' := by
  rw [statements,statementsFrom_lines (shows_fileLines names known),fileBodies,List.zipIdx_append,
    List.map_append,List.foldlM_append,applyStatement_other]
  · exact applyStatement_edges (fun e inside => ⟨names e.source (known e inside).1,
      names e.target (known e inside).2⟩) tasks linked _
  · intro b inside
    rcases List.mem_cons.mp inside with rfl | inside
    · exact readDependency_declaration (mild_arguments (named_declarationArguments c))
    · obtain ⟨t,member,rfl⟩ := List.mem_map.mp inside
      exact readDependency_task (mild_arguments (named_taskArguments t))
        (names t.id (List.mem_map_of_mem member))

/-- Variables for the tasks of a definition: identifiers, and no two tasks share one. -/
structure Naming (var : String → List Char) (c : Definition) : Prop where
  names : ∀ id ∈ c.ids, Text.isIdentifier (var id) = true
  apart : ∀ a ∈ c.ids, ∀ b ∈ c.ids, var a = var b → a = b

theorem Naming.lookup {var : String → List Char} {c : Definition} (naming : Naming var c)
    (dag : String) {id : String} (member : id ∈ c.ids) :
    (assigned var dag c.tasks).lookup (String.ofList (var id)) = some ⟨dag,id⟩ := by
  refine FirstOccurrence.lookup_of_unique ?_ ?_
  · obtain ⟨t,inside,rfl⟩ := List.mem_map.mp member
    exact List.mem_reverse.mpr (List.mem_map.mpr ⟨t,inside,rfl⟩)
  · intro h other
    obtain ⟨t,inside,same⟩ := List.mem_map.mp (List.mem_reverse.mp other)
    obtain ⟨names,rfl⟩ := Prod.mk.inj same
    rw [naming.apart t.id (List.mem_map_of_mem inside) id member (String.ofList_injective names)]

/-- The file of a definition, whatever its variables are called. -/
theorem readDag_writtenLines {var : String → List Char} {c : Definition} {d : Dag}
    (naming : Naming var c) (built : c.build = .ok d) :
    readDag (writtenLines (fileLines var c)) = .ok d := by
  obtain ⟨start,schedule,started,scheduled,builtBy⟩ := Definition.build_ok.mp built
  obtain ⟨named,wellFormed,coherent,rfl⟩ := Definition.toBuilder_build_ok.mp builtBy
  obtain ⟨distinct,depends,acyclic⟩ := Definition.coherent_iff.mp coherent
  have known : ∀ e ∈ c.edges, e.source ∈ c.ids ∧ e.target ∈ c.ids := by
    intro e inside
    obtain ⟨t,present,dependency,target⟩ := Definition.mem_edges.mp inside
    exact ⟨depends t present e.source dependency,target ▸ List.mem_map_of_mem present⟩
  have cells : source (writtenLines (fileLines var c)) = lineCells (fileLines var c) :=
    source_writtenLines (spaced_fileLines naming.names known)
  have declared : declaration? (lineCells (fileLines var c)) = some (1,⟨'(',.code⟩ ::
      (pieceCells (argumentPieces (declarationArguments c)) ++ ⟨')',.code⟩ ::
        (codeCells " as dag:\n".toList ++ lineCells (c.tasks.map (taskLine var) ++
          c.edges.map (edgeLine var))))) := by
    rw [fileLines,List.cons_append,declarationLine,dagLine_cells]
    rfl
  have arguments := callArguments?_written (by simp [declarationArguments])
    (named_declarationArguments c)
    (codeCells " as dag:\n".toList ++ lineCells (c.tasks.map (taskLine var) ++
      c.edges.map (edgeLine var)))
  have declaration := readDeclaration_given (given_declarationArguments c) started scheduled named 1
  let empty : Dag := ⟨c.id,c.description,start,schedule,c.catchup,[],[]⟩
  let full : Dag := { empty with tasks := c.tasks.map fun t => ⟨t.id,t.command⟩ }
  have registered : DagBuilder.register empty (c.tasks.map fun t => ⟨t.id,t.command⟩) =
      .ok full := by
    refine (DagBuilder.register_ok (by simp [empty,Dag.ids])).mpr ⟨?_,?_,rfl⟩
    · simpa using wellFormed
    · simpa [empty,Dag.ids,Definition.ids,Function.comp_def] using distinct
  have tasks := registerTask_declares (operatorCalls_file naming.names known) registered []
  have ids : full.ids = c.ids := by simp [full,Dag.ids,Definition.ids,Function.comp_def]
  have linked : c.edges.foldlM DagBuilder.link full =
      .ok { full with edges := Edge.insertAll [] c.edges } :=
    DagBuilder.linkAll_ok.mpr ⟨by rw [ids]; exact known,rfl⟩
  have resolved : ∀ id ∈ full.ids, (assigned var c.id c.tasks).lookup (String.ofList (var id)) =
      some ⟨full.id,id⟩ := fun id member => naming.lookup c.id (ids ▸ member)
  have statements := applyStatement_file naming.names known resolved linked
  have validated := DagBuilder.validate_of_build builtBy
  unfold readDag
  simp only [cells,declared,arguments]
  refine bind_ok.mpr ⟨_,declaration,?_⟩
  refine bind_ok.mpr ⟨_,tasks,?_⟩
  simp only [List.append_nil]
  refine bind_ok.mpr ⟨_,statements,?_⟩
  exact andThen_ok.mpr ⟨by rw [mapError_ok]; exact validated,rfl⟩

theorem naming_numbered (first : Nat) (c : Definition) : Naming (numbered first c) c where
  names := by
    intro id _
    have digits : (first + c.ids.idxOf id).repr.toList.all Text.isAsciiWord = true := by
      rw [List.all_eq_true]
      intro d inside
      rw [Nat.toList_repr] at inside
      have digit := Nat.isDigit_of_mem_toDigits (by decide) (by decide) inside
      simp [Text.isAsciiWord,Char.isAlphanum,digit]
    have letter : Text.isAsciiStart 't' = true := by decide
    rw [numbered,Text.isIdentifier,letter,digits]
    rfl
  apart := by
    intro a inside b _ same
    have digits := (List.cons.inj same).2
    rw [Nat.toList_repr,Nat.toList_repr] at digits
    have numbers := congrArg (fun s => Nat.ofDigitChars 10 s 0) digits
    simp only [Nat.ofDigitChars_toDigits (by decide : 1 < 10) (by decide : 10 ≤ 10)] at numbers
    exact (List.idxOf_inj inside).mp (Nat.add_left_cancel numbers)

/-- Every definition that can be built is read from its Airflow file as the DAG that building makes
of it, whatever texts stand in it. -/
theorem readDag_render (first : Nat) (c : Definition) (d : Dag) (built : c.build = .ok d) :
    readDag (render first c) = .ok d :=
  readDag_writtenLines (naming_numbered first c) built

/-- A definition whose texts look like parts of a file. -/
def misleading : Definition where
  id := "nightly"
  description := some "it's a \\ # DAG('x') >> ün\nt0 = BashOperator("
  start := "2024-01-01"
  schedule := none
  catchup := true
  tasks := [⟨"a","echo 'a' # )\n[b] >> \"c\"",[]⟩,⟨"b.2","with DAG(\\n",["a"]⟩]

theorem readDag_render_misleading :
    ∃ d, misleading.build = .ok d ∧ readDag (render 0 misleading) = .ok d := by
  have built : misleading.build = .ok ⟨"nightly",misleading.description,⟨1704067200,0⟩,
      Schedule.manual,true,[⟨"a","echo 'a' # )\n[b] >> \"c\""⟩,⟨"b.2","with DAG(\\n"⟩],
      [⟨"a","b.2"⟩]⟩ := by decide
  exact ⟨_,built,readDag_render 0 misleading _ built⟩

end PipelineAtlas.Airflow

import PipelineAtlas.Proofs.CommandLine.Argument
import PipelineAtlas.Proofs.Loading

/-! What is printed of DAGs. A path is found good if and only if its DAGs can be printed, as texts and as
flowcharts, and a text lists each task once, behind the tasks that it waits for. -/
namespace PipelineAtlas.CommandLine

open Fallible

/-- The line of a task: its command, and the sources of its edges in the order of the edges. -/
def row (edges : List Edge) (t : Task) : String :=
  let sources := (edges.filter (·.target == t.id)).map (·.source)
  let behind := if sources = [] then "" else " (depends on: " ++ ", ".intercalate sources ++ ")"
  "    - " ++ t.id ++ ": " ++ t.command ++ behind ++ "\n"

/-- A text that lists the tasks of a DAG below its header, each once and behind all that lead to it. -/
def Lists (d : Dag) (text : String) : Prop :=
  ∃ shown : List Task, text = header d ++ "".intercalate (shown.map (row d.edges)) ∧
    shown.Perm d.tasks ∧ (shown.map (·.id)).Nodup ∧
    ∀ front t rear, shown = front ++ t :: rear →
      ∀ e ∈ d.edges, e.target = t.id → e.source ∈ front.map (·.id)

theorem taskLine_eq_row {d : Dag} (consistent : d.Consistent) {t : Task} (member : t ∈ d.tasks) :
    taskLine d t.id = row d.edges t := by
  have sources : d.predecessors t.id = (d.edges.filter (·.target == t.id)).map (·.source) := rfl
  rw [taskLine,consistent.task?_eq member,sources,row]
  cases (d.edges.filter (·.target == t.id)).map (·.source) <;> rfl

/-- Where an order has names of its own, what stands in front of one place of a name stands in front of
its only place. -/
theorem mem_front {order front rear : List String} {a b : String} (unique : order.Nodup)
    (before : Edge.Precedes order a b) (split : order = front ++ b :: rear) : a ∈ front := by
  obtain ⟨front',rear',rfl,inFront⟩ := before
  have apart := List.nodup_middle.mp (split ▸ unique)
  rw [List.nodup_cons,List.mem_append,not_or] at apart
  obtain ⟨rfl,-,-⟩ := (List.append_cons_inj_of_notMem apart.1.1 apart.1.2).mp split.symm
  exact inFront

theorem lists_dagText {d : Dag} (valid : d.Valid) : ∃ text, dagText d = .ok text ∧ Lists d text := by
  obtain ⟨sorted,found,perm,respected⟩ := valid.exists_sorted
  -- the text is made of names, each of which is looked up again
  have rows : (sorted.map (·.id)).map (taskLine d) = sorted.map (row d.edges) := by
    rw [List.map_map]
    exact List.map_congr_left fun t member =>
      taskLine_eq_row valid.consistent (perm.subset member)
  have shown : dagText d = .ok (header d ++ "".intercalate (sorted.map (row d.edges))) := by
    rw [dagText,found,bind_of_ok,rows]
    rfl
  have unique : (sorted.map (·.id)).Nodup := (perm.map _).nodup_iff.mpr valid.consistent.distinct
  refine ⟨_,shown,sorted,rfl,perm,unique,fun front t rear split e inside target => ?_⟩
  have parts : sorted.map (·.id) = front.map (·.id) ++ t.id :: rear.map (·.id) := by
    rw [split,List.map_append,List.map_cons]
  exact mem_front unique (target ▸ respected e inside) parts

/-- The output for DAGs at a path: their texts one by one, each with an empty line behind it. -/
def Prints (path : String) (output : String) : List Dag → Prop
  | [] => output = line ("No DAGs found in " ++ path)
  | ds => ∃ texts, List.Forall₂ Lists ds texts ∧ output = "".intercalate (texts.map line)

theorem exists_texts {ds : List Dag} (valid : ∀ d ∈ ds, d.Valid) :
    ∃ texts, ds.mapM describe = .ok texts ∧ List.Forall₂ Lists ds texts := by
  induction ds with
  | nil => exact ⟨[],rfl,.nil⟩
  | cons d ds ih =>
    obtain ⟨validHere,validLater⟩ := List.forall_mem_cons.mp valid
    obtain ⟨text,shown,lists⟩ := lists_dagText validHere
    obtain ⟨texts,mapped,listed⟩ := ih validLater
    have here : describe d = .ok text := mapError_ok.mpr shown
    exact ⟨text :: texts,mapM_ok.mpr (.cons here (mapM_ok.mp mapped)),.cons lists listed⟩

variable {paths : Paths} {path : String} {ds : List Dag}

theorem display_of_dags (loaded : dags paths path = .ok ds) :
    ∃ output, display paths path false = .ok output ∧ Prints path output ds := by
  obtain ⟨texts,mapped,listed⟩ := exists_texts (valid_of_dags loaded)
  rw [display,loaded,bind_of_ok]
  cases ds with
  | nil => exact ⟨_,rfl,rfl⟩
  | cons d ds =>
    refine ⟨"".intercalate (texts.map line),?_,texts,listed,rfl⟩
    exact bind_ok.mpr ⟨texts,mapped,rfl⟩

theorem display_mermaid_of_dags (loaded : dags paths path = .ok ds) :
    ∃ output, display paths path true = .ok output := by
  have mapped : ds.mapM (fun d => (.ok (line (Mermaid.ofDag d)) : Except Failure String)) =
      .ok (ds.map fun d => line (Mermaid.ofDag d)) := by
    rw [mapM_ok,List.forall₂_map_right_iff]
    exact List.forall₂_same.mpr fun _ _ => rfl
  rw [display,loaded,bind_of_ok]
  cases ds with
  | nil => exact ⟨_,rfl⟩
  | cons d ds =>
    exact ⟨_,bind_ok.mpr ⟨_,mapped,rfl⟩⟩

theorem dags_of_display {mermaid : Bool} {output : String}
    (shown : display paths path mermaid = .ok output) : ∃ ds, dags paths path = .ok ds := by
  obtain ⟨ds,loaded,-⟩ := bind_ok.mp shown
  exact ⟨ds,loaded⟩

variable {args : List String}

theorem run_code_of_read {command : Command} (read : read? args = some command) :
    (run paths args).code = 0 ↔ ∃ output, perform paths command = .ok output := by
  rw [run,read]
  cases performed : perform paths command <;> simp [performed]

theorem run_output_of_read {command : Command} {output : String}
    (read : read? args = some command) (performed : perform paths command = .ok output) :
    (run paths args).output = output := by
  simp [run,read,performed]

theorem run_code_of_usage (misread : read? args = none) : (run paths args).code = 2 := by
  rw [run,misread]

theorem run_validate (read : read? args = some (.validate path)) :
    (run paths args).code = 0 ↔ ∃ ds, dags paths path = .ok ds := by
  rw [run_code_of_read read]
  simp only [perform,map_ok]
  exact ⟨fun ⟨_,ds,loaded,_⟩ => ⟨ds,loaded⟩,fun ⟨ds,loaded⟩ => ⟨_,ds,loaded,rfl⟩⟩

theorem run_display {mermaid : Bool} (read : read? args = some (.display path mermaid)) :
    (run paths args).code = 0 ↔ ∃ ds, dags paths path = .ok ds := by
  rw [run_code_of_read read]
  refine ⟨fun ⟨_,shown⟩ => dags_of_display shown,fun ⟨_,loaded⟩ => ?_⟩
  cases mermaid with
  | false =>
    obtain ⟨output,shown,-⟩ := display_of_dags loaded
    exact ⟨output,shown⟩
  | true => exact display_mermaid_of_dags loaded

theorem run_help (read : read? args = some .help) : (run paths args).code = 0 :=
  (run_code_of_read read).mpr ⟨_,rfl⟩

theorem run_validate_iff (paths : Paths) (path : String) : (run paths ["validate",path]).code = 0 ↔
    (run paths ["show",path]).code = 0 ∧ (run paths ["show",path,"--mermaid"]).code = 0 := by
  cases asks : Shape.asksHelp path with
  | true =>
    have codes : (run paths ["validate",path]).code = 0 ∧ (run paths ["show",path]).code = 0 ∧
        (run paths ["show",path,"--mermaid"]).code = 0 :=
      ⟨run_help (read?_asksHelp asks).1,run_help (read?_asksHelp asks).2,
        run_help (read?_asksHelp asks).2⟩
    exact iff_of_true codes.1 codes.2
  | false =>
    rcases read?_silent asks with ⟨validated,shown,drawn⟩ | ⟨validated,shown⟩
    · rw [run_validate validated,run_display shown,run_display drawn,and_self]
    · simp [run_code_of_usage validated,run_code_of_usage shown]

theorem read?_of_show (ran : (run paths ["show",path]).code = 0) :
    Shape.asksHelp path = true ∨ read? ["show",path] = some (.display path false) := by
  cases asks : Shape.asksHelp path with
  | true => exact .inl rfl
  | false =>
    rcases read?_silent asks with ⟨-,shown,-⟩ | ⟨-,shown⟩
    · exact .inr shown
    · rw [run_code_of_usage shown] at ran
      cases ran

theorem prints_of_run (read : read? args = some (.display path false))
    (ran : (run paths args).code = 0) :
    ∃ ds, dags paths path = .ok ds ∧ Prints path (run paths args).output ds := by
  obtain ⟨ds,loaded⟩ := (run_display read).mp ran
  obtain ⟨output,shown,prints⟩ := display_of_dags loaded
  have same : (run paths args).output = output := run_output_of_read read shown
  exact ⟨ds,loaded,same ▸ prints⟩

/-- Checking a path succeeds if and only if showing it does, as texts and as flowcharts. Showing succeeds
only on a path, or on an argument that asks for help. It prints the DAGs of the path in the order in which
they are loaded, and the tasks of each behind those that they wait for. -/
theorem validate_iff_show (paths : Paths) (path : String) :
    ((run paths ["validate",path]).code = 0 ↔
      (run paths ["show",path]).code = 0 ∧ (run paths ["show",path,"--mermaid"]).code = 0) ∧
    ((run paths ["show",path]).code = 0 →
      Shape.asksHelp path = true ∨ read? ["show",path] = some (.display path false)) ∧
    ∀ args, read? args = some (.display path false) → (run paths args).code = 0 →
      ∃ ds, dags paths path = .ok ds ∧ Prints path (run paths args).output ds :=
  ⟨run_validate_iff paths path,read?_of_show,fun _ read ran => prints_of_run read ran⟩

/-- Two definitions in a directory, in one of which a task stands in front of one that it waits for. -/
def shelved : Paths
  | "dags" => some (.directory
    [("b.yaml",.file (.text
      "id: late\nstart_date: 2024-01-01\ntasks:\n- {id: l, command: x, depends_on: [m]}\n- {id: m, command: y}\n")),
    ("a.yml",.file (.text "id: early\nstart_date: 2024-01-01\ntasks:\n- {id: k, command: z}\n"))])
  | _ => none

theorem validate_iff_show_shelved : (run shelved ["show","dags"]).code = 0 ∧
    (run shelved ["validate","dags"]).code = 0 ∧ ∃ ds, dags shelved "dags" = .ok ds ∧
      ds.map (·.id) = ["early","late"] ∧ Prints "dags" (run shelved ["show","dags"]).output ds := by
  obtain ⟨checked,read,prints⟩ := validate_iff_show shelved "dags"
  have validated : (run shelved ["validate","dags"]).code = 0 := by decide +kernel
  have shown := (checked.mp validated).1
  have names : (dags shelved "dags").map (·.map (·.id)) = .ok ["early","late"] := by decide +kernel
  have plain : ¬ Shape.asksHelp "dags" = true := by decide
  obtain ⟨ds,loaded,printed⟩ := prints _ ((read shown).resolve_left plain) shown
  rw [loaded] at names
  exact ⟨shown,validated,ds,loaded,Except.ok.inj names,printed⟩

end PipelineAtlas.CommandLine

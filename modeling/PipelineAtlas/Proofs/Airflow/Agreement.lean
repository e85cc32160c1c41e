import PipelineAtlas.Proofs.Airflow.OutlineLine
import PipelineAtlas.Proofs.Airflow.PlainFile
import PipelineAtlas.Proofs.Instant.DateText
import PipelineAtlas.Proofs.Workspace.Recorded

/-! The outline of a plain file and the DAG that it is read as. The outline has a node for each task and
an edge for each edge of the DAG, both in order, whatever stands in the commands short of a mark. -/
namespace PipelineAtlas.Airflow

open Script Outline

theorem written_taskLine (var : String → List Char) (t : TaskDefinition) : written (taskLine var t) =
    "    ".toList ++ (var t.id ++ (" = BashOperator(".toList ++ ("task_id='".toList ++
      (escapeText t.id.toList ++ ("', bash_command='".toList ++
        (escapeText t.command.toList ++ "')".toList)))))) := by
  simp [written,taskLine,taskArguments,argumentPieces,Keyed.pieces,Constant.piece,Piece.chars,
    singleQuoted,literalText,delimiter]

theorem notMem_of_wellFormed {id : String} (wellFormed : isWellFormed id = true) {c : Char}
    (other : isIdentifierChar c = false) (noSlash : c ≠ '\\') (noLetter : c ≠ 'n') :
    c ∉ escapeText id.toList := by
  refine notMem_escapeText noSlash noLetter fun inside => ?_
  rw [Mermaid.isIdentifierChar_of_mem wellFormed inside] at other
  cases other

theorem isWhole_taskLine {var : String → List Char} {t : TaskDefinition}
    (identifier : Text.isIdentifier (var t.id) = true) : Text.IsWhole (written (taskLine var t)) where
  unbroken := lineFeed_notMem_taskLine identifier
  uncut := by
    simp [written_taskLine,List.getLast?_cons,List.getLast?_append]
  nonempty := by
    simp [written_taskLine]

theorem isWhole_chainLine {a : List Char} {rest : List (List Char)}
    (names : ∀ b ∈ a :: rest, Text.isIdentifier b = true) :
    Text.IsWhole (written (chainLine a rest)) where
  unbroken := lineFeed_notMem_chainLine names
  uncut := by
    obtain ⟨c,more,begins,-⟩ := first_chainText names
    intro last
    rw [written_chainLine,List.getLast?_append,Option.or_of_isSome (by simp [begins])] at last
    exact absurd (last_chainText names _ last) (by decide)
  nonempty := List.append_ne_nil_of_left_ne_nil (List.append_ne_nil_of_left_ne_nil (by decide) _) _

namespace PlainFile

variable {f : PlainFile} {var : String → List Char}

theorem written_dagLine (f : PlainFile) : written (dagLine f.headArguments) =
    "with DAG(dag_id".toList ++ '=' :: '\'' :: (escapeText f.id.toList ++
      ("', start_date".toList ++ '=' :: '\'' :: (escapeText f.start.toList ++
        "') as dag:".toList))) := by
  simp [written,dagLine,headArguments,argumentPieces,Keyed.pieces,Constant.piece,Piece.chars,
    singleQuoted,literalText,delimiter]

theorem isWhole_dagLine (f : PlainFile) : Text.IsWhole (written (dagLine f.headArguments)) where
  unbroken := lineFeed_notMem_dagLine f.named_headArguments
  uncut := by
    simp [written_dagLine,List.getLast?_cons,List.getLast?_append]
  nonempty := by
    simp [written_dagLine]

def entity (var : String → List Char) (file id : String) : Entity := ⟨file,String.ofList (var id)⟩

/-- What the outline finds: the tasks at the lines below the first one, and the chains. -/
def findings (f : PlainFile) (var : String → List Char) (file : String) : List Finding :=
  (f.tasks.zipIdx 2).map (fun t => .defined (entity var file t.1.id) ⟨file,t.2⟩) ++
    f.links.flatMap fun e => linkFindings file (String.ofList (var e.source),String.ofList (var e.target))

namespace Plain

variable (plain : f.Plain var) (file : String)

include plain

theorem notMem_start {c : Char} (other : Instant.isDateChar c = false) (noSlash : c ≠ '\\')
    (noLetter : c ≠ 'n') : c ∉ escapeText f.start.toList := by
  obtain ⟨start,read⟩ := Option.isSome_iff_exists.mp plain.started
  refine notMem_escapeText noSlash noLetter fun inside => ?_
  rw [Instant.isDateChar_of_read? read c inside] at other
  cases other

theorem lineFindings_dagLine (n : Nat) : lineFindings file (written (dagLine f.headArguments),n) = [] := by
  have quoting : Quoting (written (dagLine f.headArguments)) := by
    rw [written_dagLine]
    apply Quoting.append (by decide)
    apply Quoting.value
    apply Quoting.append (notMem_of_wellFormed plain.named (by decide) (by decide) (by decide))
    apply Quoting.append (by decide)
    apply Quoting.value
    apply Quoting.append (plain.notMem_start (by decide) (by decide) (by decide))
    unfold Quoting
    decide
  have noMark : '>' ∉ written (dagLine f.headArguments) := by
    rw [written_dagLine]
    have id := notMem_of_wellFormed plain.named (c := '>') (by decide) (by decide) (by decide)
    have start := plain.notMem_start (c := '>') (by decide) (by decide) (by decide)
    simp [id,start]
  have unlinked : Outline.linked (written (dagLine f.headArguments) ++ ([] ++ [])) = [] :=
    linked_of_unmarked noMark (by decide) (by decide)
  rw [List.append_nil,List.append_nil] at unlinked
  rw [lineFindings,assigned?_of_quoting quoting,unlinked]
  rfl

theorem lineFindings_taskLine {t : Task} (member : t ∈ f.tasks) (n : Nat) :
    lineFindings file (written (taskLine var (entry t)),n) =
      [.defined (entity var file t.id) ⟨file,n⟩] := by
  have identifier : Text.isIdentifier (var t.id) = true := plain.names t.id (List.mem_map_of_mem member)
  have unlinked : Outline.linked (written (taskLine var (entry t))) = [] := by
    have front : '>' ∉ "    ".toList ++ (var t.id ++ (" = BashOperator(".toList ++
        ("task_id='".toList ++ (escapeText t.id.toList ++ "', bash_command='".toList)))) := by
      have name : '>' ∉ var t.id := fun inside =>
        absurd ((Text.word_of_isIdentifier identifier).2 '>' inside) (by decide)
      have id := notMem_of_wellFormed (plain.wellFormed t member) (c := '>') (by decide) (by decide)
        (by decide)
      simp [name,id]
    have back : '>' ∉ "')".toList := by decide
    have unlinked := linked_of_unmarked front (plain.unmarked t member) back
    simp only [List.append_assoc] at unlinked
    rw [written_taskLine]
    exact unlinked
  have assigned : assigned? (written (taskLine var (entry t))) = some (var t.id) := by
    rw [written_taskLine]
    exact assigned?_operator identifier _
  rw [lineFindings,unlinked,assigned]
  rfl

theorem lineFindings_chainLine {c : String × List String} (member : c ∈ f.chains) (n : Nat) :
    lineFindings file (written (chainLine (var c.1) (c.2.map var)),n) =
      ((neighbours (c.1 :: c.2)).map fun p => (⟨p.1,p.2⟩ : Edge)).flatMap fun e =>
        linkFindings file (String.ofList (var e.source),String.ofList (var e.target)) := by
  have names : ∀ b ∈ var c.1 :: c.2.map var, Text.isIdentifier b = true :=
    plain.chain_names (var c.1,c.2.map var) (List.mem_map_of_mem member)
  rw [lineFindings,written_chainLine,assigned?_chainText names,linked_chainText names,← List.map_cons,
    neighbours_map,List.map_map,List.flatMap_map,List.flatMap_map]
  rfl

theorem lines_source : Text.lines (f.source var) = (f.lines var).map written := by
  have whole : ∀ line ∈ (f.lines var).map written, Text.IsWhole line := by
    rw [List.forall_mem_map]
    intro l inside
    rw [lines,List.mem_cons,List.mem_append,List.mem_map,List.mem_map] at inside
    rcases inside with rfl | ⟨t,member,rfl⟩ | ⟨c,member,rfl⟩
    · exact f.isWhole_dagLine
    · exact isWhole_taskLine (plain.task_name member)
    · exact isWhole_chainLine (plain.chain_names c member)
  rw [source,writtenLines,← List.flatMap_map (f := written) (g := fun line => line ++ ['\n'])]
  exact Text.lines_ended whole

theorem findings_source : Outline.findings (f.source var) file = f.findings var file := by
  have tasks : ((f.tasks.map fun t => written (taskLine var (entry t))).zipIdx 2).flatMap
      (lineFindings file) =
        (f.tasks.zipIdx 2).map fun t => .defined (entity var file t.1.id) ⟨file,t.2⟩ := by
    rw [List.zipIdx_map,List.flatMap_map,List.map_eq_flatMap]
    apply List.flatMap_congr
    intro t member
    exact plain.lineFindings_taskLine file (List.fst_mem_of_mem_zipIdx member) t.2
  have chains (n : Nat) : ((f.chains.map fun c =>
      written (chainLine (var c.1) (c.2.map var))).zipIdx n).flatMap (lineFindings file) =
        f.links.flatMap fun e =>
          linkFindings file (String.ofList (var e.source),String.ofList (var e.target)) := by
    rw [List.zipIdx_map,List.flatMap_map,links,List.flatMap_assoc]
    conv_rhs => rw [← List.zipIdx_map_fst n f.chains,List.flatMap_map]
    apply List.flatMap_congr
    intro c member
    exact plain.lineFindings_chainLine file (List.fst_mem_of_mem_zipIdx member) c.2
  rw [Outline.findings,plain.lines_source,PlainFile.lines,List.map_cons,List.zipIdx_cons,
    List.flatMap_cons,plain.lineFindings_dagLine,List.nil_append,List.map_append,List.zipIdx_append,
    List.flatMap_append,spelled,List.map_map,List.map_map,List.map_map,List.map_map]
  exact congr (congrArg _ tasks) (chains _)

end Plain

theorem entities_findings (file : String) : Finding.entities (f.findings var file) =
    f.ids.map (entity var file) ++
      f.links.flatMap fun e => [entity var file e.source,entity var file e.target] := by
  have tasks : ((f.tasks.zipIdx 2).map fun t => Finding.defined (entity var file t.1.id)
      ⟨file,t.2⟩).filterMap Finding.entity? = f.ids.map (entity var file) := by
    rw [List.filterMap_map,ids,List.map_map]
    conv_rhs => rw [← List.zipIdx_map_fst 2 f.tasks,List.map_map]
    exact congrFun List.filterMap_eq_map _
  rw [findings,Finding.entities,List.filterMap_append,tasks,List.filterMap_flatMap]
  rfl

theorem links_findings (file : String) : Finding.links (f.findings var file) =
    f.links.map fun e => (entity var file e.source,entity var file e.target) := by
  have tasks : ((f.tasks.zipIdx 2).map fun t => Finding.defined (entity var file t.1.id)
      ⟨file,t.2⟩).filterMap Finding.link? = [] := by
    rw [List.filterMap_map,List.filterMap_eq_nil_iff]
    exact fun _ _ => rfl
  rw [findings,Finding.links,List.filterMap_append,tasks,List.filterMap_flatMap,List.nil_append,
    List.map_eq_flatMap]
  rfl

theorem definitions_findings (file : String) : Finding.definitions (f.findings var file) =
    (f.tasks.zipIdx 2).map fun t => (entity var file t.1.id,⟨file,t.2⟩) := by
  have chains : (f.links.flatMap fun e => linkFindings file
      (String.ofList (var e.source),String.ofList (var e.target))).filterMap Finding.definition? =
        [] := by
    rw [List.filterMap_flatMap,List.flatMap_eq_nil_iff]
    exact fun _ _ => rfl
  rw [findings,Finding.definitions,List.filterMap_append,chains,List.append_nil,List.filterMap_map]
  exact congrFun List.filterMap_eq_map _

theorem getElem?_lines {i : Nat} {t : Task} (here : f.tasks[i]? = some t) :
    (f.lines var)[i + 1]? = some (taskLine var (entry t)) := by
  have inside : i < ((f.tasks.map entry).map (taskLine var)).length := by
    rw [List.length_map,List.length_map]
    exact (List.getElem?_eq_some_iff.mp here).1
  rw [lines,List.getElem?_cons_succ,List.getElem?_append_left inside,List.getElem?_map,
    List.getElem?_map,here]
  rfl

section Outline

variable (plain : f.Plain var) {file : String}
  (apart : ∀ a ∈ f.ids, ∀ b ∈ f.ids,
    nodeId file (String.ofList (var a)) = nodeId file (String.ofList (var b)) → a = b)

include plain

/-- The chains name no things but the tasks. -/
theorem ends_subset (file : String) : (f.links.flatMap fun e =>
    [entity var file e.source,entity var file e.target]) ⊆ f.ids.map (entity var file) := by
  intro x inside
  obtain ⟨e,member,inside⟩ := List.mem_flatMap.mp inside
  obtain ⟨source,target⟩ := plain.known_links e member
  simp only [List.mem_cons,List.not_mem_nil,or_false] at inside
  rcases inside with rfl | rfl
  · exact List.mem_map_of_mem source
  · exact List.mem_map_of_mem target

theorem extract_source (file : String) : extract (f.source var) file .empty =
    PipelineGraph.empty.record (f.findings var file) := by
  rw [extract_eq,plain.findings_source]

include apart

theorem nodes_outline : (extract (f.source var) file .empty).nodes =
    f.tasks.map fun t => ⟨nodeId file (String.ofList (var t.id)),String.ofList (var t.id)⟩ := by
  have ends := ends_subset plain file
  have separate : Entity.Apart (f.ids.map (entity var file)) := by
    intro x first y second same
    obtain ⟨a,known,rfl⟩ := List.mem_map.mp first
    obtain ⟨b,known',rfl⟩ := List.mem_map.mp second
    rw [apart a known b known' same]
  have entities : Entity.Apart (Finding.entities (f.findings var file)) := by
    rw [entities_findings]
    exact separate.subset (List.append_subset.mpr ⟨List.Subset.refl _,ends⟩)
  have distinct : (f.ids.map (entity var file)).Nodup := by
    refine plain.distinct.map_on fun a known b known' same => ?_
    obtain ⟨-,named⟩ := Entity.mk.inj same
    exact apart a known b known' (by rw [named])
  rw [extract_source plain,PipelineGraph.nodes_record entities,entities_findings,
    FirstOccurrence.eraseDups_append_of_subset ends,FirstOccurrence.eraseDups_of_nodup distinct,
    ids,List.map_map,List.map_map]
  rfl

theorem edges_outline : (extract (f.source var) file .empty).edges = f.links.eraseDups.map fun e =>
    ⟨nodeId file (String.ofList (var e.source)),nodeId file (String.ofList (var e.target))⟩ := by
  rw [extract_source plain,PipelineGraph.edges_record,links_findings,List.map_map]
  apply FirstOccurrence.eraseDups_map
  intro e member e' member' same
  obtain ⟨source,target⟩ := plain.known_links e member
  obtain ⟨source',target'⟩ := plain.known_links e' member'
  obtain ⟨sources,targets⟩ := GraphEdge.mk.inj same
  rw [Edge.mk.injEq]
  exact ⟨apart _ source _ source' sources,apart _ target _ target' targets⟩

theorem location?_outline {i : Nat} {t : Task} (here : f.tasks[i]? = some t) :
    (extract (f.source var) file .empty).location? (nodeId file (String.ofList (var t.id))) =
      some ⟨file,i + 2⟩ := by
  rw [extract_source plain]
  apply PipelineGraph.location?_record (x := entity var file t.id)
  · rw [definitions_findings,List.mem_map]
    refine ⟨(t,i + 2),?_,rfl⟩
    rw [List.mk_mem_zipIdx_iff_le_and_getElem?_sub]
    exact ⟨Nat.le_add_left 2 i,here⟩
  · rw [definitions_findings]
    intro other member same
    obtain ⟨u,inside,rfl⟩ := List.mem_map.mp member
    obtain ⟨below,there⟩ := List.mem_zipIdx_iff_le_and_getElem?_sub.mp inside
    have named : t.id = u.1.id := apart t.id (List.mem_map_of_mem (List.mem_of_getElem? here)) u.1.id
      (List.mem_map_of_mem (List.mem_of_getElem? there)) same.symm
    have place : i = u.2 - 2 := by
      have inside : i < f.ids.length := by
        rw [ids,List.length_map]
        exact (List.getElem?_eq_some_iff.mp here).1
      apply (List.getElem?_inj inside plain.distinct).mp
      rw [ids,List.getElem?_map,List.getElem?_map,here,there,Option.map_some,Option.map_some,named]
    rw [place,Nat.sub_add_cancel below]

/-- A plain file is read as the DAG of its tasks, with the edges along its chains as they first come up.
If the variables have nodes of their own, the nodes of the outline are those of the tasks in the order of
their lines, each is found at the line that declares it, and the edges are those of the DAG. -/
theorem outline_eq_readDag : ∃ d, readDag (f.source var) = .ok d ∧ d.id = f.id ∧ d.tasks = f.tasks ∧
    d.edges = f.links.eraseDups ∧
    let g := extract (f.source var) file .empty
    g.nodes = d.tasks.map (fun t =>
      ⟨nodeId file (String.ofList (var t.id)),String.ofList (var t.id)⟩) ∧
    g.edges = d.edges.map (fun e =>
      ⟨nodeId file (String.ofList (var e.source)),nodeId file (String.ofList (var e.target))⟩) ∧
    ∀ (i : Nat) (t : Task), d.tasks[i]? = some t →
      (Text.lines (f.source var))[i + 1]? = some (written (taskLine var (entry t))) ∧
        g.location? (nodeId file (String.ofList (var t.id))) = some ⟨file,i + 2⟩ := by
  obtain ⟨d,read,id,tasks,edges⟩ := plain.readDag_source
  refine ⟨d,read,id,tasks,edges,?_,?_,fun i t here => ⟨?_,?_⟩⟩
  · rw [tasks]
    exact nodes_outline plain apart
  · rw [edges]
    exact edges_outline plain apart
  · rw [tasks] at here
    rw [plain.lines_source,List.getElem?_map,getElem?_lines here]
    rfl
  · rw [tasks] at here
    exact location?_outline plain apart here

end Outline

/-- Commands that look like declarations and comments, and a chain that comes again. -/
def orders : PlainFile where
  id := "orders"
  start := "2024-01-01"
  tasks := [⟨"pull-orders","x = BashOperator('pull') > log"⟩,⟨"clean","echo '# > \n >'"⟩,
    ⟨"load-orders","load --mode=fast"⟩]
  chains := [("pull-orders",["clean","load-orders"]),("pull-orders",["clean"])]

def underscored (id : String) : List Char := id.toList.map fun c => if c = '-' then '_' else c

theorem outline_eq_readDag_orders : orders.Plain underscored ∧
    (∀ a ∈ orders.ids, ∀ b ∈ orders.ids, nodeId "dags/orders.py" (String.ofList (underscored a)) =
      nodeId "dags/orders.py" (String.ofList (underscored b)) → a = b) ∧
    ∃ d, readDag (orders.source underscored) = .ok d ∧ d.tasks = orders.tasks ∧
      d.edges = [⟨"pull-orders","clean"⟩,⟨"clean","load-orders"⟩] ∧
      let g := extract (orders.source underscored) "dags/orders.py" .empty
      g.nodes.map (·.label) = ["pull_orders","clean","load_orders"] ∧
      g.edges = [⟨nodeId "dags/orders.py" "pull_orders",nodeId "dags/orders.py" "clean"⟩,
        ⟨nodeId "dags/orders.py" "clean",nodeId "dags/orders.py" "load_orders"⟩] ∧
      g.location? (nodeId "dags/orders.py" "load_orders") = some ⟨"dags/orders.py",4⟩ := by
  have respected : Edge.Respected orders.links orders.ids := by
    have links : orders.links = [⟨"pull-orders","clean"⟩,⟨"clean","load-orders"⟩,
      ⟨"pull-orders","clean"⟩] := rfl
    intro e member
    rw [links] at member
    simp only [List.mem_cons,List.not_mem_nil,or_false] at member
    rcases member with rfl | rfl | rfl
    · exact ⟨["pull-orders"],["load-orders"],rfl,by decide⟩
    · exact ⟨["pull-orders","clean"],[],rfl,by decide⟩
    · exact ⟨["pull-orders"],["load-orders"],rfl,by decide⟩
  have plain : orders.Plain underscored := {
    named := by decide
    started := by decide +kernel
    wellFormed := by decide
    distinct := by decide
    names := by decide
    apart := by decide
    unmarked := by decide
    known := by decide
    acyclic := Edge.not_cyclic_of_respected (by decide) respected }
  have apart : ∀ a ∈ orders.ids, ∀ b ∈ orders.ids,
      nodeId "dags/orders.py" (String.ofList (underscored a)) =
        nodeId "dags/orders.py" (String.ofList (underscored b)) → a = b := by decide +kernel
  obtain ⟨d,read,-,tasks,edges,nodes,links,places⟩ := outline_eq_readDag plain apart
  refine ⟨plain,apart,d,read,tasks,?_,?_,?_,?_⟩
  · rw [edges]
    decide
  · rw [nodes,tasks]
    decide
  · rw [links,edges]
    rfl
  · have here : d.tasks[2]? = some ⟨"load-orders","load --mode=fast"⟩ := by
      rw [tasks]
      rfl
    exact (places 2 _ here).2

end PlainFile

end PipelineAtlas.Airflow

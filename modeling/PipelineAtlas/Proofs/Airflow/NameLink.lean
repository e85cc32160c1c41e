import PipelineAtlas.Proofs.Airflow.EveryOperand
import PipelineAtlas.Proofs.Airflow.LayoutLine
import PipelineAtlas.Proofs.Airflow.OperatorLine
import PipelineAtlas.Proofs.Airflow.OutlineLine
import PipelineAtlas.Proofs.Graph.WellFormed

/-! Marks between names. Names are declared with all word characters there are, but linked only as far as
they are ASCII identifiers: with other names the file is rejected, and the outline links what it takes for
names inside them. -/
namespace PipelineAtlas.Airflow

open Fallible Script

/-- A name as operator lines declare it. -/
structure Declarable (name : List Char) : Prop where
  starts : startsName name = true
  word : ∀ c ∈ name, Text.isWord c = true

theorem declarable_of_mem {cells : List Cell} {c : OperatorCall} (member : c ∈ operatorCalls cells) :
    Declarable c.target.toList := by
  obtain ⟨_,rest,-,assigns⟩ := mem_operatorCalls.mp member
  generalize c.target.toList = target,c.operator.toList = path,c.call = call at assigns
  cases assigns with
  | call _ starts word => exact ⟨starts,word⟩

theorem declarable_of_registered {calls : List OperatorCall} {d d' : Dag} {vars vars' : Variables}
    (declared : ∀ c ∈ calls, Declarable c.target.toList)
    (known : ∀ name h, vars.lookup name = some h → Declarable name.toList)
    (run : calls.foldlM registerTask (d,vars) = .ok (d',vars')) :
    ∀ name h, vars'.lookup name = some h → Declarable name.toList := by
  induction calls generalizing d vars with
  | nil =>
    cases run
    exact known
  | cons c calls ih =>
    obtain ⟨here,later⟩ := List.forall_mem_cons.mp declared
    rw [List.foldlM_cons,bind_ok] at run
    obtain ⟨⟨d₁,vars₁⟩,first,rest⟩ := run
    obtain ⟨t,-,-,-,rfl,rfl⟩ := registerTask_ok.mp first
    refine ih later (fun name h held => ?_) rest
    rw [List.lookup_cons] at held
    cases same : name == c.target with
    | true => exact eq_of_beq same ▸ here
    | false =>
      rw [same] at held
      exact known name h held

theorem plain_of_isWord {c : Char} (word : Text.isWord c = true) : Plain c := by
  have foreign : ∀ d ∈ brackets ++ ['\'','"','<','>',','], Text.isWord d = false := by decide
  refine plain_of_apart fun d member same => ?_
  simp [same,foreign d member] at word

namespace Declarable

variable {name : List Char} (declarable : Declarable name)

include declarable

theorem plain : ∀ c ∈ name, Plain c := fun c inside => plain_of_isWord (declarable.word c inside)

theorem tight : Tight name :=
  tight_of_solid (solid_of_target declarable.starts fun c inside => .inl (declarable.word c inside))

/-- Of the declared names exactly the ASCII ones are operands. -/
theorem operandNames? {a b : List Char} (before : Blanks a) (behind : Blanks b) :
    Airflow.operandNames? (codeCells (a ++ (name ++ b))) =
      if Text.isIdentifier name then some [name] else none := by
  have noList : listBody? (codeCells name) = none := by
    obtain ⟨c,more,rfl⟩ := List.exists_cons_of_ne_nil declarable.tight.some
    have other : c ≠ '[' := fun same =>
      (declarable.plain c List.mem_cons_self).bracket (by simp [same,brackets])
    simp [listBody?,codeCells,other]
  rw [Airflow.operandNames?,trimCells_tight before declarable.tight behind,text_codeCells,noList]

end Declarable

section

variable {v w a b : List Char} (left : Declarable v) (right : Declarable w) (gap : Blanks a)
  (gap' : Blanks b)

include left right gap gap'

theorem shiftChain_declared : shiftChain (codeCells (v ++ (a ++ '>' :: '>' :: (b ++ w)))) =
    ⟨codeCells ([] ++ (v ++ a)),[(.forward,codeCells (b ++ (w ++ [])))]⟩ := by
  have nothing : Blanks [] := by simp [Blanks]
  have unmarked {name : List Char} (declarable : Declarable name) : ∀ c ∈ name, isMark c = false :=
    fun c inside => (declarable.plain c inside).mark
  have front := unmarked_of_padded nothing (unmarked left) gap
  have back := unmarked_of_padded gap' (unmarked right) nothing
  have level : depthBehind 0 (codeCells ([] ++ (v ++ a))) = 0 := by
    rw [depthBehind_codeCells]
    exact (nothing.balanced.append ((balanced_of_plain left.plain).append gap.balanced)).depthOver 0
  have whole : codeCells (v ++ (a ++ '>' :: '>' :: (b ++ w))) = codeCells ([] ++ (v ++ a)) ++
      ⟨'>',.code⟩ :: ⟨'>',.code⟩ :: codeCells (b ++ (w ++ [])) := by
    simp [codeCells]
  have last : shiftChainFrom 0 (codeCells (b ++ (w ++ []))) = ⟨codeCells (b ++ (w ++ [])),[]⟩ := by
    have alone := shiftChainFrom_unmarked back 0 []
    rw [List.append_nil] at alone
    rw [alone,shiftChainFrom,List.append_nil]
  have mark : shiftAt? ⟨'>',.code⟩ ⟨'>',.code⟩ = some .forward := rfl
  have behind : shiftChainFrom 0 (⟨'>',.code⟩ :: ⟨'>',.code⟩ :: codeCells (b ++ (w ++ []))) =
      ⟨[],[(.forward,codeCells (b ++ (w ++ [])))]⟩ := by
    simp only [shiftChainFrom,if_true,mark,last]
    rfl
  rw [shiftChain,whole,shiftChainFrom_unmarked front,level,behind,List.append_nil]

theorem readDependency_declared : readDependency (v ++ (a ++ '>' :: '>' :: (b ++ w))) =
    if Text.isIdentifier v && Text.isIdentifier w then .dependency (.groups [v] [(.forward,[w])])
    else .unreadable := by
  have nothing : Blanks [] := by simp [Blanks]
  obtain ⟨c,t,split,ends,noDot,noParen,next⟩ :=
    exists_behind gap (d := '>') (by simp) ('>' :: (b ++ w))
  have unassigned : Unassigned (v ++ (a ++ '>' :: '>' :: (b ++ w))) :=
    ⟨v,c,t,by rw [split],fun d inside => .inl (left.word d inside),ends,noDot,by rw [next]; simp⟩
  have noQuote : ∀ d ∈ v ++ (a ++ '>' :: '>' :: (b ++ w)), isQuote d = false := by
    simp only [List.forall_mem_append,List.forall_mem_cons]
    exact ⟨fun d inside => (left.plain d inside).quote,gap.noQuote,by decide,by decide,
      gap'.noQuote,fun d inside => (right.plain d inside).quote⟩
  have tight : Tight (v ++ (a ++ '>' :: '>' :: (b ++ w))) := by
    simpa using left.tight.around (a ++ '>' :: '>' :: b) right.tight
  have trimmed := trimCells_tight nothing tight nothing
  have scanned := scan_of_unquoted noQuote
  rw [List.append_nil,List.nil_append] at trimmed
  have cells : unwrap (scan (expression (v ++ (a ++ '>' :: '>' :: (b ++ w))))) =
      codeCells (v ++ (a ++ '>' :: '>' :: (b ++ w))) := by
    rw [unassigned.expression,scanned,unwrap,trimmed]
    rw [split]
    exact unwrapFrom_bare (head?_of_path (fun d inside => .inl (left.word d inside)) noParen (by decide)
      (by decide) t) _
  have noCall := setCall?_word left.word ends noDot t
  have noChain := chainCall?_word left.word ends noDot (.inr noParen) t
  rw [← split] at noCall noChain
  simp only [readDependency,cells,noCall,noChain,shiftChain_declared left right gap gap',readGroups_eq,
    List.mapM_cons,List.mapM_nil,groupOf?,left.operandNames? nothing gap,
    right.operandNames? gap' nothing]
  cases Text.isIdentifier v <;> cases Text.isIdentifier w <;> rfl

end

/-- A statement of a file that puts a mark between two variables, what stands in front of it applied. -/
structure TaskLink (source v w : List Char) (st : Statement) (vars : Variables) (d : Dag)
    (h k : TaskHandle) : Prop where
  left : vars.lookup (String.ofList v) = some h
  right : vars.lookup (String.ofList w) = some k
  text : ∃ a b, Blanks a ∧ Blanks b ∧ st.text = v ++ (a ++ '>' :: '>' :: (b ++ w))
  front : ∃ d₀ front after, readTasks source = .ok (d₀,vars) ∧
    statements (codeText (Script.source source)) = front ++ st :: after ∧
      front.foldlM (applyStatement vars) d₀ = .ok d

namespace TaskLink

variable {source v w : List Char} {st : Statement} {vars : Variables} {d : Dag} {h k : TaskHandle}
  (taskLink : TaskLink source v w st vars d h k)

include taskLink

theorem declarable : Declarable v ∧ Declarable w := by
  obtain ⟨d₀,_,_,tasks,-⟩ := taskLink.front
  obtain ⟨d',-,registrations⟩ := bind_ok.mp tasks
  have known := declarable_of_registered (fun _ => declarable_of_mem)
    (fun _ _ held => by simp at held) registrations
  have left := known _ h taskLink.left
  have right := known _ k taskLink.right
  rw [String.toList_ofList] at left right
  exact ⟨left,right⟩

theorem readDependency : Airflow.readDependency st.text =
    if Text.isIdentifier v && Text.isIdentifier w then .dependency (.groups [v] [(.forward,[w])])
    else .unreadable := by
  obtain ⟨left,right⟩ := taskLink.declarable
  obtain ⟨a,b,gap,gap',text⟩ := taskLink.text
  rw [text,readDependency_declared left right gap gap']

theorem applied (ascii : (Text.isIdentifier v && Text.isIdentifier w) = true) :
    applyStatement vars d st = .ok { d with edges := Edge.insert d.edges ⟨h.task,k.task⟩ } := by
  obtain ⟨d₀,front,after,tasks,-,reached⟩ := taskLink.front
  obtain ⟨d',-,registrations⟩ := bind_ok.mp tasks
  have registered := (registerTasks_ok (registered_nil d') registrations).1
  obtain ⟨-,rfl⟩ := (applyStatements_ok registered).mp reached
  rw [applyStatement_ok registered.linked,taskLink.readDependency,if_pos ascii]
  refine ⟨rfl,?_,?_⟩
  · have known {name : List Char} {handle : TaskHandle}
        (held : vars.lookup (String.ofList name) = some handle) :
        (vars.lookup (String.ofList name)).isSome = true := by
      rw [held,Option.isSome_some]
    have none : Assigned vars [] := by simp [Assigned]
    exact assigned_cons.mpr ⟨known taskLink.left,assigned_cons.mpr ⟨known taskLink.right,none⟩⟩
  · simp [Reading.links,Reading.dependency?,Dependency.links,chainLinks,groupLinks,Link.along,linked,
      Link.edge?,taskLink.left,taskLink.right,Edge.insertAll]

theorem mem_edges (ascii : (Text.isIdentifier v && Text.isIdentifier w) = true) {d' : Dag}
    (accepted : readDag source = .ok d') : ⟨h.task,k.task⟩ ∈ d'.edges := by
  obtain ⟨d₀,front,after,tasks,given,-⟩ := taskLink.front
  obtain ⟨d₁,declared,registrations⟩ := bind_ok.mp tasks
  refine ((edges_of_accepted accepted).2 _).mpr ⟨st,by simp [given],⟨v,w⟩,?_,?_⟩
  · rw [taskLink.readDependency,if_pos ascii]
    simp [Reading.links,Reading.dependency?,Dependency.links,chainLinks,groupLinks,Link.along]
  · rw [taskVariables_eq declared registrations]
    simp [Link.edge?,taskLink.left,taskLink.right]

theorem rejected (other : (Text.isIdentifier v && Text.isIdentifier w) = false) :
    readDag source = .error (.unreadableDependency (String.ofList st.text) st.line) := by
  obtain ⟨d₀,front,after,tasks,given,reached⟩ := taskLink.front
  have failed : applyStatement vars d st =
      .error (.unreadableDependency (String.ofList st.text) st.line) := by
    simp only [applyStatement,taskLink.readDependency,other,Bool.false_eq_true,if_false]
  have run : (front ++ st :: after).foldlM (applyStatement vars) d₀ =
      .error (.unreadableDependency (String.ofList st.text) st.line) := by
    rw [List.foldlM_append,reached,bind_of_ok,List.foldlM_cons,failed]
    rfl
  rw [readDag_eq,tasks,bind_of_ok,given]
  simp only [run]
  rfl

end TaskLink

namespace Outline

open Text

theorem word_of_assignedFrom {inWord : Bool} {line name : List Char}
    (found : assignedFrom inWord line = some name) : name ≠ [] ∧ ∀ c ∈ name, isWord c = true := by
  induction line generalizing inWord with
  | nil => cases found
  | cons c cs ih =>
    rw [assignedFrom] at found
    split at found
    next here =>
      simp only [Bool.and_eq_true] at here
      obtain rfl := Option.some.inj found
      refine ⟨?_,fun d inside => List.mem_takeWhile_imp inside⟩
      rw [List.takeWhile_cons_of_pos here.1.1]
      exact List.cons_ne_nil _ _
    next => exact ih found

theorem firstName?_padded {front s back : List Char} (before : Blanks front) (behind : Blanks back) :
    firstName? (front ++ (s ++ back)) = firstName? s := by
  have noWord {t : List Char} (blanks : Blanks t) : ∀ c ∈ t, isAsciiWord c = false :=
    noWord_of_isBlank blanks
  have noStart {t : List Char} (blanks : Blanks t) : t.dropWhile (fun c => !isAsciiStart c) = [] := by
    rw [List.dropWhile_eq_nil_iff]
    intro c inside
    cases start : isAsciiStart c with
    | true =>
      have word := isAsciiWord_of_isAsciiStart start
      rw [noWord blanks c inside] at word
      cases word
    | false => rfl
  have stop : back.takeWhile isAsciiWord = [] := by
    cases back with
    | nil => rfl
    | cons c back =>
      apply List.takeWhile_cons_of_neg
      simp [noWord behind c List.mem_cons_self]
  have taken : ((front ++ (s ++ back)).dropWhile fun c => !isAsciiStart c).takeWhile isAsciiWord =
      (s.dropWhile fun c => !isAsciiStart c).takeWhile isAsciiWord := by
    rw [List.dropWhile_append,noStart before,List.dropWhile_append,noStart behind]
    simp only [List.isEmpty_nil,if_true]
    split
    next none => rw [List.isEmpty_iff.mp none]
    next =>
      rw [List.takeWhile_append,stop,List.append_nil]
      split
      next all => rw [(List.takeWhile_prefix isAsciiWord).eq_of_length all]
      next => rfl
  simp only [firstName?,taken]

theorem firstName?_eq_some {s : List Char} : firstName? s = some s ↔ isIdentifier s = true := by
  constructor
  · intro found
    simp only [firstName?] at found
    split at found
    next => cases found
    next some =>
      have name := Option.some.inj found
      have dropped : s.dropWhile (fun c => !isAsciiStart c) = s := by
        refine (List.dropWhile_suffix _).eq_of_length_le ?_
        exact (congrArg List.length name).ge.trans (List.takeWhile_prefix _).length_le
      rw [dropped] at name
      have word := List.takeWhile_eq_self_iff.mp name
      cases s with
      | nil => exact absurd rfl some
      | cons c s =>
        have start : isAsciiStart c = true := by
          simpa using List.dropWhile_eq_self_iff.mp dropped (Nat.succ_pos _)
        rw [isIdentifier,start,Bool.true_and,List.all_eq_true]
        exact fun d inside => word d (List.mem_cons_of_mem c inside)
  · intro identifier
    have nothing : ∀ c ∈ ([] : List Char), c = ' ' := by simp
    have alone := firstName?_name identifier nothing nothing
    simpa using alone

section Line

variable {v w a b c : List Char} (left : ∀ x ∈ v, isWord x = true) (right : ∀ x ∈ w, isWord x = true)
  (before : Blanks c) (gap : Blanks a) (gap' : Blanks b)

include left right before gap gap'

theorem linked_line : linked (c ++ (v ++ (a ++ '>' :: '>' :: (b ++ w)))) =
    match firstName? v,firstName? w with
    | some v,some w => [(String.ofList v,String.ofList w)]
    | _,_ => [] := by
  have noMark {name x y : List Char} (word : ∀ x ∈ name, isWord x = true) (blanks : Blanks x)
      (behind : Blanks y) : '>' ∉ x ++ (name ++ y) := by
    simp only [List.mem_append,not_or]
    exact ⟨fun inside => absurd (blanks '>' inside) (by decide),
      fun inside => absurd (word '>' inside) (by decide),
      fun inside => absurd (behind '>' inside) (by decide)⟩
  have nothing : Blanks [] := by simp [Blanks]
  have whole : c ++ (v ++ (a ++ '>' :: '>' :: (b ++ w))) =
      (c ++ (v ++ a)) ++ '>' :: '>' :: ((b ++ (w ++ [])) ++ []) := by
    simp
  have split : parts (c ++ (v ++ (a ++ '>' :: '>' :: (b ++ w)))) = [c ++ (v ++ a),b ++ (w ++ [])] := by
    rw [whole,parts,partsFrom_append (noMark left before gap),partsFrom,
      partsFrom_append (noMark right gap' nothing),partsFrom]
    simp
  rw [linked,split]
  simp only [neighbours,List.filterMap_cons,List.filterMap_nil,firstName?_padded before gap,
    firstName?_padded gap' nothing]
  cases firstName? v <;> cases firstName? w <;> rfl

theorem assigned?_line : assigned? (c ++ (v ++ (a ++ '>' :: '>' :: (b ++ w)))) = none := by
  have noSign : '=' ∉ c ++ (v ++ (a ++ '>' :: '>' :: (b ++ w))) := by
    have blank {x : List Char} (blanks : Blanks x) : '=' ∉ x := fun inside =>
      absurd (blanks '=' inside) (by decide)
    have word {x : List Char} (word : ∀ c ∈ x, isWord c = true) : '=' ∉ x := fun inside =>
      absurd (word '=' inside) (by decide)
    simp [blank before,blank gap,blank gap',word left,word right]
  have quoting := Quoting.append noSign (t := []) .nil
  rw [List.append_nil] at quoting
  exact assigned?_of_quoting quoting

theorem addLine_line (file : String) (g : PipelineGraph) (n : Nat) :
    addLine file g (c ++ (v ++ (a ++ '>' :: '>' :: (b ++ w))),n) =
      match firstName? v,firstName? w with
      | some v,some w => addLink file g (String.ofList v,String.ofList w)
      | _,_ => g := by
  simp only [addLine,assigned?_line left right before gap gap',linked_line left right before gap gap']
  cases firstName? v <;> cases firstName? w <;> rfl

end Line

theorem contains_addLink (file : String) (g : PipelineGraph) (link : String × String) (id : String) :
    (addLink file g link).contains id = true ↔
      g.contains id = true ∨ id = nodeId file link.1 ∨ id = nodeId file link.2 := by
  have edge (g : PipelineGraph) (source target : String) :
      (g.addEdge source target).contains id = g.contains id := by
    unfold PipelineGraph.addEdge
    split <;> rfl
  rw [addLink,edge,PipelineGraph.contains_addNode,PipelineGraph.contains_addNode]
  simp only [Bool.or_eq_true,beq_iff_eq]
  tauto

theorem mem_edges_addLink {file : String} {g : PipelineGraph} {link : String × String} {e : GraphEdge} :
    e ∈ (addLink file g link).edges ↔
      e ∈ g.edges ∨ e = ⟨nodeId file link.1,nodeId file link.2⟩ :=
  PipelineGraph.mem_addEdge

/-- A line that puts a mark between two names, to which an outline has seen operators assigned. -/
structure LineLink (line v w : List Char) : Prop where
  left : ∃ l, assigned? l = some v
  right : ∃ l, assigned? l = some w
  text : ∃ c a b, Blanks c ∧ Blanks a ∧ Blanks b ∧ line = c ++ (v ++ (a ++ '>' :: '>' :: (b ++ w)))

theorem LineLink.addLine {line v w : List Char} (lineLink : LineLink line v w) (file : String)
    (g : PipelineGraph) (n : Nat) : Outline.addLine file g (line,n) =
      match firstName? v,firstName? w with
      | some v,some w => addLink file g (String.ofList v,String.ofList w)
      | _,_ => g := by
  obtain ⟨_,left⟩ := lineLink.left
  obtain ⟨_,right⟩ := lineLink.right
  obtain ⟨c,a,b,before,gap,gap',rfl⟩ := lineLink.text
  exact addLine_line (word_of_assignedFrom left).2 (word_of_assignedFrom right).2 before gap gap' file g n

end Outline

open Outline in
/-- A mark between two declared names links them exactly if both are ASCII identifiers. It then adds the
edge between their tasks, and in an outline no node but theirs. With another name the file is rejected, and
the outline links the first ASCII names that stand in the two, if there are any. -/
theorem links_of_identifiers (v w : List Char) :
    (∀ source st vars d h k, TaskLink source v w st vars d h k →
      ((Text.isIdentifier v && Text.isIdentifier w) = true →
        applyStatement vars d st = .ok { d with edges := Edge.insert d.edges ⟨h.task,k.task⟩ } ∧
          ∀ d', readDag source = .ok d' → ⟨h.task,k.task⟩ ∈ d'.edges) ∧
      ((Text.isIdentifier v && Text.isIdentifier w) = false →
        readDag source = .error (.unreadableDependency (String.ofList st.text) st.line))) ∧
    ∀ line file g n, LineLink line v w →
      ((Text.isIdentifier v && Text.isIdentifier w) = true →
        (∀ e, e ∈ (addLine file g (line,n)).edges ↔
          e ∈ g.edges ∨ e = ⟨nodeId file (String.ofList v),nodeId file (String.ofList w)⟩) ∧
        ∀ id, (addLine file g (line,n)).contains id = true ↔ g.contains id = true ∨
          id = nodeId file (String.ofList v) ∨ id = nodeId file (String.ofList w)) ∧
      ((Text.isIdentifier v && Text.isIdentifier w) = false →
        ¬ (firstName? v = some v ∧ firstName? w = some w) ∧
          addLine file g (line,n) =
            match firstName? v,firstName? w with
            | some v,some w => addLink file g (String.ofList v,String.ofList w)
            | _,_ => g) := by
  refine ⟨fun source st vars d h k taskLink => ?_,fun line file g n lineLink => ?_⟩
  · exact ⟨fun ascii => ⟨taskLink.applied ascii,fun d' => taskLink.mem_edges ascii⟩,taskLink.rejected⟩
  · refine ⟨fun ascii => ?_,fun other => ⟨?_,lineLink.addLine file g n⟩⟩
    · obtain ⟨left,right⟩ := Bool.and_eq_true_iff.mp ascii
      have added : addLine file g (line,n) = addLink file g (String.ofList v,String.ofList w) := by
        rw [lineLink.addLine,firstName?_eq_some.mpr left,firstName?_eq_some.mpr right]
      rw [added]
      exact ⟨fun _ => mem_edges_addLink,contains_addLink file g _⟩
    · rintro ⟨left,right⟩
      rw [firstName?_eq_some.mp left,firstName?_eq_some.mp right] at other
      cases other

def linking (name : String) : List Char :=
  ("with DAG('d', start_date='2024-01-01') as dag:\n    " ++ name ++
    " = BashOperator(task_id='a', bash_command='true')\n" ++
    "    b = BashOperator(task_id='b', bash_command='true')\n    " ++ name ++ " >> b\n").toList

theorem links_of_identifiers_declared : ∃ st vars d h k,
    TaskLink (linking "a_1") "a_1".toList "b".toList st vars d h k ∧
      (∃ d', readDag (linking "a_1") = .ok d' ∧ ⟨h.task,k.task⟩ ∈ d'.edges) ∧
      Outline.LineLink "    a_1 >> b".toList "a_1".toList "b".toList ∧
      ⟨nodeId "f" "a_1",nodeId "f" "b"⟩ ∈
        (Outline.addLine "f" .empty ("    a_1 >> b".toList,4)).edges := by
  have runs : statements (codeText (Script.source (linking "a_1"))) =
        (statements (codeText (Script.source (linking "a_1")))).take 3 ++ [⟨4,"a_1 >> b".toList⟩] ∧
      (readTasks (linking "a_1") >>= fun given =>
        (((statements (codeText (Script.source (linking "a_1")))).take 3).foldlM
          (applyStatement given.2) given.1).map fun _ => (given.2.lookup "a_1",given.2.lookup "b")) =
          .ok (some ⟨"d","a"⟩,some ⟨"d","b"⟩) ∧
      (readDag (linking "a_1")).map (fun _ => ()) = .ok () := by
    -- a literal would be decoded again wherever it is read
    simp only [linking,String.toList_append]
    repeat rw [String.toList_ofList]
    decide +kernel
  obtain ⟨given,run,accepted⟩ := runs
  obtain ⟨⟨d₀,vars⟩,tasks,run⟩ := bind_ok.mp run
  obtain ⟨d,reached,held⟩ := map_ok.mp run
  obtain ⟨left,right⟩ := Prod.mk.inj held
  obtain ⟨d',read,-⟩ := map_ok.mp accepted
  have blank : Blanks [' '] := by decide
  have taskLink : TaskLink (linking "a_1") "a_1".toList "b".toList ⟨4,"a_1 >> b".toList⟩ vars d
      ⟨"d","a"⟩ ⟨"d","b"⟩ :=
    ⟨left,right,⟨[' '],[' '],blank,blank,rfl⟩,d₀,_,[],tasks,given,reached⟩
  have lineLink : Outline.LineLink "    a_1 >> b".toList "a_1".toList "b".toList :=
    ⟨⟨"a_1 = BashOperator(".toList,by decide +kernel⟩,⟨"b = BashOperator(".toList,by decide +kernel⟩,
      "    ".toList,[' '],[' '],by decide,blank,blank,rfl⟩
  obtain ⟨reads,finds⟩ := links_of_identifiers "a_1".toList "b".toList
  exact ⟨_,vars,d,_,_,taskLink,
    ⟨d',read,((reads _ _ vars d _ _ taskLink).1 (by decide)).2 d' read⟩,lineLink,
    (((finds _ "f" .empty 4 lineLink).1 (by decide)).1 _).mpr (.inr rfl)⟩

/-- Letters that are not ASCII, and digits in front, make a difference. -/
theorem readDag_undeclarable :
    (readTasks (linking "größe")).map (fun given => given.2.map Prod.fst) = .ok ["b","größe"] ∧
      readDag (linking "größe") = .error (.unreadableDependency "größe >> b" 4) ∧
      Outline.assigned? "1st = BashOperator(".toList = some "1st".toList ∧
      (Outline.addLine "f" .empty ("1st >> b".toList,2)).edges = [⟨nodeId "f" "st",nodeId "f" "b"⟩] ∧
      nodeId "f" "st" ≠ nodeId "f" "1st" := by
  have runs : (readTasks (linking "größe")).map (fun given => given.2.map Prod.fst) =
        .ok ["b","größe"] ∧
      (readDag (linking "größe")).map (·.edges) = .error (.unreadableDependency "größe >> b" 4) := by
    simp only [linking,String.toList_append]
    repeat rw [String.toList_ofList]
    decide +kernel
  obtain ⟨declared,failed⟩ := runs
  exact ⟨declared,map_error.mp failed,by decide +kernel,by decide +kernel,by decide +kernel⟩

end PipelineAtlas.Airflow

import Mathlib.Data.List.Forall2
import PipelineAtlas.Proofs.Airflow.Line

/-! The operator calls and the statements of a written file, line by line. -/
namespace PipelineAtlas.Airflow

open Script

/-- A line whose view, behind its indent, is a statement of its own. -/
structure Shows (l : Line) (body : List Char) : Prop where
  indent : ∃ blanks, (∀ c ∈ blanks, c = ' ') ∧ lineView l = blanks ++ body
  alone : Standalone body

theorem statementsFrom_lines {lines : List Line} {bodies : List (List Char)}
    (shown : List.Forall₂ Shows lines bodies) (n : Nat) :
    statementsFrom (.atLine n) (codeText (lineCells lines)) =
      (bodies.zipIdx n).map fun b => ⟨b.2,b.1⟩ := by
  induction shown generalizing n with
  | nil => rfl
  | @cons l body lines bodies here _ ih =>
    obtain ⟨⟨blanks,blank,view⟩,alone⟩ := here
    have split : codeText (lineCells (l :: lines)) =
        lineView l ++ '\n' :: codeText (lineCells lines) := by
      simp [lineCells_cons,codeText,lineView,Cell.code]
    rw [split,view,statementsFrom_line blank alone,ih]
    rfl

def operatorCallsFrom (n : Nat) (cells : List Cell) : List OperatorCall :=
  ((n,cells) :: lineStartsFrom n cells).filterMap fun (line,rest) => operatorCall? line rest

theorem operatorCalls_eq (cells : List Cell) : operatorCalls cells = operatorCallsFrom 1 cells := rfl

theorem lineStartsFrom_line {a : List Cell} (oneLine : ∀ x ∈ a, x.char ≠ '\n') (n : Nat)
    (rest : List Cell) : lineStartsFrom n (a ++ ⟨'\n',.code⟩ :: rest) =
      (n + 1,rest) :: lineStartsFrom (n + 1) rest := by
  induction a with
  | nil => rfl
  | cons x a ih =>
    have more := ih fun y inside => oneLine y (List.mem_cons_of_mem x inside)
    simp [lineStartsFrom,oneLine x (by simp),more]

theorem operatorCallsFrom_cons {l : Line} (oneLine : '\n' ∉ written l) (n : Nat)
    (lines : List Line) : operatorCallsFrom n (lineCells (l :: lines)) =
      (operatorCall? n (lineCells (l :: lines))).toList ++
        operatorCallsFrom (n + 1) (lineCells lines) := by
  have noFeed : ∀ x ∈ pieceCells l, x.char ≠ '\n' := by
    rintro x inside same
    refine oneLine ?_
    rw [← text_pieceCells,← same]
    exact List.mem_map_of_mem inside
  have starts := lineStartsFrom_line noFeed n (lineCells lines)
  rw [← lineCells_cons] at starts
  simp only [operatorCallsFrom,starts,List.filterMap_cons]
  cases operatorCall? n (lineCells (l :: lines)) <;> simp

theorem skipSpaces_blank (front : List Char) (before : ∀ c ∈ front, c = ' ') {x : Cell}
    (visible : isSpace x = false) (rest : List Cell) :
    skipSpaces (codeCells front ++ x :: rest) = x :: rest := by
  have blank : ∀ y ∈ codeCells front, isSpace y = true := by
    intro y inside
    obtain ⟨c,member,rfl⟩ := List.mem_map.mp inside
    rw [before c member]
    decide
  rw [skipSpaces,List.dropWhile_append_of_pos blank]
  simp [visible]

theorem firstWord (front : List Char) {word : List Char} (before : ∀ c ∈ front, c = ' ') (nonempty : word ≠ [])
    (isWord : ∀ c ∈ word, Text.isAsciiWord c = true) {x : Cell}
    (ends : Text.isWord x.shown = false) (rest : List Cell) :
    shownText ((skipSpaces (codeCells (front ++ word) ++ x :: rest)).takeWhile
        fun x => Text.isWord x.shown) = word ∧
      (skipSpaces (codeCells (front ++ word) ++ x :: rest)).dropWhile
        (fun x => Text.isWord x.shown) = x :: rest := by
  have inWord : ∀ y ∈ codeCells word, Text.isWord y.shown = true := by
    intro y inside
    obtain ⟨c,member,rfl⟩ := List.mem_map.mp inside
    simpa [Cell.shown] using Text.isWord_of_isAsciiWord (isWord c member)
  have skipped : skipSpaces (codeCells (front ++ word) ++ x :: rest) =
      codeCells word ++ x :: rest := by
    cases word with
    | nil => exact absurd rfl nonempty
    | cons c word =>
      have visible : isSpace ⟨c,.code⟩ = false := by
        have space := Text.ne_of_isAsciiWord (d := ' ') (isWord c (by simp)) (by decide)
        have tab := Text.ne_of_isAsciiWord (d := '\t') (isWord c (by simp)) (by decide)
        simp [isSpace,Cell.shown,space,tab]
      rw [codeCells_append,List.append_assoc]
      exact skipSpaces_blank front before visible _
  have shown : shownText (codeCells word) = word := by
    simp [shownText,codeCells,Cell.shown,Function.comp_def]
  rw [skipped,List.takeWhile_append_of_pos inWord,List.dropWhile_append_of_pos inWord]
  rw [List.takeWhile_cons_of_neg (by simp [ends]),List.dropWhile_cons_of_neg (by simp [ends])]
  exact ⟨by rw [List.append_nil,shown],rfl⟩

theorem operatorCall?_task {name : List Char} (identifier : Text.isIdentifier name = true) (n : Nat)
    (rest : List Cell) :
    operatorCall? n (codeCells ("    ".toList ++ name) ++ (codeCells " = BashOperator".toList ++
      ⟨'(',.code⟩ :: rest)) = some ⟨String.ofList name,"BashOperator",n,⟨'(',.code⟩ :: rest⟩ := by
  obtain ⟨nonempty,word⟩ := Text.word_of_isIdentifier identifier
  have starts : startsName name = true := by
    cases name with
    | nil => exact absurd rfl nonempty
    | cons c name =>
      simp only [Text.isIdentifier,Bool.and_eq_true] at identifier
      simpa [startsName] using identifier.1
  obtain ⟨target,behind⟩ := firstWord "    ".toList (by decide) nonempty word
    (x := ⟨' ',.code⟩) (by decide) (codeCells "= BashOperator".toList ++ ⟨'(',.code⟩ :: rest)
  have afterName : skipSpaces (⟨' ',.code⟩ :: (codeCells "= BashOperator".toList ++
      ⟨'(',.code⟩ :: rest)) = ⟨'=',.code⟩ :: (codeCells " BashOperator".toList ++
      ⟨'(',.code⟩ :: rest) := rfl
  have afterEquals : skipSpaces (codeCells " BashOperator".toList ++ ⟨'(',.code⟩ :: rest) =
      codeCells "BashOperator".toList ++ ⟨'(',.code⟩ :: rest := rfl
  have path : (codeCells "BashOperator".toList ++ ⟨'(',.code⟩ :: rest).takeWhile
      (fun x => Text.isWord x.shown || x.shown == '.') = codeCells "BashOperator".toList := rfl
  have call : (codeCells "BashOperator".toList ++ ⟨'(',.code⟩ :: rest).dropWhile
      (fun x => Text.isWord x.shown || x.shown == '.') = ⟨'(',.code⟩ :: rest := rfl
  have opened : openingAt? (⟨'(',.code⟩ :: rest) = some (⟨'(',.code⟩ :: rest) := rfl
  have operator : isOperatorPath (shownText (codeCells "BashOperator".toList)) = true := by decide
  have split : codeCells " = BashOperator".toList ++ ⟨'(',.code⟩ :: rest =
      ⟨' ',.code⟩ :: (codeCells "= BashOperator".toList ++ ⟨'(',.code⟩ :: rest) := rfl
  rw [split]
  simp only [operatorCall?,target,behind,afterName,afterEquals,path,call,opened,operator,starts]
  rfl

theorem operatorCall?_other (front : List Char) {word : List Char} (before : ∀ c ∈ front, c = ' ')
    (nonempty : word ≠ []) (isWord : ∀ c ∈ word, Text.isAsciiWord c = true) {c : Char}
    (noEquals : c ≠ '=') (visible : c ≠ ' ' ∧ c ≠ '\t') (n : Nat) (rest : List Cell) :
    operatorCall? n (codeCells (front ++ word) ++ ⟨' ',.code⟩ :: ⟨c,.code⟩ :: rest) = none := by
  obtain ⟨target,behind⟩ := firstWord front before nonempty isWord (x := ⟨' ',.code⟩) (by decide)
    (⟨c,.code⟩ :: rest)
  have next : skipSpaces (⟨' ',.code⟩ :: ⟨c,.code⟩ :: rest) = ⟨c,.code⟩ :: rest :=
    skipSpaces_blank [' '] (by simp) (by simp [isSpace,Cell.shown,visible]) rest
  simp only [operatorCall?,behind,next]
  split
  · simp [Cell.shown,noEquals]
  · rfl

private theorem isIdentifier_key : ∀ key ∈ ["dag_id","start_date","schedule","catchup",
    "description","task_id","bash_command"], Text.isIdentifier key.toList = true := by decide

theorem named_declarationArguments (c : Definition) :
    ∀ a ∈ declarationArguments c, Text.isIdentifier a.1.toList = true := by
  intro a inside
  refine isIdentifier_key a.1 ?_
  rcases List.mem_append.mp inside with first | last
  · simp only [List.mem_cons,List.not_mem_nil,or_false] at first
    rcases first with rfl | rfl | rfl | rfl <;> simp
  · cases given : c.description with
    | none => simp [given] at last
    | some text =>
      obtain rfl : a = ("description",.string text) := by simpa [given] using last
      simp

theorem named_taskArguments (t : TaskDefinition) :
    ∀ a ∈ taskArguments t, Text.isIdentifier a.1.toList = true := by
  intro a inside
  refine isIdentifier_key a.1 ?_
  simp only [taskArguments,List.mem_cons,List.not_mem_nil,or_false] at inside
  rcases inside with rfl | rfl <;> simp

theorem lineFeed_notMem_constant (c : Constant) : '\n' ∉ c.piece.chars := by
  match c with
  | .string s => exact lineFeed_notMem_singleQuoted s.toList
  | .bool true | .bool false | .none => decide

theorem lineFeed_notMem_arguments {args : List Keyed}
    (named : ∀ a ∈ args, Text.isIdentifier a.1.toList = true) :
    '\n' ∉ written (argumentPieces args) := by
  intro inside
  obtain ⟨p,member,inside⟩ := List.mem_flatMap.mp inside
  rcases mem_argumentPieces member with rfl | ⟨a,given,member⟩
  · revert inside
    decide
  · simp only [Keyed.pieces,List.mem_cons,List.not_mem_nil,or_false] at member
    rcases member with rfl | rfl
    · rcases List.mem_append.mp inside with key | equals
      · have word := (Text.word_of_isIdentifier (named a given)).2 '\n' key
        revert word
        decide
      · revert equals
        decide
    · exact lineFeed_notMem_constant a.2 inside

section File

variable {var : String → List Char}

theorem spaced_call {front back : List Char} {args : List Keyed}
    (plainFront : front.all (isPlain true) = true) (plainBack : back.all (isPlain true) = true)
    (named : ∀ a ∈ args, Text.isIdentifier a.1.toList = true) :
    Spaced (.code front :: argumentPieces args ++ [.code back]) := by
  refine ⟨plainFront,(spaced_arguments named).append ⟨plainBack,trivial⟩ ?_⟩
  intro c first
  have member : c ∈ back := by
    simpa [written,Piece.chars] using List.mem_of_mem_head? first
  have plain := List.all_eq_true.mp plainBack c member
  simp only [isPlain,Bool.and_eq_true,Bool.not_eq_true'] at plain
  exact plain.1

theorem spaced_taskLine {t : TaskDefinition} (identifier : Text.isIdentifier (var t.id) = true) :
    Spaced (taskLine var t) := by
  refine spaced_call ?_ (by decide) (named_taskArguments t)
  have word := (Text.word_of_isIdentifier identifier).2
  have plainName : (var t.id).all (isPlain true) = true :=
    List.all_eq_true.mpr fun c inside => isPlain_of_isAsciiWord (word c inside)
  rw [List.all_append,List.all_append,plainName]
  decide

/-- The call that a task line makes for a task. -/
structure Declares (var : String → List Char) (t : TaskDefinition) (o : OperatorCall) : Prop where
  target : o.target = String.ofList (var t.id)
  operator : o.operator = "BashOperator"
  arguments : callArguments? o.call = some ((taskArguments t).map Keyed.argument)

theorem lineFeed_notMem_taskLine {t : TaskDefinition}
    (identifier : Text.isIdentifier (var t.id) = true) : '\n' ∉ written (taskLine var t) := by
  have noName := fun inside => Text.ne_of_isAsciiWord (d := '\n')
    ((Text.word_of_isIdentifier identifier).2 '\n' inside) (by decide) rfl
  have noArgument := lineFeed_notMem_arguments (named_taskArguments t)
  simpa [written,taskLine,Piece.chars] using And.intro noName noArgument

theorem operatorCallsFrom_tasks {tasks : List TaskDefinition} {others : List Line}
    (names : ∀ t ∈ tasks, Text.isIdentifier (var t.id) = true)
    (none : ∀ n, operatorCallsFrom n (lineCells others) = []) (n : Nat) :
    List.Forall₂ (Declares var) tasks
      (operatorCallsFrom n (lineCells (tasks.map (taskLine var) ++ others))) := by
  induction tasks generalizing n with
  | nil =>
    rw [List.map_nil,List.nil_append,none]
    exact .nil
  | cons t tasks ih =>
    have identifier := names t (by simp)
    have named := named_taskArguments t
    have line : lineCells (taskLine var t :: (tasks.map (taskLine var) ++ others)) =
        codeCells ("    ".toList ++ var t.id) ++ (codeCells " = BashOperator".toList ++
          ⟨'(',.code⟩ :: (pieceCells (argumentPieces (taskArguments t)) ++ ⟨')',.code⟩ ::
            ⟨'\n',.code⟩ :: lineCells (tasks.map (taskLine var) ++ others))) := by
      simp [lineCells_cons,taskLine,pieceCells,Piece.cells,codeCells]
    have call := operatorCall?_task identifier n (pieceCells (argumentPieces (taskArguments t)) ++
      ⟨')',.code⟩ :: ⟨'\n',.code⟩ :: lineCells (tasks.map (taskLine var) ++ others))
    rw [← line] at call
    rw [List.map_cons,List.cons_append,operatorCallsFrom_cons (lineFeed_notMem_taskLine identifier),call]
    refine .cons ⟨rfl,rfl,?_⟩ (ih (fun t inside => names t (List.mem_cons_of_mem _ inside)) _)
    exact callArguments?_written (by simp [taskArguments]) named _

theorem dagLine_cells (args : List Keyed) (lines : List Line) :
    lineCells (dagLine args :: lines) = codeCells "with DAG".toList ++ ⟨'(',.code⟩ ::
      (pieceCells (argumentPieces args) ++ ⟨')',.code⟩ ::
        (codeCells " as dag:\n".toList ++ lineCells lines)) := by
  simp [lineCells_cons,dagLine,pieceCells,Piece.cells,codeCells]

theorem operatorCall?_dagLine (args : List Keyed) (n : Nat) (lines : List Line) :
    operatorCall? n (lineCells (dagLine args :: lines)) = none := by
  have nonempty : "with".toList ≠ [] := by decide
  have word : ∀ d ∈ "with".toList, Text.isAsciiWord d = true := by decide
  rw [dagLine_cells]
  exact operatorCall?_other [] (by simp) nonempty word (c := 'D') (by decide) (by decide) n _

theorem lineFeed_notMem_dagLine {args : List Keyed}
    (named : ∀ a ∈ args, Text.isIdentifier a.1.toList = true) : '\n' ∉ written (dagLine args) := by
  have noArgument := lineFeed_notMem_arguments named
  simpa [written,dagLine,Piece.chars] using noArgument

theorem spaced_dagLine {args : List Keyed}
    (named : ∀ a ∈ args, Text.isIdentifier a.1.toList = true) : Spaced (dagLine args) :=
  spaced_call (by decide) (by decide) named

theorem shows_call (indent front back : List Char) {args : List Keyed}
    (blank : ∀ d ∈ indent, d = ' ') (levelFront : ∀ d ∈ front, joins d = false)
    (levelBack : ∀ d ∈ back, joins d = false)
    (first : ∃ d rest, front = d :: rest ∧ Text.isBlank d = false)
    (last : ∀ d ∈ back.getLast?, Text.isBlank d = false)
    (named : ∀ a ∈ args, Text.isIdentifier a.1.toList = true) :
    Shows (.code (indent ++ (front ++ ['('])) :: argumentPieces args ++ [.code (')' :: back)])
      (front ++ '(' :: (lineView (argumentPieces args) ++ ')' :: back)) := by
  refine ⟨⟨indent,blank,?_⟩,?_⟩
  · have ends : lineView [.code (')' :: back)] = ')' :: back := by
      rw [lineView_code]
      exact List.append_nil _
    rw [List.cons_append,lineView_code,lineView_append,ends]
    simp only [List.append_assoc,List.cons_append,List.nil_append]
  · exact standalone_call levelFront
      (fun d inside => not_joins_of_isMild (mild_arguments named d inside)) levelBack first last

theorem shows_dagLine {args : List Keyed}
    (named : ∀ a ∈ args, Text.isIdentifier a.1.toList = true) : Shows (dagLine args)
      ("with".toList ++ declarationTail (lineView (argumentPieces args))) := by
  have last : ∀ d ∈ " as dag:".toList.getLast?, Text.isBlank d = false := by
    intro d ends
    obtain rfl : ':' = d := Option.some.inj ends
    decide
  exact shows_call [] "with DAG".toList " as dag:".toList (by simp)
    (by decide) (by decide) ⟨'w',_,rfl,by decide⟩ last named

theorem shows_taskLine {t : TaskDefinition} (identifier : Text.isIdentifier (var t.id) = true) :
    Shows (taskLine var t) (var t.id ++ ' ' :: '=' :: ' ' ::
      operatorText (lineView (argumentPieces (taskArguments t)))) := by
  obtain ⟨nonempty,word⟩ := Text.word_of_isIdentifier identifier
  have level : ∀ d ∈ var t.id ++ " = BashOperator".toList, joins d = false := by
    have fixed : ∀ d ∈ " = BashOperator".toList, joins d = false := by decide
    intro d inside
    rcases List.mem_append.mp inside with name | inside
    · exact not_joins_of_isMild (isMild_of_isAsciiWord (word d name))
    · exact fixed d inside
  have first : ∃ d rest, var t.id ++ " = BashOperator".toList = d :: rest ∧
      Text.isBlank d = false := by
    cases named : var t.id with
    | nil => exact absurd named nonempty
    | cons d rest => exact ⟨d,_,rfl,Text.isBlank_of_isAsciiWord (word d (by simp [named]))⟩
  have shown := shows_call "    ".toList _ [] (by decide) level (by simp) first
    (by simp) (named_taskArguments t)
  have line : taskLine var t = .code ("    ".toList ++ ((var t.id ++ " = BashOperator".toList) ++
      ['('])) :: argumentPieces (taskArguments t) ++ [.code [')']] := by
    simp only [taskLine,List.append_assoc]
    rfl
  have body : (var t.id ++ " = BashOperator".toList) ++
      '(' :: (lineView (argumentPieces (taskArguments t)) ++ [')']) = var t.id ++ ' ' :: '=' ::
        ' ' :: operatorText (lineView (argumentPieces (taskArguments t))) := by
    simp only [List.append_assoc]
    rfl
  rw [line,← body]
  exact shown

end File

end PipelineAtlas.Airflow

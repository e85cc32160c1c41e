import PipelineAtlas.Airflow.DagFile
import PipelineAtlas.Definition.Check
import PipelineAtlas.Proofs.Airflow.Dependency
import PipelineAtlas.Proofs.Script.Argument
import PipelineAtlas.Proofs.Script.Statement

/-! Definitions written down as Airflow files, one line for the declaration, one for each task and
one for each dependency, and how the lines show in the views that reading takes of a source. -/
namespace PipelineAtlas.Airflow

open Script

def declarationArguments (c : Definition) : List Keyed :=
  [("dag_id",.string c.id),("start_date",.string c.start),
    ("schedule",match c.schedule with | some text => .string text | none => .none),
    ("catchup",.bool c.catchup)] ++
  match c.description with
  | some text => [("description",.string text)]
  | none => []

def taskArguments (t : TaskDefinition) : List Keyed :=
  [("task_id",.string t.id),("bash_command",.string t.command)]

abbrev Line := List Piece

def dagLine (args : List Keyed) : Line :=
  .code "with DAG(".toList :: argumentPieces args ++ [.code ") as dag:".toList]

def declarationLine (c : Definition) : Line := dagLine (declarationArguments c)

def taskLine (var : String → List Char) (t : TaskDefinition) : Line :=
  .code ("    ".toList ++ var t.id ++ " = BashOperator(".toList) ::
    argumentPieces (taskArguments t) ++ [.code ")".toList]

def edgeLine (var : String → List Char) (e : Edge) : Line :=
  [.code ("    ".toList ++ var e.source ++ " >> ".toList ++ var e.target)]

/-- The lines of a definition, given the variable of each task. -/
def fileLines (var : String → List Char) (c : Definition) : List Line :=
  declarationLine c :: c.tasks.map (taskLine var) ++ c.edges.map (edgeLine var)

def writtenLines (lines : List Line) : List Char := lines.flatMap fun l => written l ++ ['\n']

/-- The variable of a task is the letter t and the place of the task, counted from `first`. -/
def numbered (first : Nat) (c : Definition) (id : String) : List Char :=
  't' :: (first + c.ids.idxOf id).repr.toList

def render (first : Nat) (c : Definition) : List Char :=
  writtenLines (fileLines (numbered first c) c)

def lineCells (lines : List Line) : List Cell :=
  lines.flatMap fun l => pieceCells l ++ [⟨'\n',.code⟩]

theorem lineCells_cons (l : Line) (lines : List Line) :
    lineCells (l :: lines) = pieceCells l ++ ⟨'\n',.code⟩ :: lineCells lines := by
  simp [lineCells]

theorem source_writtenLines {lines : List Line} (spaced : ∀ l ∈ lines, Spaced l) :
    source (writtenLines lines) = lineCells lines := by
  induction lines with
  | nil => rfl
  | cons l lines ih =>
    have split : writtenLines (l :: lines) = written l ++ '\n' :: writtenLines lines := by
      simp [writtenLines]
    rw [split,source,scanFrom_written (spaced l (by simp)) true (by simp [NoQuoteFirst,isQuote])]
    have rest := source_plain (c := '\n') (by decide) (writtenLines lines)
    rw [source] at rest
    rw [rest,ih fun m inside => spaced m (List.mem_cons_of_mem l inside),lineCells_cons]

theorem callArguments?_written {args : List Keyed} (nonempty : args ≠ [])
    (named : ∀ a ∈ args, Text.isIdentifier a.1.toList = true) (rest : List Cell) :
    callArguments? (⟨'(',.code⟩ :: (pieceCells (argumentPieces args) ++ ⟨')',.code⟩ :: rest)) =
      some (args.map Keyed.argument) := by
  rw [callArguments?,enclosed?_flat (flat_arguments named) rfl rfl rfl]
  simp only [Option.map_some,cleanText_pieceCells,readArguments_written nonempty named]

def lineView (l : Line) : List Char := codeText (pieceCells l)

/-- A character of calls that is neither a bracket nor a mark. -/
def isMild (c : Char) : Bool := Text.isAsciiWord c || [' ','=',',',':'].contains c

theorem ne_of_isMild {c d : Char} (mild : isMild c = true) (other : isMild d = false) : c ≠ d := by
  rintro rfl
  simp [mild] at other

theorem isMild_of_isAsciiWord {c : Char} (word : Text.isAsciiWord c = true) : isMild c = true := by
  simp [isMild,word]

private theorem codeText_codeCells (s : List Char) : codeText (codeCells s) = s := by
  induction s with
  | nil => rfl
  | cons c s ih =>
    have split : codeText (codeCells (c :: s)) = c :: codeText (codeCells s) := rfl
    rw [split,ih]

theorem lineView_code (s : List Char) (l : Line) : lineView (.code s :: l) = s ++ lineView l := by
  have split : lineView (.code s :: l) = codeText (codeCells s) ++ lineView l := by
    simp [lineView,codeText,pieceCells,Piece.cells]
  rw [split,codeText_codeCells]

theorem mem_lineView {l : Line} {c : Char} : c ∈ lineView l ↔ ∃ p ∈ l, c ∈ lineView [p] := by
  simp only [lineView,codeText,pieceCells,List.flatMap_assoc,List.mem_flatMap,List.flatMap_cons,
    List.flatMap_nil,List.append_nil]

theorem lineView_append (l m : Line) : lineView (l ++ m) = lineView l ++ lineView m := by
  simp [lineView,codeText,pieceCells]

theorem lineView_quoted (s : List Char) (l : Line) :
    ∃ blanks, (∀ c ∈ blanks, c = ' ') ∧ lineView (.quoted s :: l) = blanks ++ lineView l := by
  refine ⟨codeText (literalCells (singleQuoted s)),?_,?_⟩
  · intro c inside
    obtain ⟨x,cell,shown⟩ := List.mem_flatMap.mp inside
    obtain ⟨d,member,rfl⟩ := List.mem_map.mp cell
    have feed : d ≠ '\n' := by
      rintro rfl
      exact lineFeed_notMem_singleQuoted s member
    simp only [Cell.code,reduceCtorEq,if_false,blanked,feed] at shown
    exact List.eq_of_mem_replicate shown
  · simp [lineView,codeText,pieceCells,Piece.cells]

theorem mild_constant (c : Constant) : ∀ x ∈ lineView [c.piece], isMild x = true := by
  intro x inside
  match c with
  | .string s =>
    obtain ⟨blanks,blank,view⟩ := lineView_quoted s.toList []
    have shown : lineView [(Constant.string s).piece] = blanks ++ lineView [] := view
    rw [shown] at inside
    have : x ∈ blanks := by simpa [lineView,pieceCells,codeText] using inside
    rw [blank x this]
    decide
  | .bool true | .bool false | .none =>
    revert x
    decide

theorem mild_keyed {a : Keyed} (named : Text.isIdentifier a.1.toList = true) :
    ∀ x ∈ lineView a.pieces, isMild x = true := by
  intro x inside
  rw [Keyed.pieces,lineView_code,List.mem_append,List.mem_append] at inside
  rcases inside with (key | equals) | value
  · exact isMild_of_isAsciiWord ((Text.word_of_isIdentifier named).2 x key)
  · rw [List.mem_singleton.mp equals]
    decide
  · exact mild_constant a.2 x value

theorem mild_arguments {args : List Keyed}
    (named : ∀ a ∈ args, Text.isIdentifier a.1.toList = true) :
    ∀ x ∈ lineView (argumentPieces args), isMild x = true := by
  intro x inside
  obtain ⟨p,member,inside⟩ := mem_lineView.mp inside
  rcases mem_argumentPieces member with rfl | ⟨a,given,member⟩
  · have comma : ∀ x ∈ lineView [.code ", ".toList], isMild x = true := by decide
    exact comma x inside
  · exact mild_keyed (named a given) x (mem_lineView.mpr ⟨p,member,inside⟩)

def joining : List Char := ['(',')','[',']','{','}','\\','\r','\n']

/-- Whether a character can join the lines around it, or ends a line. -/
def joins (c : Char) : Bool := joining.contains c

theorem not_joins_of_isMild {c : Char} (mild : isMild c = true) : joins c = false := by
  rw [← Bool.not_eq_true]
  intro joined
  have each : ∀ d ∈ joining, isMild d = false := by decide
  have := each c (by simpa [joins] using joined)
  simp [mild] at this

theorem depthOver_of_not_joins {s : List Char} (level : ∀ c ∈ s, joins c = false) (depth : Nat) :
    depthOver depth s = depth := by
  refine depthOver_level (fun c inside bracket => ?_) depth
  have all : ∀ d ∈ brackets, joins d = true := by decide
  simpa [level c inside] using all c bracket

theorem notMem_of_not_joins {s : List Char} {c : Char} (level : ∀ c ∈ s, joins c = false)
    (joined : joins c = true) : c ∉ s := by
  intro inside
  simp [level c inside] at joined

theorem standalone_call {front inside back : List Char}
    (levelFront : ∀ c ∈ front, joins c = false) (levelInside : ∀ c ∈ inside, joins c = false)
    (levelBack : ∀ c ∈ back, joins c = false)
    (first : ∃ c rest, front = c :: rest ∧ Text.isBlank c = false)
    (last : ∀ c ∈ back.getLast?, Text.isBlank c = false) :
    Standalone (front ++ '(' :: (inside ++ ')' :: back)) := by
  have absent {c : Char} (joined : joins c = true) (other : c ≠ '(' ∧ c ≠ ')') :
      c ∉ front ++ '(' :: (inside ++ ')' :: back) := by
    simp [notMem_of_not_joins levelFront joined,notMem_of_not_joins levelInside joined,
      notMem_of_not_joins levelBack joined,other.1,other.2]
  refine ⟨absent (by decide) (by decide),absent (by decide) (by decide),
    absent (by decide) (by decide),?_,?_,?_⟩
  · have split : depthOver 0 (front ++ '(' :: (inside ++ ')' :: back)) =
        depthOver (depthOver (depthOver 0 front + 1) inside - 1) back := by
      simp [depthOver,List.foldl_append]
    rw [split,depthOver_of_not_joins levelFront,depthOver_of_not_joins levelInside,
      depthOver_of_not_joins levelBack]
  · obtain ⟨c,rest,rfl,visible⟩ := first
    exact ⟨c,_,rfl,visible⟩
  · intro c final
    cases back with
    | nil =>
      have : c = ')' := by simpa [List.getLast?_append,List.getLast?_cons] using final.symm
      subst this
      decide
    | cons d back =>
      refine last c ?_
      simpa [List.getLast?_append,List.getLast?_cons] using final

theorem isPlain_of_isMild {c : Char} (mild : isMild c = true) : isPlain false c = true := by
  have single := ne_of_isMild (d := '\'') mild (by decide)
  have double := ne_of_isMild (d := '"') mild (by decide)
  simp [isPlain,isQuote,single,double]

section Call

variable {view : List Char} (mild : ∀ c ∈ view, isMild c = true)

/-- What follows the name of a declaration. -/
def declarationTail (view : List Char) : List Char :=
  " DAG(".toList ++ (view ++ ") as dag:".toList)

def operatorText (view : List Char) : List Char :=
  "BashOperator(".toList ++ (view ++ ")".toList)

include mild

private theorem plain_around (front back : List Char) (plainFront : front.all (isPlain false) = true)
    (plainBack : back.all (isPlain false) = true) :
    (front ++ (view ++ back)).all (isPlain false) = true := by
  rw [List.all_append,List.all_append,plainFront,plainBack,Bool.and_true,Bool.true_and,
    List.all_eq_true]
  exact fun c inside => isPlain_of_isMild (mild c inside)

private theorem noMark_around (front back : List Char) (noFront : ∀ d ∈ front, d ≠ '<' ∧ d ≠ '>')
    (noBack : ∀ d ∈ back, d ≠ '<' ∧ d ≠ '>') :
    ∀ d ∈ front ++ (view ++ back), d ≠ '<' ∧ d ≠ '>' := by
  intro d inside
  simp only [List.mem_append] at inside
  rcases inside with before | inside | behind
  · exact noFront d before
  · exact ⟨ne_of_isMild (mild d inside) (by decide),ne_of_isMild (mild d inside) (by decide)⟩
  · exact noBack d behind

theorem readDependency_declaration :
    readDependency ("with".toList ++ declarationTail view) = .other := by
  have next : (Text.trimLeft (' ' :: ("DAG(".toList ++ (view ++ ") as dag:".toList)))).head? =
      some 'D' := rfl
  have whole : expression ("with".toList ++ declarationTail view) =
      "with".toList ++ declarationTail view :=
    Unassigned.expression ⟨"with".toList,' ',"DAG(".toList ++ (view ++ ") as dag:".toList),rfl,
      by decide,by decide,by decide,by
        rw [next]
        decide⟩
  have plain := plain_around mild "with DAG(".toList ") as dag:".toList
    (by decide) (by decide)
  have noMark := noMark_around mild "with DAG(".toList ") as dag:".toList
    (by decide) (by decide)
  have cells : unwrap (scan ("with".toList ++ declarationTail view)) =
      codeCells ("with".toList ++ declarationTail view) := by
    have scanned : scan ("with".toList ++ declarationTail view) = codeCells _ := scan_plain plain
    rw [scanned]
    refine unwrap_codeCells [] (by simp) (by decide) (by decide) ?_
    have last : ("with DAG(".toList ++ (view ++ ") as dag:".toList)).getLast? = some ':' := by
      rw [List.getLast?_append,List.getLast?_append]
      rfl
    intro d final
    rw [Option.some.inj (last.symm.trans final).symm]
    decide
  have read : unwrap (scan (expression ("with".toList ++ declarationTail view))) =
      codeCells ("with".toList ++ ' ' :: ("DAG(".toList ++ (view ++ ") as dag:".toList))) := by
    rw [whole,cells]
    rfl
  exact readDependency_other (by decide) (by decide) (by decide) read (.inl (by decide)) noMark

theorem readDependency_task {name : List Char} (identifier : Text.isIdentifier name = true) :
    readDependency (name ++ ' ' :: '=' :: ' ' :: operatorText view) = .other := by
  have word := (Text.word_of_isIdentifier identifier).2
  have starts := startsName_of_isIdentifier identifier
  have assigned : expression (name ++ ' ' :: '=' :: ' ' :: operatorText view) =
      ' ' :: operatorText view :=
    expression_assigned (a := [' ']) starts (fun c inside => .inl
      (Text.isWord_of_isAsciiWord (word c inside))) (by decide) (by simp)
  have plain := plain_around mild " BashOperator(".toList ")".toList
    (by decide) (by decide)
  have noMark := noMark_around mild "BashOperator(".toList ")".toList
    (by decide) (by decide)
  have cells : unwrap (scan (' ' :: operatorText view)) = codeCells (operatorText view) := by
    have scanned : scan (' ' :: operatorText view) = codeCells _ := scan_plain plain
    rw [scanned]
    refine unwrap_codeCells [' '] (by simp) (by decide) (by decide) ?_
    have last : ("BashOperator(".toList ++ (view ++ ")".toList)).getLast? = some ')' := by
      rw [List.getLast?_append,List.getLast?_append]
      rfl
    intro d final
    rw [Option.some.inj (last.symm.trans final).symm]
    decide
  have read : unwrap (scan (expression (name ++ ' ' :: '=' :: ' ' :: operatorText view))) =
      codeCells ("BashOperator".toList ++ '(' :: (view ++ ")".toList)) := by
    rw [assigned,cells]
    rfl
  exact readDependency_other (by decide) (by decide) (by decide) read (.inl (by decide)) noMark

end Call

end PipelineAtlas.Airflow

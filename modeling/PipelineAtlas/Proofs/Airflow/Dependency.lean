import PipelineAtlas.Airflow.Dependency
import PipelineAtlas.Proofs.Script.Argument

/-! How plain statements read: a call assigned to a variable or a header is no dependency, a name is an
operand, and a statement that assigns is read behind its equals sign. -/
namespace PipelineAtlas.Airflow

open Script

theorem segments_word {s : List Char} (noDot : '.' ∉ s) : segments s = [s] := by
  have from' : ∀ begun : List Char, segmentsFrom begun s = [begun.reverse ++ s] := by
    induction s with
    | nil => simp [segmentsFrom]
    | cons c s ih =>
      simp only [List.mem_cons,not_or] at noDot
      intro begun
      simp [segmentsFrom,Ne.symm noDot.1,ih noDot.2]
  exact (from' []).trans (by simp)

theorem bodyOf?_other (opening : String) {o : Char} {more : List Char}
    (opens : opening.toList = o :: more) {c : Char} (other : c ≠ o) (s : List Char) :
    bodyOf? opening (codeCells (c :: s)) = none := by
  simp [bodyOf?,opens,codeCells,List.isPrefixOf,Ne.symm other]

section Words

variable {word : List Char} (isWord : ∀ c ∈ word, Text.isWord c = true) {c : Char}
  (ends : Text.isWord c = false)

include isWord ends

theorem takeWord (s : List Char) :
    (codeCells (word ++ c :: s)).takeWhile (fun x => Text.isWord x.char) = codeCells word ∧
      (codeCells (word ++ c :: s)).dropWhile (fun x => Text.isWord x.char) =
        codeCells (c :: s) := by
  have inWord : ∀ x ∈ codeCells word, Text.isWord x.char = true := by
    intro x inside
    obtain ⟨d,member,rfl⟩ := List.mem_map.mp inside
    exact isWord d member
  rw [codeCells_append,List.takeWhile_append_of_pos inWord,List.dropWhile_append_of_pos inWord]
  simp [codeCells,ends]

variable (noDot : c ≠ '.')

include noDot

theorem takePath (s : List Char) :
    (codeCells (word ++ c :: s)).takeWhile (fun x => Text.isWord x.char || x.char == '.') =
        codeCells word ∧
      (codeCells (word ++ c :: s)).dropWhile (fun x => Text.isWord x.char || x.char == '.') =
        codeCells (c :: s) := by
  have inPath : ∀ x ∈ codeCells word, (Text.isWord x.char || x.char == '.') = true := by
    intro x inside
    obtain ⟨d,member,rfl⟩ := List.mem_map.mp inside
    simp [isWord d member]
  rw [codeCells_append,List.takeWhile_append_of_pos inPath,List.dropWhile_append_of_pos inPath]
  simp [codeCells,ends,noDot]

theorem setCall?_word (s : List Char) : setCall? (codeCells (word ++ c :: s)) = none := by
  obtain ⟨task,rest⟩ := takeWord isWord ends s
  have down := bodyOf?_other ".set_downstream(" rfl noDot s
  have up := bodyOf?_other ".set_upstream(" rfl noDot s
  simp only [setCall?,task,rest,down,up]
  simp

theorem chainCall?_word (notChain : word ≠ "chain".toList ∨ c ≠ '(') (s : List Char) :
    chainCall? (codeCells (word ++ c :: s)) = none := by
  obtain ⟨path,rest⟩ := takePath isWord ends noDot s
  have dotless : '.' ∉ word := by
    intro inside
    have := isWord '.' inside
    revert this
    decide
  simp only [chainCall?,path,rest,text_codeCells,segments_word dotless]
  rcases notChain with other | other
  · have last : ([word].getLast? == some "chain".toList) = false := by simpa using other
    rw [last,Bool.and_false]
    rfl
  · have none := bodyOf?_other "(" rfl other s
    simp [none]

/-- What begins with a word and is neither a call on it nor a chain is no dependency. -/
theorem readDependency_other {statement : List Char} {s : List Char}
    (cells : unwrap (scan (expression statement)) = codeCells (word ++ c :: s))
    (notChain : word ≠ "chain".toList ∨ c ≠ '(')
    (noMark : ∀ d ∈ word ++ c :: s, d ≠ '<' ∧ d ≠ '>') : readDependency statement = .other := by
  have noMarkCells : ∀ x ∈ codeCells (word ++ c :: s), x.char ≠ '<' ∧ x.char ≠ '>' := by
    intro x inside
    obtain ⟨d,member,rfl⟩ := List.mem_map.mp inside
    exact noMark d member
  simp only [readDependency,cells,setCall?_word isWord ends noDot,
    chainCall?_word isWord ends noDot notChain,shiftChain,shiftChainFrom_noMark noMarkCells]
  rfl

end Words

theorem unwrap_of_trim {cells rest : List Cell} {x : Cell} (trimmed : trimCells cells = x :: rest)
    (noBracket : x.isCode '(' = false) : unwrap cells = x :: rest := by
  rw [unwrap,trimmed]
  cases cells.length with
  | zero => rfl
  | succ n => simp [unwrapFrom,noBracket]

theorem trimCells_codeCells (front : List Char) {s : List Char} (back : List Char) (before : ∀ c ∈ front, c = ' ')
    (behind : ∀ c ∈ back, c = ' ') (nonempty : s ≠ [])
    (first : ∀ c ∈ s.head?, Text.isBlank c = false)
    (last : ∀ c ∈ s.getLast?, Text.isBlank c = false) :
    trimCells (codeCells (front ++ (s ++ back))) = codeCells s := by
  have blank : ∀ t : List Char, (∀ c ∈ t, c = ' ') →
      ∀ x ∈ codeCells t, Text.isBlank x.char = true := by
    intro t spaces x inside
    obtain ⟨c,member,rfl⟩ := List.mem_map.mp inside
    rw [spaces c member]
    decide
  have trimmed : Trimmed (codeCells s) := by
    simpa [Trimmed,codeCells,List.head?_map,List.getLast?_map] using And.intro first last
  rw [codeCells_append,codeCells_append]
  exact trimCells_around (by simpa [codeCells] using nonempty) trimmed (blank front before)
    (blank back behind)

theorem unwrap_codeCells (front : List Char) {s : List Char} {c : Char} (before : ∀ c ∈ front, c = ' ')
    (first : Text.isBlank c = false) (noBracket : c ≠ '(')
    (last : ∀ d ∈ (c :: s).getLast?, Text.isBlank d = false) :
    unwrap (codeCells (front ++ c :: s)) = codeCells (c :: s) := by
  have trimmed := trimCells_codeCells front [] before (by simp) (List.cons_ne_nil c s)
    (by simpa using first) last
  rw [List.append_nil] at trimmed
  exact unwrap_of_trim trimmed (by simp [Cell.isCode,noBracket])

theorem startsName_of_isIdentifier {name : List Char} (identifier : Text.isIdentifier name = true) :
    startsName name = true := by
  cases name with
  | nil => simp [Text.isIdentifier] at identifier
  | cons c name =>
    simp only [Text.isIdentifier,Bool.and_eq_true] at identifier
    simpa [startsName] using identifier.1

/-- A text that does not begin with a path and an equals sign. -/
def Unassigned (s : List Char) : Prop := ∃ path c t, s = path ++ c :: t ∧
  (∀ d ∈ path, Text.isWord d = true ∨ d = '.') ∧ Text.isWord c = false ∧ c ≠ '.' ∧
    (Text.trimLeft (c :: t)).head? ≠ some '='

theorem dropTarget {path : List Char} (inPath : ∀ d ∈ path, Text.isWord d = true ∨ d = '.')
    {c : Char} (ends : Text.isWord c = false) (noDot : c ≠ '.') (t : List Char) :
    (path ++ c :: t).dropWhile (fun c => Text.isWord c || c == '.') = c :: t := by
  rw [List.dropWhile_append_of_pos (by simpa using inPath),
    List.dropWhile_cons_of_neg (by simp [ends,noDot])]

theorem Unassigned.expression {s : List Char} (unassigned : Unassigned s) :
    Airflow.expression s = s := by
  obtain ⟨path,c,t,rfl,inPath,ends,noDot,noEquals⟩ := unassigned
  simp only [Airflow.expression,dropTarget inPath ends noDot]
  split
  next rest next => simp [next] at noEquals
  next => rfl

theorem isWord_of_isBlank {c : Char} (blank : Text.isBlank c = true) : Text.isWord c = false := by
  cases word : Text.isWord c with
  | true => simp [Text.isBlank_of_isWord word] at blank
  | false => rfl

theorem exists_behind {a : List Char} (before : ∀ c ∈ a, Text.isBlank c = true) {d : Char}
    (sign : d ∈ ['=','<','>']) (s : List Char) : ∃ c t, a ++ d :: s = c :: t ∧ Text.isWord c = false ∧ c ≠ '.' ∧ c ≠ '(' ∧
      Text.trimLeft (c :: t) = d :: s := by
  have signs : ∀ d ∈ ['=','<','>'], Text.isWord d = false ∧ d ≠ '.' ∧ d ≠ '(' ∧
      Text.isBlank d = false := by decide
  obtain ⟨noWord,noDot,noParen,visible⟩ := signs d sign
  have trimmed : Text.trimLeft (a ++ d :: s) = d :: s := by
    rw [Text.trimLeft,List.dropWhile_append_of_pos before,
      List.dropWhile_cons_of_neg (by simp [visible])]
  cases a with
  | nil => exact ⟨d,s,rfl,noWord,noDot,noParen,trimmed⟩
  | cons c a =>
    have blank := before c List.mem_cons_self
    have apart : ∀ e ∈ ['.','('], c ≠ e := by
      have all : ∀ e ∈ ['.','('], Text.isBlank e = false := by decide
      rintro e inside rfl
      simp [all c inside] at blank
    exact ⟨c,_,rfl,isWord_of_isBlank blank,apart '.' (by simp),apart '(' (by simp),trimmed⟩

theorem expression_assigned {target a s : List Char} (starts : startsName target = true)
    (path : ∀ c ∈ target, Text.isWord c = true ∨ c = '.') (before : ∀ c ∈ a, Text.isBlank c = true)
    (single : s.head? ≠ some '=') : expression (target ++ (a ++ '=' :: s)) = s := by
  have starts' : startsName (target ++ (a ++ '=' :: s)) = true := by
    cases target with
    | nil => simp [startsName] at starts
    | cons c target => exact starts
  obtain ⟨c,t,split,ends,noDot,-,next⟩ := exists_behind before (List.mem_cons_self (a := '=')) s
  have dropped := dropTarget path ends noDot t
  rw [← split] at dropped next
  simp [expression,dropped,next,starts',single]

theorem operandNames?_name {name : List Char} (identifier : Text.isIdentifier name = true)
    {cells : List Cell} (trimmed : trimCells cells = codeCells name) :
    operandNames? cells = some [name] := by
  simp [operandNames?,trimmed,identifier]

end PipelineAtlas.Airflow

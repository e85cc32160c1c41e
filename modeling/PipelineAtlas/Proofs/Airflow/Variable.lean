import PipelineAtlas.Proofs.Airflow.StartDate
import PipelineAtlas.Proofs.Airflow.ValueReading

/-! Variables in place of values. A name stays a name and never passes for the value that a declaration
needs, unless there is nothing in it but underscores and the digits of a number: then it is this number. -/
namespace PipelineAtlas.Airflow

open Script

/-- A name that is no value of the language. -/
structure IsVariable (name : String) : Prop where
  identifier : Text.isIdentifier name.toList = true
  noKeyword : name ∉ ["True","False","None"]

def withoutLines (name : List Char) : List Char := name.filter (· != '_')

def numberOf (name : List Char) : Nat := Nat.ofDigitChars 10 (withoutLines name) 0

/-- Underscores and the digits of a 64-bit integer. -/
structure PassesForNumber (name : List Char) : Prop where
  chars : ∀ c ∈ name, c = '_' ∨ c.isDigit = true
  digits : withoutLines name ≠ []
  fits : numberOf name ≤ 0x7FFFFFFFFFFFFFFF

instance (name : List Char) : Decidable (PassesForNumber name) :=
  decidable_of_iff ((∀ c ∈ name, c = '_' ∨ c.isDigit = true) ∧ withoutLines name ≠ [] ∧
    numberOf name ≤ 0x7FFFFFFFFFFFFFFF) ⟨fun h => ⟨h.1,h.2.1,h.2.2⟩,fun h => ⟨h.chars,h.digits,h.fits⟩⟩

theorem decimal?_of_digits {cs : List Char} (digits : ∀ c ∈ cs, c.isDigit = true) {limit n : Nat} :
    Text.decimal? limit cs = some n ↔
      cs ≠ [] ∧ Nat.ofDigitChars 10 cs 0 ≤ limit ∧ n = Nat.ofDigitChars 10 cs 0 := by
  rw [Text.decimal?,Option.filter_eq_some_iff]
  cases cs with
  | nil => simp [Text.digits?]
  | cons c cs =>
    have whole : Text.digits? 10 (c :: cs) = some (Nat.ofDigitChars 10 (c :: cs) 0) :=
      Text.digitsFrom_ten digits 0
    rw [whole,Option.some.injEq,decide_eq_true_iff]
    constructor
    · rintro ⟨rfl,fits⟩
      exact ⟨List.cons_ne_nil c cs,fits,rfl⟩
    · rintro ⟨-,fits,rfl⟩
      exact ⟨rfl,fits⟩

theorem digits_of_chars {name : List Char} (chars : ∀ c ∈ name, c = '_' ∨ c.isDigit = true) :
    ∀ c ∈ withoutLines name, c.isDigit = true := by
  intro c inside
  obtain ⟨member,other⟩ := List.mem_filter.mp inside
  exact (chars c member).resolve_left (by simpa using other)

theorem integer?_of_digits {name : List Char} (digits : ∀ c ∈ withoutLines name, c.isDigit = true)
    {n : Int} : integer? name = some n ↔
      withoutLines name ≠ [] ∧ numberOf name ≤ 0x7FFFFFFFFFFFFFFF ∧ n = numberOf name := by
  rw [integer?,← withoutLines,Text.int64?_of_digits digits,Option.map_eq_some_iff]
  simp only [decimal?_of_digits digits]
  constructor
  · rintro ⟨m,⟨some,fits,rfl⟩,rfl⟩
    exact ⟨some,fits,rfl⟩
  · rintro ⟨some,fits,rfl⟩
    exact ⟨_,⟨some,fits,rfl⟩,rfl⟩

theorem integer?_of_word {name : List Char} (word : ∀ c ∈ name, Text.isAsciiWord c = true) {n : Int} :
    integer? name = some n ↔ PassesForNumber name ∧ n = numberOf name := by
  constructor
  · intro read
    have chars : ∀ c ∈ name, c = '_' ∨ c.isDigit = true := by
      intro c inside
      refine (mem_of_integer? read c inside).imp_left fun sign => ?_
      have noWord : ∀ d ∈ ['-','+'], Text.isAsciiWord d = false := by decide
      refine (List.mem_cons.mp sign).resolve_right fun sign => ?_
      exact absurd (word c inside) (by simp [noWord c sign])
    obtain ⟨some,fits,value⟩ := (integer?_of_digits (digits_of_chars chars)).mp read
    exact ⟨⟨chars,some,fits⟩,value⟩
  · rintro ⟨passes,value⟩
    exact (integer?_of_digits (digits_of_chars passes.chars)).mpr ⟨passes.digits,passes.fits,value⟩

def nameValue (name : String) : Value :=
  if PassesForNumber name.toList then .int (numberOf name.toList) else .name name

/-- The cells of a name, between blanks. -/
def Names (cells : List Cell) (name : String) : Prop := text (trimCells cells) = name.toList

theorem readValueFrom_of_shown {cells : List Cell} {name : String} (named : IsVariable name)
    (shown : Names cells name) (n : Nat) : readValueFrom (n + 1) cells = nameValue name := by
  obtain ⟨identifier,noKeyword⟩ := named
  unfold Names at shown
  have word := (Text.word_of_isIdentifier identifier).2
  have inked : ∀ c ∈ name.toList, Inked c := fun c inside => .inl (word c inside)
  have noWord := keyword?_of_name noKeyword
  have noLiteral := literal?_of_inked inked
  obtain ⟨noList,noCall⟩ : listBody? (trimCells cells) = none ∧ callParts? (trimCells cells) = none := by
    refine brackets_of_inkedCells fun x inside => inked _ ?_
    rw [← shown]
    exact List.mem_map_of_mem inside
  have dotted : isDottedName name.toList = true := by
    have noDot : '.' ∉ name.toList := fun inside => absurd (word '.' inside) (by decide)
    simpa [isDottedName,segments_word noDot] using identifier
  simp only [readValueFrom,shown,noWord,noLiteral,noList,noCall,dotted,if_true,
    String.ofList_toList]
  unfold nameValue
  split
  next n read =>
    obtain ⟨passes,rfl⟩ := (integer?_of_word word).mp read
    rw [if_pos passes]
  next none =>
    rw [if_neg fun passes => ?_]
    rw [(integer?_of_word word).mpr ⟨passes,rfl⟩] at none
    cases none

theorem nameValue_of_passes {name : String} (passes : PassesForNumber name.toList) :
    nameValue name = .int (numberOf name.toList) := if_pos passes

theorem nameValue_of_not_passes {name : String} (fails : ¬ PassesForNumber name.toList) :
    nameValue name = .name name := if_neg fails

theorem nameValue_cases (name : String) :
    (∃ n, nameValue name = .int n) ∨ nameValue name = .name name := by
  by_cases passes : PassesForNumber name.toList
  · exact .inl ⟨_,nameValue_of_passes passes⟩
  · exact .inr (nameValue_of_not_passes passes)

def splitArguments (cells : List Cell) : List (Argument (List Cell)) :=
  (splitTopLevel ',' cells).map fun part => ⟨(splitArgument part).1,(splitArgument part).2⟩

def readEach (read : List Cell → Value) (args : List (Argument (List Cell))) : Arguments :=
  args.map fun a => ⟨a.key,read a.value⟩

def cellsByKey (args : List (Argument (List Cell))) (key : String) : Option (List Cell) :=
  (args.find? fun a => a.key == some key).map (·.value)

def cellsByPlace (args : List (Argument (List Cell))) : List (List Cell) :=
  (args.filter fun a => a.key.isNone).map (·.value)

theorem byKey_readEach (read : List Cell → Value) (args : List (Argument (List Cell))) (key : String) :
    (readEach read args).byKey key = (cellsByKey args key).map read := by
  rw [Arguments.byKey,readEach,List.find?_map,Option.map_map,cellsByKey,Option.map_map]
  rfl

theorem positional_readEach (read : List Cell → Value) (args : List (Argument (List Cell))) :
    (readEach read args).positional = (cellsByPlace args).map read := by
  rw [Arguments.positional,readEach,List.filter_map,List.map_map,cellsByPlace,List.map_map]
  rfl

theorem readArguments_eq (s : List Char) :
    readArguments s = readEach readCells (splitArguments (scan s)) := by
  rw [readEach,splitArguments,List.map_map]
  rfl

theorem readValueFrom_splitArguments {cells inside : List Cell} {function : List Char}
    (parts : callParts? (trimCells cells) = some (function,inside)) (n : Nat) :
    readValueFrom (n + 1) cells =
      .call (String.ofList function) (readEach (readValueFrom n) (splitArguments inside)) := by
  rw [readValueFrom_of_callParts? parts,readEach,splitArguments,List.map_map]
  rfl

/-- The declaration of a source has these arguments, and begins on this line. -/
def Written (source : List Char) (args : List (Argument (List Cell))) (line : Nat) : Prop :=
  ∃ call inside behind, declaration? (Script.source source) = some (line,call) ∧
    enclosed? call = some (inside,behind) ∧ args = splitArguments (scan (cleanText inside))

theorem Written.declared {source : List Char} {args : List (Argument (List Cell))} {line : Nat}
    (written : Written source args line) : DeclaredBy source (readEach readCells args) line := by
  obtain ⟨call,inside,behind,declared,enclosed,rfl⟩ := written
  refine ⟨call,declared,?_⟩
  rw [callArguments?,enclosed,← readArguments_eq]
  rfl

theorem readDag_of_failed {source : List Char} {values : Arguments} {line : Nat}
    (declared : DeclaredBy source values line) {e : Error}
    (failed : readDeclaration values line = .error e) : readDag source = .error e := by
  rw [readDag_eq_body,declared.readDeclared,failed]
  rfl

theorem readCells_of_shown {cells : List Cell} {name : String} (named : IsVariable name)
    (shown : Names cells name) : readCells cells = nameValue name :=
  readValueFrom_of_shown named shown _

theorem readValue_of_variable {name : String} (named : IsVariable name) :
    readValue name.toList = nameValue name := by
  have inked : ∀ c ∈ name.toList, Inked c := fun c inside =>
    .inl ((Text.word_of_isIdentifier named.identifier).2 c inside)
  have visible : ∀ x ∈ codeCells name.toList, Text.isBlank x.char = false := by
    intro x inside
    obtain ⟨c,member,rfl⟩ := List.mem_map.mp inside
    exact (inked c member).visible
  have trimmed : Trimmed (codeCells name.toList) :=
    ⟨fun x first => visible x (List.mem_of_mem_head? first),
      fun x last => visible x (List.mem_of_mem_getLast? last)⟩
  refine readCells_of_shown named ?_
  rw [Names,scan_of_inked inked,trimCells_of_trimmed trimmed,text_codeCells]

section

variable {args : List (Argument (List Cell))} {cells : List Cell} {name : String}
  (named : IsVariable name) (shown : Names cells name) (line : Nat)

include named shown

theorem readId_of_shown (given : (cellsByKey args "dag_id" <|> (cellsByPlace args).head?) = some cells) :
    readId (readEach readCells args) line = .error (invalid "dag_id" (nameValue name) line) := by
  have value : ((readEach readCells args).byKey "dag_id" <|>
      (readEach readCells args).positional.head?) = some (nameValue name) := by
    rw [byKey_readEach,positional_readEach,List.head?_map,← readCells_of_shown named shown,← Option.map_some,← given]
    cases cellsByKey args "dag_id" <;> rfl
  obtain ⟨n,same⟩ | same := nameValue_cases name <;> simp only [readId,value,same]

theorem readStart_of_shown (given : cellsByKey args "start_date" = some cells) :
    readStart (readEach readCells args) line =
      .error (invalid "start_date" (nameValue name) line) := by
  have value : (readEach readCells args).byKey "start_date" = some (nameValue name) := by
    rw [byKey_readEach,given,Option.map_some,readCells_of_shown named shown]
  obtain ⟨n,same⟩ | same := nameValue_cases name <;> simp only [readStart,value,same]

theorem readSchedule_of_shown
    (given : (cellsByKey args "schedule" <|> cellsByKey args "schedule_interval") = some cells) :
    readSchedule (readEach readCells args) line =
      .error (invalid "schedule" (nameValue name) line) := by
  have value : ((readEach readCells args).byKey "schedule" <|>
      (readEach readCells args).byKey "schedule_interval") = some (nameValue name) := by
    rw [byKey_readEach,byKey_readEach,← readCells_of_shown named shown,← Option.map_some,← given]
    cases cellsByKey args "schedule" <;> rfl
  obtain ⟨n,same⟩ | same := nameValue_cases name <;> simp only [readSchedule,value,same]

theorem readCatchup_of_shown (given : cellsByKey args "catchup" = some cells) :
    readCatchup (readEach readCells args) line =
      .error (invalid "catchup" (nameValue name) line) := by
  have value : (readEach readCells args).byKey "catchup" = some (nameValue name) := by
    rw [byKey_readEach,given,Option.map_some,readCells_of_shown named shown]
  obtain ⟨n,same⟩ | same := nameValue_cases name <;> simp only [readCatchup,value,same]

end

/-- The start of a declaration is a call for a date and time. -/
def StartWritten (args : List (Argument (List Cell))) (function : String)
    (inner : List (Argument (List Cell))) : Prop :=
  ∃ cells inside, cellsByKey args "start_date" = some cells ∧
    callParts? (trimCells cells) = some (function.toList,inside) ∧
    namesFunction "datetime" function = true ∧ inner = splitArguments inside

theorem readStart_of_part {args inner : List (Argument (List Cell))} {function : String}
    (start : StartWritten args function inner) {k : Nat} (part : k < 6) {cells : List Cell}
    (placed : (cellsByPlace inner)[k]? = some cells) {name : String} (named : IsVariable name)
    (shown : Names cells name)
    (noNumber : ¬ PassesForNumber name.toList) (line : Nat) :
    readStart (readEach readCells args) line =
      .error (.invalidArgument "start_date" (function ++ "(...)") line) := by
  obtain ⟨whole,inside,given,parts,ending,rfl⟩ := start
  obtain ⟨n,depth⟩ : ∃ n, whole.length = n + 1 := by
    cases whole with
    | nil => cases parts
    | cons x whole => exact ⟨whole.length,rfl⟩
  have read := readValueFrom_splitArguments parts whole.length
  rw [depth,String.ofList_toList] at read
  have value : (readEach readCells args).byKey "start_date" =
      some (.call function (readEach (readValueFrom (n + 1)) (splitArguments inside))) := by
    rw [byKey_readEach,given,Option.map_some,readCells,depth,read]
  have noIntegers : integers?
      ((readEach (readValueFrom (n + 1)) (splitArguments inside)).positional.take 6) = none := by
    rw [Option.eq_none_iff_forall_ne_some]
    intro numbers integers
    have here := congrArg (·[k]?) (integers?_eq_some.mp integers)
    rw [positional_readEach] at here
    simp only [List.getElem?_take_of_lt part,List.getElem?_map,placed,Option.map_some,
      readValueFrom_of_shown named shown,nameValue_of_not_passes noNumber] at here
    cases there : numbers[k]? <;> simp [there] at here
  simp only [readStart,value,ending,if_true,readDateCall,noIntegers,invalid,Value.describe]

def error? : Except Error α → Option Error
  | .error e => some e
  | .ok _ => none

section

variable {values : Arguments} {line : Nat} {e : Error}

theorem readDeclaration_of_id (failed : readId values line = .error e) :
    readDeclaration values line = .error e := by
  rw [readDeclaration,failed]
  rfl

theorem readDeclaration_of_start (failed : readStart values line = .error e) :
    readDeclaration values line = .error ((error? (readId values line)).getD e) := by
  rw [readDeclaration,failed]
  cases readId values line <;> rfl

theorem readDeclaration_of_schedule (failed : readSchedule values line = .error e) :
    readDeclaration values line =
      .error (((error? (readId values line)).or (error? (readStart values line))).getD e) := by
  rw [readDeclaration,failed]
  cases readId values line <;> cases readStart values line <;> rfl

theorem readDeclaration_of_catchup (failed : readCatchup values line = .error e) :
    readDeclaration values line = .error (((error? (readId values line)).or
      ((error? (readStart values line)).or (error? (readSchedule values line)))).getD e) := by
  rw [readDeclaration,failed]
  cases readId values line <;> cases readStart values line <;> cases readSchedule values line <;> rfl

end

/-- A variable is read as a name, or as a number if it is nothing but underscores and digits. A
declaration that has a variable for its name, its start, its schedule or the catching up is refused, and
so is one with a variable among the parts of its start that is not read as a number: the variable is the
error unless one was met before. -/
theorem readDag_of_variable {name : String} (named : IsVariable name) :
    (readValue name.toList =
      if PassesForNumber name.toList then .int (numberOf name.toList) else .name name) ∧
    ∀ source args line values cells, Written source args line → values = readEach readCells args →
      Names cells name →
      ((cellsByKey args "dag_id" <|> (cellsByPlace args).head?) = some cells →
        readDag source = .error (invalid "dag_id" (nameValue name) line)) ∧
      (cellsByKey args "start_date" = some cells → readDag source =
        .error ((error? (readId values line)).getD (invalid "start_date" (nameValue name) line))) ∧
      ((cellsByKey args "schedule" <|> cellsByKey args "schedule_interval") = some cells →
        readDag source = .error (((error? (readId values line)).or
          (error? (readStart values line))).getD (invalid "schedule" (nameValue name) line))) ∧
      (cellsByKey args "catchup" = some cells → readDag source =
        .error (((error? (readId values line)).or ((error? (readStart values line)).or
          (error? (readSchedule values line)))).getD (invalid "catchup" (nameValue name) line))) ∧
      ∀ function inner k, StartWritten args function inner → k < 6 →
        (cellsByPlace inner)[k]? = some cells → ¬ PassesForNumber name.toList →
        readDag source = .error ((error? (readId values line)).getD
          (.invalidArgument "start_date" (function ++ "(...)") line)) := by
  refine ⟨readValue_of_variable named,?_⟩
  rintro source args line _ cells written rfl shown
  have refused {e : Error} (failed : readDeclaration (readEach readCells args) line = .error e) :
      readDag source = .error e := readDag_of_failed written.declared failed
  refine ⟨fun given => ?_,fun given => ?_,fun given => ?_,fun given => ?_,
    fun function inner k start part placed noNumber => ?_⟩
  · exact refused (readDeclaration_of_id (readId_of_shown named shown line given))
  · exact refused (readDeclaration_of_start (readStart_of_shown named shown line given))
  · exact refused (readDeclaration_of_schedule (readSchedule_of_shown named shown line given))
  · exact refused (readDeclaration_of_catchup (readCatchup_of_shown named shown line given))
  · exact refused
      (readDeclaration_of_start (readStart_of_part start part placed named shown noNumber line))

theorem isVariable_iff {name : String} : IsVariable name ↔
    Text.isIdentifier name.toList = true ∧ name ∉ ["True","False","None"] :=
  ⟨fun h => ⟨h.identifier,h.noKeyword⟩,fun h => ⟨h.1,h.2⟩⟩

instance (name : String) : Decidable (IsVariable name) := decidable_of_iff _ isVariable_iff.symm

deriving instance DecidableEq for Argument

def written? (source : List Char) : Option (Nat × List (Argument (List Cell))) :=
  (declaration? (Script.source source)).bind fun (line,call) =>
    (enclosed? call).map fun (inside,_) => (line,splitArguments (scan (cleanText inside)))

theorem written?_eq_some {source : List Char} {args : List (Argument (List Cell))} {line : Nat} :
    written? source = some (line,args) ↔ Written source args line := by
  simp only [written?,Option.bind_eq_some_iff,Option.map_eq_some_iff,Prod.exists,Prod.mk.injEq]
  constructor
  · rintro ⟨_,call,declared,inside,behind,enclosed,rfl,rfl⟩
    exact ⟨call,inside,behind,declared,enclosed,rfl⟩
  · rintro ⟨call,inside,behind,declared,enclosed,rfl⟩
    exact ⟨_,call,declared,inside,behind,enclosed,rfl,rfl⟩

def startingWritten (parts : String) : List (Argument (List Cell)) :=
  splitArguments (scan ("'d', start_date=datetime(".toList ++ parts.toList ++ [')']))

theorem readDag_of_variable_year :
    IsVariable "YEAR" ∧ readValue "YEAR".toList = .name "YEAR" ∧
    Written (starting "YEAR, 1, 1") (startingWritten "YEAR, 1, 1") 1 ∧
    StartWritten (startingWritten "YEAR, 1, 1") "datetime"
      (splitArguments (scan "YEAR, 1, 1".toList)) ∧
    (cellsByPlace (splitArguments (scan "YEAR, 1, 1".toList)))[0]? = some (codeCells "YEAR".toList) ∧
    Names (codeCells "YEAR".toList) "YEAR" ∧ ¬ PassesForNumber "YEAR".toList ∧
    readDag (starting "YEAR, 1, 1") = .error (.invalidArgument "start_date" "datetime(...)" 1) := by
  have named : IsVariable "YEAR" := by decide
  have noNumber : ¬ PassesForNumber "YEAR".toList := by decide
  have written : Written (starting "YEAR, 1, 1") (startingWritten "YEAR, 1, 1") 1 := by
    rw [← written?_eq_some]
    simp only [starting,startingWritten,String.toList_append]
    repeat rw [String.toList_ofList]
    decide +kernel
  have start : StartWritten (startingWritten "YEAR, 1, 1") "datetime"
      (splitArguments (scan "YEAR, 1, 1".toList)) :=
    ⟨codeCells "datetime(YEAR, 1, 1)".toList,scan "YEAR, 1, 1".toList,by decide +kernel,
      by decide +kernel,by decide +kernel,rfl⟩
  have placed : (cellsByPlace (splitArguments (scan "YEAR, 1, 1".toList)))[0]? =
      some (codeCells "YEAR".toList) := by
    decide +kernel
  have shown : Names (codeCells "YEAR".toList) "YEAR" := by
    rw [Names]
    decide
  obtain ⟨read,refused⟩ := readDag_of_variable named
  obtain ⟨-,-,-,-,parts⟩ := refused _ _ _ _ _ written rfl shown
  have id : error? (readId (readEach readCells (startingWritten "YEAR, 1, 1")) 1) = none := by
    decide +kernel
  have failed := parts "datetime" _ 0 start (by decide) placed noNumber
  rw [id] at failed
  rw [if_neg noNumber] at read
  exact ⟨named,read,written,start,placed,shown,noNumber,failed⟩

/-- A name of an underscore and digits is read as a number, and as such it is the year of a DAG. -/
theorem readDag_of_underscored_year :
    IsVariable "_2024" ∧ readValue "_2024".toList ≠ .name "_2024" ∧
    Written (starting "_2024, 1, 1") (startingWritten "_2024, 1, 1") 1 ∧
    StartWritten (startingWritten "_2024, 1, 1") "datetime"
      (splitArguments (scan "_2024, 1, 1".toList)) ∧
    (cellsByPlace (splitArguments (scan "_2024, 1, 1".toList)))[0]? =
      some (codeCells "_2024".toList) ∧
    ∃ d, readDag (starting "_2024, 1, 1") = .ok d ∧
      d.start = Instant.ofUniversal ⟨2024,1,1⟩ Clock.midnight := by
  have named : IsVariable "_2024" := by decide
  have passes : PassesForNumber "_2024".toList := by decide +kernel
  have run : (readDag (starting "_2024, 1, 1")).map (·.start) =
      .ok (Instant.ofUniversal ⟨2024,1,1⟩ Clock.midnight) := by
    simp only [starting,String.toList_append]
    repeat rw [String.toList_ofList]
    decide +kernel
  have written : Written (starting "_2024, 1, 1") (startingWritten "_2024, 1, 1") 1 := by
    rw [← written?_eq_some]
    simp only [starting,startingWritten,String.toList_append]
    repeat rw [String.toList_ofList]
    decide +kernel
  obtain ⟨d,read,start⟩ := Fallible.map_ok.mp run
  refine ⟨named,?_,written,?_,by decide +kernel,d,read,start⟩
  · rw [readValue_of_variable named,nameValue_of_passes passes]
    exact Value.noConfusion
  · exact ⟨codeCells "datetime(_2024, 1, 1)".toList,scan "_2024, 1, 1".toList,by decide +kernel,
      by decide +kernel,by decide +kernel,rfl⟩

end PipelineAtlas.Airflow

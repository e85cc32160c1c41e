import PipelineAtlas.Proofs.Airflow.LayoutReading

/-! Lines with a layout. Whatever its gaps, parentheses and target, a layout on one line reads as the
dependency that is laid out. -/
namespace PipelineAtlas.Airflow

open Script

theorem unmarked_of_padded {a b s : List Char} (before : Blanks a)
    (unmarked : ∀ c ∈ s, isMark c = false) (behind : Blanks b) :
    ∀ x ∈ codeCells (a ++ (s ++ b)), isMark x.char = false := by
  intro x inside
  obtain ⟨c,member,rfl⟩ := List.mem_map.mp inside
  simp only [List.mem_append] at member
  rcases member with before' | here | behind'
  · exact (before.plain c before').mark
  · exact unmarked c here
  · exact (behind.plain c behind').mark

theorem Marked.shiftChain {group : List (List Char)} {rest : List (Shift × List (List Char))}
    {s a : List Char} (marked : Marked Blanks group rest s) (before : Blanks a) :
    ∃ first steps, Script.shiftChain (codeCells (a ++ s)) = ⟨first,steps⟩ ∧
      operandNames? first = some group ∧ steps.mapM groupOf? = some rest := by
  have nothing : Blanks [] := by simp [Blanks]
  induction marked generalizing a with
  | @last group s laid =>
    have cells := unmarked_of_padded before (fun c inside => (laid.unmarked c inside).2) nothing
    have read := operandNames?_of_group before laid nothing
    have chain := shiftChainFrom_unmarked cells 0 []
    rw [List.append_nil] at cells read chain
    rw [List.append_nil] at chain
    refine ⟨_,_,chain,?_,rfl⟩
    simpa [shiftChainFrom] using read
  | @mark group next rest s c b t shift laid before' behind _ ih =>
    obtain ⟨first,steps,chain,read,reads⟩ := ih behind
    have cells := unmarked_of_padded before (fun c inside => (laid.unmarked c inside).2) before'
    have level : depthBehind 0 (codeCells (a ++ (s ++ c))) = 0 := by
      rw [depthBehind_codeCells]
      exact (before.balanced.append (laid.balanced.append before'.balanced)).depthOver 0
    have mark : shiftAt? ⟨shift.char,.code⟩ ⟨shift.char,.code⟩ = some shift :=
      shiftAt?_eq_some.mpr ⟨rfl,rfl,rfl⟩
    have split : codeCells (a ++ (s ++ (c ++ (shift.mark ++ (b ++ t))))) =
        codeCells (a ++ (s ++ c)) ++
          ⟨shift.char,.code⟩ :: ⟨shift.char,.code⟩ :: codeCells (b ++ t) := by
      simp [codeCells,Shift.mark]
    have behindMark : shiftChainFrom 0 (⟨shift.char,.code⟩ :: ⟨shift.char,.code⟩ ::
        codeCells (b ++ t)) = ⟨[],(shift,first) :: steps⟩ := by
      rw [Script.shiftChain] at chain
      simp only [shiftChainFrom,if_true,mark,chain]
      rfl
    have nextRead : groupOf? (shift,first) = some (shift,next) := by
      rw [groupOf?,read]
      rfl
    refine ⟨codeCells (a ++ (s ++ c)),(shift,first) :: steps,?_,
      operandNames?_of_group before laid before',?_⟩
    · rw [Script.shiftChain,split,shiftChainFrom_unmarked cells,level,behindMark,List.append_nil]
    · rw [List.mapM_cons,nextRead,reads]
      rfl

theorem bodyOf?_call (opening : String) (s : List Char) :
    bodyOf? opening (codeCells (opening.toList ++ (s ++ [')']))) = some (codeCells s) := by
  have opens : opening.toList.isPrefixOf (opening.toList ++ (s ++ [')'])) = true := by
    simp
  have inside : (codeCells (opening.toList ++ (s ++ [')']))).drop opening.toList.length =
      codeCells s ++ [⟨')',.code⟩] := by
    rw [codeCells_append,codeCells_append,List.drop_left' (by simp [codeCells])]
    rfl
  rw [bodyOf?,text_codeCells,if_pos opens,inside]
  simp

theorem linkingMethod_cons (shift : Shift) : ∃ more, linkingMethod shift = '.' :: more := by
  cases shift <;> exact ⟨_,rfl⟩

theorem setCall?_call {task : List Char} (identifier : Text.isIdentifier task = true) (shift : Shift)
    (s : List Char) : setCall? (codeCells (task ++ (linkingMethod shift ++ '(' :: (s ++ [')'])))) =
      some (task,shift,codeCells s) := by
  have word : ∀ c ∈ task, Text.isWord c = true := fun c inside =>
    Text.isWord_of_isAsciiWord ((Text.word_of_isIdentifier identifier).2 c inside)
  obtain ⟨more,method⟩ := linkingMethod_cons shift
  have ends : Text.isWord '.' = false := by decide
  have taken := takeWord word ends (more ++ '(' :: (s ++ [')']))
  rw [← List.cons_append,← method] at taken
  simp only [setCall?,taken.1,taken.2,text_codeCells,startsName_of_isIdentifier identifier,if_true]
  cases shift with
  | forward =>
    have spelled : ".set_downstream(".toList = linkingMethod .forward ++ ['('] := by decide
    have body := bodyOf?_call ".set_downstream(" s
    rw [spelled,List.append_assoc,List.singleton_append] at body
    rw [body]
    rfl
  | backward =>
    have spelled : ".set_upstream(".toList = linkingMethod .backward ++ ['('] := by decide
    have body := bodyOf?_call ".set_upstream(" s
    have other : bodyOf? ".set_downstream(" (codeCells (".set_upstream(".toList ++ (s ++ [')']))) =
        none := by
      simp [bodyOf?]
    rw [spelled,List.append_assoc,List.singleton_append] at body other
    rw [body,other]
    rfl

theorem chainCall?_call (s : List Char) :
    chainCall? (codeCells ("chain".toList ++ '(' :: (s ++ [')']))) = some (codeCells s) := by
  have word : ∀ c ∈ "chain".toList, Text.isWord c = true := by decide
  have ends : Text.isWord '(' = false := by decide
  obtain ⟨path,rest⟩ := takePath word ends (by decide) (s ++ [')'])
  have body : bodyOf? "(" (codeCells ('(' :: (s ++ [')']))) = some (codeCells s) :=
    bodyOf?_call "(" s
  have names : segments "chain".toList = ["chain".toList] := segments_word (by decide)
  simp only [chainCall?,path,rest,text_codeCells,names,body]
  rfl

theorem readGroups_of_padded {groups : List (List (List Char))} {parts : List (List Cell)}
    (padded : List.Forall₂ (Padded (Group Blanks)) groups parts) :
    (parts.map fun part => (Shift.forward,part)).mapM groupOf? =
      some (groups.map fun group => (.forward,group)) := by
  induction padded with
  | nil => rfl
  | cons here _ ih =>
    rw [List.map_cons,List.mapM_cons,groupOf?,operandNames?_of_padded here,ih]
    rfl

theorem Marked.begins {group : List (List Char)} {step : Shift × List (List Char)}
    {rest : List (Shift × List (List Char))} {s : List Char}
    (marked : Marked Blanks group (step :: rest) s) : ∃ word c t, s = word ++ c :: t ∧
      (∀ d ∈ word, Text.isAsciiWord d = true) ∧ Text.isWord c = false ∧ c ≠ '.' ∧ c ≠ '(' ∧
        (Text.trimLeft (c :: t)).head? ≠ some '=' := by
  cases marked with
  | @mark _ next _ s a b t shift laid before _ _ =>
    cases laid with
    | one identifier =>
      have sign : shift.char ∈ ['=','<','>'] := by cases shift <;> decide
      obtain ⟨c,more,split,ends,noDot,noParen,trimmed⟩ :=
        exists_behind before sign (shift.char :: (b ++ t))
      refine ⟨s,c,more,?_,(Text.word_of_isIdentifier identifier).2,ends,noDot,noParen,?_⟩
      · rw [← split]
        rfl
      · rw [trimmed]
        cases shift <;> simp [Shift.char]
    | list =>
      have visible : Text.isBlank '[' = false := by decide
      exact ⟨[],'[',_,rfl,by simp,by decide,by decide,by decide,by simp [Text.trimLeft,visible]⟩

theorem head?_of_path {path : List Char} (inPath : ∀ d ∈ path, Text.isWord d = true ∨ d = '.')
    {c d : Char} (apart : c ≠ d) (noWord : Text.isWord d = false) (noDot : d ≠ '.') (t : List Char) :
    (path ++ c :: t).head? ≠ some d := by
  cases path with
  | nil => simpa using apart
  | cons e path =>
    intro same
    obtain rfl : e = d := by simpa using same
    rcases inPath e List.mem_cons_self with word | dot
    · simp [noWord] at word
    · exact noDot dot

theorem Unassigned.noEquals {s : List Char} (unassigned : Unassigned s) : s.head? ≠ some '=' := by
  obtain ⟨path,c,t,rfl,inPath,-,-,noEquals⟩ := unassigned
  refine head?_of_path inPath ?_ (by decide) (by decide) t
  rintro rfl
  have visible : Text.isBlank '=' = false := by decide
  simp [Text.trimLeft,visible] at noEquals

theorem Bare.begins {dep : Dependency} {s : List Char} (bare : Bare Blanks dep s) :
    Unassigned s ∧ s.head? ≠ some '(' := by
  have paren : Text.isWord '(' = false ∧ Text.isBlank '(' = false := by decide
  have ascii {word : List Char} (isWord : ∀ d ∈ word, Text.isAsciiWord d = true) :
      ∀ d ∈ word, Text.isWord d = true ∨ d = '.' := fun d inside =>
    .inl (Text.isWord_of_isAsciiWord (isWord d inside))
  cases bare with
  | marks marked =>
    obtain ⟨word,c,t,rfl,isWord,ends,noDot,noParen,noEquals⟩ := marked.begins
    exact ⟨⟨word,c,t,rfl,ascii isWord,ends,noDot,noEquals⟩,
      head?_of_path (ascii isWord) noParen paren.1 (by decide) t⟩
  | @chain _ t _ =>
    exact ⟨⟨"chain".toList,'(',_,rfl,ascii (by decide),paren.1,by decide,
      by simp [Text.trimLeft,paren.2]⟩,by simp⟩
  | @call task shift _ a s b identifier before laid behind =>
    have word := ascii (Text.word_of_isIdentifier identifier).2
    have method : ∀ d ∈ linkingMethod shift, Text.isWord d = true ∨ d = '.' := by
      cases shift <;> decide
    have inPath := List.forall_mem_append.mpr ⟨word,method⟩
    obtain ⟨more,dot⟩ := linkingMethod_cons shift
    constructor
    · rw [← List.append_assoc]
      exact ⟨_,'(',_,rfl,inPath,paren.1,by decide,by simp [Text.trimLeft,paren.2]⟩
    · rw [dot]
      exact head?_of_path word (by decide) paren.1 (by decide) _

theorem unwrapFrom_bare {s : List Char} (noParen : s.head? ≠ some '(') (n : Nat) :
    unwrapFrom n (codeCells s) = codeCells s := by
  cases n with
  | zero => rfl
  | succ n =>
    cases s with
    | nil => rfl
    | cons c s =>
      have other : c ≠ '(' := by simpa using noParen
      simp [unwrapFrom,codeCells,Cell.isCode,other]

theorem Parenthesized.unwrap {dep : Dependency} {s : List Char} (enclosed : Parenthesized Blanks dep s) :
    ∃ core, Bare Blanks dep core ∧
      ∀ n, s.length ≤ n → unwrapFrom n (codeCells s) = codeCells core := by
  induction enclosed with
  | @bare s bare => exact ⟨s,bare,fun n _ => unwrapFrom_bare bare.begins.2 n⟩
  | @parens a s b before inside behind ih =>
    obtain ⟨core,bare,unwrapped⟩ := ih
    refine ⟨core,bare,fun n enough => ?_⟩
    have whole : '(' :: (a ++ (s ++ (b ++ [')']))) = '(' :: ((a ++ (s ++ b)) ++ [')']) := by simp
    have enclosed := (before.balanced.append (inside.balanced.append behind.balanced)).enclosed?
    have opens : (⟨'(',.code⟩ : Cell).isCode '(' = true := by decide
    cases n with
    | zero => simp at enough
    | succ n =>
      have cells (t : List Char) : codeCells ('(' :: t) = ⟨'(',.code⟩ :: codeCells t := rfl
      rw [← whole,cells] at enclosed
      have once : unwrapFrom (n + 1) (codeCells ('(' :: (a ++ (s ++ (b ++ [')']))))) =
          unwrapFrom n (trimCells (codeCells (a ++ (s ++ b)))) := by
        rw [cells,unwrapFrom]
        simp only [opens,if_true,enclosed]
      rw [once,trimCells_tight before inside.tight behind]
      refine unwrapped n ?_
      simp only [List.length_cons,List.length_append] at enough
      omega

theorem readDependency_bare {statement core : List Char} {dep : Dependency}
    (cells : unwrap (scan (expression statement)) = codeCells core) (bare : Bare Blanks dep core) :
    readDependency statement = .dependency dep := by
  simp only [readDependency,cells]
  cases bare with
  | @marks first step rest _ marked =>
    obtain ⟨word,c,t,split,isWord,ends,noDot,noParen,-⟩ := marked.begins
    obtain ⟨operand,steps,chain,read,reads⟩ := marked.shiftChain (a := []) (by simp [Blanks])
    have isWord' : ∀ d ∈ word, Text.isWord d = true := fun d inside =>
      Text.isWord_of_isAsciiWord (isWord d inside)
    have noCall := setCall?_word isWord' ends noDot t
    have noChain := chainCall?_word isWord' ends noDot (.inr noParen) t
    have some : steps.isEmpty = false := by
      cases steps with
      | nil => simp at reads
      | cons => rfl
    rw [← split] at noCall noChain
    simp only [noCall,noChain]
    rw [List.nil_append] at chain
    simp only [chain,some,readGroups_eq,read,reads]
    rfl
  | @chain groups t listed =>
    have noCall : setCall? (codeCells ("chain".toList ++ '(' :: (t ++ [')']))) = none :=
      setCall?_word (by decide) (by decide) (by decide) _
    simp only [noCall,chainCall?_call]
    have padded := listed.splitTopLevel fun _ _ laid => laid.part
    rw [listed.scan_unquoted fun _ _ laid c inside => (laid.unmarked c inside).1] at padded
    generalize Script.splitTopLevel ',' (codeCells t) = parts at padded ⊢
    cases padded with
    | nil => rfl
    | cons here more =>
      simp only [readGroups_eq,operandNames?_of_padded here,readGroups_of_padded more]
      rfl
  | @call task shift others a s b identifier before laid behind =>
    have whole : a ++ (s ++ (b ++ [')'])) = (a ++ (s ++ b)) ++ [')'] := by simp
    have read := operandNames?_of_group before laid behind
    rw [whole,setCall?_call identifier]
    simp only [read]

theorem Parenthesized.unassigned {dep : Dependency} {s : List Char} (enclosed : Parenthesized Blanks dep s) :
    Unassigned s := by
  cases enclosed with
  | bare bare => exact bare.begins.1
  | parens =>
    have visible : Text.isBlank '(' = false := by decide
    exact ⟨[],'(',_,rfl,by simp,by decide,by decide,by simp [Text.trimLeft,visible]⟩

/-- A layout on one line reads as what is laid out. -/
theorem Layout.readDependency {dep : Dependency} {s : List Char} (layout : Layout Blanks dep s) :
    Airflow.readDependency s = .dependency dep := by
  have read {a s : List Char} (before : Blanks a) (enclosed : Parenthesized Blanks dep s) :
      ∃ core, Bare Blanks dep core ∧ Script.unwrap (scan (a ++ s)) = codeCells core := by
    obtain ⟨core,bare,unwrapped⟩ := enclosed.unwrap
    have trimmed := trimCells_tight before enclosed.tight (b := []) (by simp [Blanks])
    rw [List.append_nil] at trimmed
    refine ⟨core,bare,?_⟩
    rw [scan_of_unquoted (List.forall_mem_append.mpr ⟨before.noQuote,enclosed.noQuote⟩),Script.unwrap,trimmed]
    exact unwrapped _ (by simp [codeCells])
  cases layout with
  | alone enclosed =>
    obtain ⟨core,bare,cells⟩ := read (a := []) (by simp [Blanks]) enclosed
    exact readDependency_bare (by rw [enclosed.unassigned.expression]; exact cells) bare
  | @assigned target a b s starts path before behind enclosed =>
    obtain ⟨core,bare,cells⟩ := read behind enclosed
    have single : (b ++ s).head? ≠ some '=' := by
      cases b with
      | nil => exact enclosed.unassigned.noEquals
      | cons c b =>
        intro same
        obtain rfl : c = '=' := by simpa using same
        exact absurd (behind '=' List.mem_cons_self) (by decide)
    exact readDependency_bare (by rw [expression_assigned starts path before single]; exact cells) bare

end PipelineAtlas.Airflow

import PipelineAtlas.Proofs.Airflow.Marked

/-! Statements that begin or end with a mark, as they are left where a line ends beside the mark and
is not continued. They make no sense. -/
namespace PipelineAtlas.Airflow

open Script

/-- What may be left of a gap: white space, and backslashes that join no lines. -/
def Remnant (s : List Char) : Prop := ∀ c ∈ s, Text.isBlank c = true ∨ c = '\\'

theorem Remnant.apart {s : List Char} (remnant : Remnant s) {c : Char}
    (visible : Text.isBlank c = false) (noSlash : c ≠ '\\') : c ∉ s := by
  intro inside
  rcases remnant c inside with blank | slash
  · simp [visible] at blank
  · exact noSlash slash

theorem Remnant.noMark {s : List Char} (remnant : Remnant s) (shift : Shift) : shift.char ∉ s :=
  remnant.apart (isBlank_of_isMark shift.isMark_char) (by cases shift <;> decide)

theorem not_remnant_of_operand {cells : List Cell} {names : List (List Char)}
    (read : operandNames? cells = some names) : ¬ Remnant (text cells) := by
  intro remnant
  obtain ⟨front,back,split,-,-⟩ := trimCells_split cells
  have part : ∀ c ∈ text (trimCells cells), c ∈ text cells := by
    intro c inside
    rw [split,text_append,text_append]
    exact List.mem_append_right _ (List.mem_append_left _ inside)
  rcases operandNames?_cases read with ⟨identifier,-⟩ | ⟨x,y,inside,opens,-,whole,-⟩
  · obtain ⟨nonempty,word⟩ := Text.word_of_isIdentifier identifier
    obtain ⟨c,more,begins⟩ := List.exists_cons_of_ne_nil nonempty
    have first : c ∈ text (trimCells cells) := by simp [begins]
    have isWord := word c first
    exact remnant.apart (Text.isBlank_of_isAsciiWord isWord)
      (Text.ne_of_isAsciiWord isWord (by decide)) (part c first)
  · refine remnant.apart (c := '[') (by decide) (by decide) (part '[' ?_)
    rw [whole,text_cons,opens]
    exact List.mem_cons_self

theorem depthBehind_codeCells (depth : Nat) (s : List Char) :
    depthBehind depth (codeCells s) = depthOver depth s := by
  induction s generalizing depth with
  | nil => rfl
  | cons c s ih =>
    have step : (⟨c,.code⟩ : Cell).depthAfter depth = depthOver depth [c] := by
      simp [Cell.depthAfter,Cell.opens,Cell.closes,Cell.isCode,depthOver,or_assoc]
    calc depthBehind depth (codeCells (c :: s))
      _ = depthBehind ((⟨c,.code⟩ : Cell).depthAfter depth) (codeCells s) := rfl
      _ = depthOver (depthOver depth [c]) s := by rw [ih,step]
      _ = depthOver depth (c :: s) := rfl

theorem eq_codeCells {cells : List Cell} (code : ∀ x ∈ cells, x.role = .code) :
    cells = codeCells (text cells) := by
  induction cells with
  | nil => rfl
  | cons x cells ih =>
    obtain ⟨c,role⟩ := x
    obtain rfl : role = .code := code ⟨c,role⟩ List.mem_cons_self
    exact congrArg _ (ih fun y inside => code y (List.mem_cons_of_mem _ inside))

theorem not_nested {cells : List Cell} (code : ∀ x ∈ cells, x.role = .code) {front back : List Char}
    {s : Shift} (whole : text cells = front ++ (s.mark ++ back)) (level : depthOver 0 front = 0) :
    ¬ Nested cells := by
  intro nested
  refine nested (codeCells front) ⟨s.char,.code⟩ ⟨s.char,.code⟩ (codeCells back) ?_ s
    (shiftAt?_eq_some.mpr ⟨rfl,rfl,rfl⟩) (by rw [depthBehind_codeCells,level])
  rw [eq_codeCells code,whole,codeCells_append,codeCells_append]
  rfl

theorem Remnant.unmarked {s : List Char} (remnant : Remnant s) : ∀ c ∈ s, isMark c = false := by
  intro c inside
  rcases remnant c inside with blank | rfl
  · cases mark : isMark c with
    | true => simp [isBlank_of_isMark mark] at blank
    | false => rfl
  · rfl

/-- A mark at one end of what is read as a chain lacks an operand. -/
theorem not_remnant_of_chain {first : List Cell} {rest : List (Shift × List Cell)}
    {firsts : List (List Char)} {others : List (Shift × List (List Char))}
    (readFirst : operandNames? first = some firsts) (readOthers : rest.mapM groupOf? = some others)
    {front back : List Char} {s : Shift}
    (whole : (⟨first,rest⟩ : ShiftChain).text = front ++ (s.mark ++ back)) :
    ¬ Remnant front ∧ ¬ Remnant back := by
  have unmarked : s.char ∉ text first := fun inside => by
    simpa [s.isMark_char] using isMark_of_operand readFirst _ inside
  constructor
  · intro remnant
    obtain ⟨more,begins,behind⟩ := split_at_prefix remnant.unmarked (isMark_of_head rest) whole
    cases more with
    | nil =>
      rw [List.append_nil] at begins
      exact not_remnant_of_operand readFirst (begins ▸ remnant)
    | cons c more =>
      obtain ⟨rfl,-⟩ := List.cons.inj behind
      exact unmarked (by simp [begins])
  · intro remnant
    rcases List.eq_nil_or_concat rest with rfl | ⟨steps,⟨t,last⟩,rfl⟩
    · refine unmarked ?_
      have single : text first = (⟨first,[]⟩ : ShiftChain).text := by simp [ShiftChain.text]
      rw [single,whole]
      simp [Shift.mark]
    · obtain ⟨names,readLast⟩ := operands_of_mapM readOthers (t,last) (by simp)
      have absent : s.char ∉ text last := fun inside => by
        simpa [s.isMark_char] using isMark_of_operand readLast _ inside
      have same : (⟨first,steps ++ [(t,[])]⟩ : ShiftChain).text ++ text last =
          (front ++ [s.char]) ++ s.char :: back := by
        simpa [ShiftChain.text,Shift.mark,text] using whole
      obtain ⟨between,-,rfl⟩ := split_before_word absent same
      exact not_remnant_of_operand readLast fun c inside => remnant c (List.mem_append_right _ inside)

theorem code_of_trimCells {cells : List Cell} (code : ∀ x ∈ cells, x.role = .code) :
    ∀ x ∈ trimCells cells, x.role = .code := by
  intro x inside
  obtain ⟨front,back,split,-,-⟩ := trimCells_split cells
  exact code x (by rw [split]; simp [inside])

theorem code_of_unwrap {cells : List Cell} (code : ∀ x ∈ cells, x.role = .code) :
    ∀ x ∈ unwrap cells, x.role = .code := by
  intro x inside
  obtain ⟨a,b,split,-⟩ := unwrap_split cells
  exact code x (by rw [split]; simp [inside])

theorem scan_code {s : List Char} (noQuote : ∀ c ∈ s, isQuote c = false) :
    ∀ x ∈ scan s, x.role = .code := by
  have plain : s.all (isPlain false) = true := by
    rw [List.all_eq_true]
    exact fun c inside => by simp [isPlain,noQuote c inside]
  rw [scan_plain plain]
  intro x inside
  obtain ⟨c,-,rfl⟩ := List.mem_map.mp inside
  rfl

theorem unwrap_of_last {cells : List Cell} (last : ∀ x ∈ (trimCells cells).getLast?, x.closes = false) :
    unwrap cells = trimCells cells := by
  unfold unwrap
  generalize trimCells cells = trimmed at last
  cases cells.length with
  | zero => rfl
  | succ n =>
    unfold unwrapFrom
    split
    next => rfl
    next x rest =>
      split
      next =>
        split
        next inside closed =>
          obtain ⟨x',y,-,closes,whole⟩ := enclosed?_split closed
          have final := last y (by rw [whole]; simp [List.getLast?_cons])
          simp [closes] at final
        next => rfl
      next => rfl

/-- A mark outside all brackets has operands on both sides where a statement makes sense. -/
theorem Sense.not_remnant {cells : List Cell} {r : Reading} (sense : Sense cells r)
    (code : ∀ x ∈ cells, x.role = .code) {front back : List Char} {s : Shift}
    (whole : text cells = front ++ (s.mark ++ back)) (level : depthOver 0 front = 0) :
    ¬ Remnant front ∧ ¬ Remnant back := by
  cases sense with
  | call unmarked =>
    have mark : s.char ∈ text cells := by
      rw [whole]
      simp [Shift.mark]
    simpa [s.isMark_char] using unmarked _ mark
  | other reads nested => exact absurd nested (not_nested code whole level)
  | chain firsts others reads readFirst readOthers =>
    exact not_remnant_of_chain readFirst readOthers ((text_shiftChainFrom 0 cells).trans whole)

theorem Remnant.notMem_brackets {s : List Char} (remnant : Remnant s) : ∀ c ∈ s, c ∉ brackets := by
  intro c inside bracket
  have all : ∀ d ∈ brackets, Text.isBlank d = false ∧ d ≠ '\\' := by decide
  exact remnant.apart (all c bracket).1 (all c bracket).2 inside

theorem Remnant.level {s : List Char} (remnant : Remnant s) (depth : Nat) :
    depthOver depth s = depth := depthOver_level remnant.notMem_brackets depth

theorem depthOver_mark (s : Shift) (depth : Nat) : depthOver depth s.mark = depth := by
  cases s <;> rfl

theorem Shift.mem_mark_ends (s : Shift) : (∀ c ∈ s.mark.head?, c = s.char) ∧
    ∀ c ∈ s.mark.getLast?, c = s.char := by
  cases s <;> simp [Shift.mark]

theorem split_within_mark {front back p inner q : List Char} {s : Shift}
    (before : s.char ∉ p) (behind : s.char ∉ q)
    (same : front ++ (s.mark ++ back) = p ++ (inner ++ q)) :
    ∃ front' back', front = p ++ front' ∧ back = back' ++ q ∧
      inner = front' ++ (s.mark ++ back') := by
  refine split_within (fun c first => ?_) (fun c last => ?_) (by simp [Shift.mark]) same
  · rwa [(Shift.mem_mark_ends s).1 c first]
  · rwa [(Shift.mem_mark_ends s).2 c last]

theorem not_makesSense_of_begins {remnant rest : List Char} {s : Shift} (left : Remnant remnant)
    (noQuote : ∀ c ∈ remnant ++ (s.mark ++ rest), isQuote c = false) :
    (readDependency (remnant ++ (s.mark ++ rest))).makesSense = false := by
  rw [Bool.eq_false_iff]
  intro sense
  obtain ⟨target,front,rfl,assigned,assigns,-⟩ :=
    expression_mark remnant s rest
  have noTarget : target = [] := by
    refine assigns.resolve_right ?_
    rintro ⟨name,rfl⟩
    exact left.apart (c := '=') (by decide) (by decide) (by simp)
  subst noTarget
  have reads := sense_of_makesSense sense
  rw [assigned] at reads
  obtain ⟨a,b,split,taken⟩ := unwrap_split (scan (front ++ (s.mark ++ rest)))
  have texts := congrArg text split
  rw [text_append,text_append,scan,text_scanFrom,← scan] at texts
  have absent {cells : List Cell} (sub : ∀ x ∈ cells, x ∈ a ++ b) : s.char ∉ text cells := by
    intro inside
    obtain ⟨x,held,same⟩ := List.mem_map.mp inside
    have noMark := (taken_char (taken x (sub x held))).2
    simp [same,s.isMark_char] at noMark
  obtain ⟨front,back,rfl,-,inside⟩ := split_within_mark
    (absent fun x inside => List.mem_append_left b inside)
    (absent fun x inside => List.mem_append_right a inside) texts
  have remnant' : Remnant front := fun c held => left c (List.mem_append_right (text a) held)
  exact (reads.not_remnant (code_of_unwrap (scan_code noQuote)) inside (remnant'.level 0)).1 remnant'

theorem not_makesSense_of_ends {front remnant : List Char} {s : Shift} (right : Remnant remnant)
    (closed : depthOver 0 (front ++ (s.mark ++ remnant)) = 0)
    (noQuote : ∀ c ∈ front ++ (s.mark ++ remnant), isQuote c = false) :
    (readDependency (front ++ (s.mark ++ remnant))).makesSense = false := by
  rw [Bool.eq_false_iff]
  intro sense
  obtain ⟨target,front,rfl,assigned,-,inTarget⟩ :=
    expression_mark front s remnant
  have reads := sense_of_makesSense sense
  rw [assigned] at reads
  obtain ⟨before,behind,split,blank,blank'⟩ := trimCells_split (scan (front ++ (s.mark ++ remnant)))
  have texts := congrArg text split
  rw [text_append,text_append,scan,text_scanFrom,← scan] at texts
  have absent {cells : List Cell} (blank : ∀ x ∈ cells, Text.isBlank x.char = true) :
      s.char ∉ text cells := by
    intro inside
    obtain ⟨x,held,same⟩ := List.mem_map.mp inside
    have visible := isBlank_of_isMark s.isMark_char
    simp [← same,blank x held] at visible
  obtain ⟨front',back,rfl,rfl,inside⟩ := split_within_mark (absent blank) (absent blank') texts
  have remnant' : Remnant back := fun c inside => right c (List.mem_append_left _ inside)
  have noBracket : ∀ x ∈ (trimCells (scan (text before ++ front' ++
      (s.mark ++ (back ++ text behind))))).getLast?, x.closes = false := by
    intro x last
    rw [Bool.eq_false_iff]
    intro closes
    have final : x.char ∈ (text (trimCells (scan (text before ++ front' ++
        (s.mark ++ (back ++ text behind)))))).getLast? := by
      rw [text,List.getLast?_map,Option.mem_def.mp last]
      rfl
    rw [inside] at final
    rcases List.mem_append.mp (mem_of_getLast (by simp [Shift.mark]) final) with mark | held
    · have noMark := (taken_char (.inr (.inr closes))).2
      have same : x.char = s.char := by simpa [Shift.mark] using mark
      simp [same,s.isMark_char] at noMark
    · exact remnant'.notMem_brackets _ held (char_of_bracket (.inr closes))
  rw [unwrap_of_last noBracket] at reads
  refine (reads.not_remnant (code_of_trimCells (scan_code ?_)) inside ?_).2 remnant'
  · intro c held
    exact noQuote c (by rw [List.append_assoc]; exact List.mem_append_right target held)
  · have levelTarget : depthOver 0 target = 0 := by
      refine depthOver_level (fun c held bracket => ?_) 0
      have all : ∀ c ∈ brackets,
          Text.isWord c = false ∧ c ∉ ['.','='] ∧ Text.isBlank c = false := by decide
      obtain ⟨noWord,noDot,visible⟩ := all c bracket
      rcases inTarget c held with word | dot | blank
      · simp [noWord] at word
      · exact noDot dot
      · simp [visible] at blank
    have levelBlank {cells : List Cell} (blank : ∀ x ∈ cells, Text.isBlank x.char = true)
        (depth : Nat) : depthOver depth (text cells) = depth := by
      refine Remnant.level (fun c held => ?_) depth
      obtain ⟨x,member,rfl⟩ := List.mem_map.mp held
      exact .inl (blank x member)
    simpa only [depthOver_append,levelTarget,levelBlank blank,levelBlank blank',depthOver_mark,
      remnant'.level] using closed

end PipelineAtlas.Airflow

import PipelineAtlas.Proofs.Airflow.Effect
import PipelineAtlas.Proofs.Script.Mark
import PipelineAtlas.Proofs.Text.Word

/-! Operands of dependencies. They hold no marks, so that a mark between two names stands between
the operands that are these names. -/
namespace PipelineAtlas.Airflow

open Script

theorem isMark_of_isAsciiWord {c : Char} (word : Text.isAsciiWord c = true) : isMark c = false := by
  have left := Text.ne_of_isAsciiWord (d := '<') word (by decide)
  have right := Text.ne_of_isAsciiWord (d := '>') word (by decide)
  simp [isMark,left,right]

theorem isBlank_of_isMark {c : Char} (mark : isMark c = true) : Text.isBlank c = false := by
  simp only [isMark,Bool.or_eq_true,beq_iff_eq] at mark
  rcases mark with rfl | rfl <;> decide

theorem listBody?_split {cells inside : List Cell} (body : listBody? cells = some inside) :
    ∃ x y : Cell, x.char = '[' ∧ y.char = ']' ∧ cells = x :: (inside ++ [y]) := by
  cases cells with
  | nil => simp [listBody?] at body
  | cons x rest =>
    simp only [listBody?] at body
    split at body
    next brackets =>
      simp only [Bool.and_eq_true,decide_eq_true_eq,beq_iff_eq] at brackets
      obtain ⟨opens,closes⟩ := brackets
      obtain ⟨y,last,closes⟩ := Option.map_eq_some_iff.mp closes
      obtain rfl := Option.some.inj body
      refine ⟨x,y,opens,closes,?_⟩
      rw [List.dropLast_append_getLast? y last]
    next => simp at body

theorem operandNames?_cases {cells : List Cell} {names : List (List Char)}
    (read : operandNames? cells = some names) :
    (Text.isIdentifier (text (trimCells cells)) = true ∧ names = [text (trimCells cells)]) ∨
      ∃ x y inside, x.char = '[' ∧ y.char = ']' ∧ trimCells cells = x :: (inside ++ [y]) ∧
        (∀ part ∈ splitTopLevel ',' inside, Text.isIdentifier (text (trimCells part)) = true) ∧
        names = (splitTopLevel ',' inside).map fun part => text (trimCells part) := by
  simp only [operandNames?] at read
  split at read
  next identifier => exact .inl ⟨identifier,(Option.some.inj read).symm⟩
  next =>
    split at read
    next inside body =>
      split at read
      next names =>
        obtain ⟨x,y,opens,closes,whole⟩ := listBody?_split body
        refine .inr ⟨x,y,inside,opens,closes,whole,fun part member => ?_,(Option.some.inj read).symm⟩
        exact List.all_eq_true.mp names _ (List.mem_map_of_mem member)
      next => simp at read
    next => simp at read

theorem char_of_operand {cells : List Cell} {names : List (List Char)}
    (read : operandNames? cells = some names) : ∀ c ∈ text cells,
      Text.isBlank c = true ∨ Text.isAsciiWord c = true ∨ c ∈ ['[',',',']'] := by
  intro c member
  obtain ⟨x,inside,rfl⟩ := List.mem_map.mp member
  cases blank : Text.isBlank x.char with
  | true => exact .inl rfl
  | false =>
    right
    have word {part : List Cell} (member : x ∈ part)
        (identifier : Text.isIdentifier (text (trimCells part)) = true) :
        Text.isAsciiWord x.char = true :=
      (Text.word_of_isIdentifier identifier).2 _ (List.mem_map_of_mem (mem_trimCells member blank))
    rcases operandNames?_cases read with ⟨identifier,-⟩ | ⟨y,z,body,opens,closes,whole,names,-⟩
    · exact .inl (word inside identifier)
    · have trimmed := mem_trimCells inside blank
      rw [whole,List.mem_cons,List.mem_append,List.mem_singleton] at trimmed
      rcases trimmed with rfl | held | rfl
      · simp [opens]
      · cases comma : x.isCode ',' with
        | true =>
          simp only [Cell.isCode,Bool.and_eq_true,beq_iff_eq] at comma
          simp [comma.2]
        | false =>
          obtain ⟨part,member,held⟩ := mem_splitTopLevel held comma blank
          exact .inl (word held (names part member))
      · simp [closes]

theorem isMark_of_operand {cells : List Cell} {names : List (List Char)}
    (read : operandNames? cells = some names) : ∀ c ∈ text cells, isMark c = false := by
  intro c member
  rcases char_of_operand read c member with blank | word | bracket
  · cases mark : isMark c with
    | true => simp [isBlank_of_isMark mark] at blank
    | false => rfl
  · exact isMark_of_isAsciiWord word
  · have plain : ∀ d ∈ ['[',',',']'], isMark d = false := by decide
    exact plain c bracket

theorem split_behind {p front rest more : List Char} {c : Char} (absent : c ∉ p)
    (same : front ++ c :: more = p ++ rest) : ∃ between, front = p ++ between ∧
      rest = between ++ c :: more := by
  rcases List.append_eq_append_iff.mp same with ⟨surplus,begins,ends⟩ | ⟨surplus,begins,ends⟩
  · cases surplus with
    | nil => exact ⟨[],by simpa using begins.symm,by simpa using ends.symm⟩
    | cons d surplus =>
      obtain ⟨rfl,-⟩ := List.cons.inj ends
      exact absurd (by simp [begins]) absent
  · exact ⟨surplus,begins,ends⟩

theorem split_within {front back p inner q : List Char} {core : List Char}
    (first : ∀ c ∈ core.head?, c ∉ p) (last : ∀ c ∈ core.getLast?, c ∉ q) (nonempty : core ≠ [])
    (same : front ++ (core ++ back) = p ++ (inner ++ q)) :
    ∃ front' back', front = p ++ front' ∧ back = back' ++ q ∧ inner = front' ++ (core ++ back') := by
  obtain ⟨c,more,begins⟩ := List.exists_cons_of_ne_nil nonempty
  obtain ⟨most,d,ends⟩ := (List.eq_nil_or_concat core).resolve_left nonempty
  have apart : c ∉ p := first c (by simp [begins])
  have apart' : d ∉ q := last d (by simp [ends])
  obtain ⟨front',rfl,rest⟩ : ∃ between, front = p ++ between ∧
      inner ++ q = between ++ c :: (more ++ back) :=
    split_behind apart (by rw [← same,begins]; rfl)
  have spelled : c :: (more ++ back) = most ++ d :: back := by
    rw [← List.cons_append,← begins,ends,List.concat_eq_append,List.append_assoc]
    rfl
  rw [spelled,← List.append_assoc] at rest
  obtain ⟨back',rfl,rfl⟩ := split_before_word apart' rest
  exact ⟨front',back',rfl,rfl,by simp [ends]⟩

/-- A name with other characters around it, if any. -/
structure IsName (front word back : List Char) : Prop where
  identifier : Text.isIdentifier word = true
  left : ∀ c ∈ front.getLast?, Text.isAsciiWord c = false
  right : ∀ c ∈ back.head?, Text.isAsciiWord c = false

namespace IsName

variable {front word back : List Char} (isName : IsName front word back)

include isName

theorem isWord : ∀ c ∈ word, Text.isAsciiWord c = true :=
  (Text.word_of_isIdentifier isName.identifier).2

theorem nonempty : word ≠ [] := (Text.word_of_isIdentifier isName.identifier).1

theorem apart {s : List Char} (noWord : ∀ c ∈ s, Text.isAsciiWord c = false) :
    (∀ c ∈ word.head?, c ∉ s) ∧ ∀ c ∈ word.getLast?, c ∉ s := by
  have absent : ∀ c ∈ word, c ∉ s := fun c inside member => by
    simpa [isName.isWord c inside] using noWord c member
  exact ⟨fun c first => absent c (List.mem_of_mem_head? first),
    fun c last => absent c (List.mem_of_mem_getLast? last)⟩

theorem eq_of_word (word' : ∀ c ∈ front ++ (word ++ back), Text.isAsciiWord c = true) :
    front = [] ∧ back = [] := by
  constructor
  · cases last : front.getLast? with
    | none => exact List.getLast?_eq_none_iff.mp last
    | some c =>
      have inside := word' c (List.mem_append_left _ (List.mem_of_getLast? last))
      simp [isName.left c last] at inside
  · cases first : back.head? with
    | none => exact List.head?_eq_none_iff.mp first
    | some c =>
      have inside := word' c (by simp [List.mem_of_mem_head? first])
      simp [isName.right c first] at inside

end IsName

theorem noWord_of_isBlank {s : List Char} (blank : ∀ c ∈ s, Text.isBlank c = true) :
    ∀ c ∈ s, Text.isAsciiWord c = false := by
  intro c inside
  cases word : Text.isAsciiWord c with
  | true => simpa [Text.isBlank_of_isAsciiWord word] using blank c inside
  | false => rfl

theorem mem_of_head {a b : List α} {x : α} (nonempty : a ≠ []) (first : (a ++ b).head? = some x) :
    x ∈ a := by
  cases a with
  | nil => exact absurd rfl nonempty
  | cons y a => exact List.mem_cons.mpr (.inl (Option.some.inj first).symm)

theorem mem_of_getLast {a b : List α} {x : α} (nonempty : b ≠ [])
    (last : (a ++ b).getLast? = some x) : x ∈ b := by
  rw [← List.head?_reverse,List.reverse_append] at last
  exact List.mem_reverse.mp (mem_of_head (by simpa using nonempty) last)

theorem operandNames?_isName {cells : List Cell} {names : List (List Char)}
    {front word back : List Char} (read : operandNames? cells = some names)
    (isName : IsName front word back) (whole : text cells = front ++ (word ++ back))
    (alone : (∀ c ∈ front, Text.isBlank c = true) ∨ ∀ c ∈ back, Text.isBlank c = true) :
    names = [word] := by
  obtain ⟨p,q,split,before,behind⟩ := trimCells_split cells
  have blank {cells : List Cell} (blank : ∀ x ∈ cells, Text.isBlank x.char = true) :
      ∀ c ∈ text cells, Text.isBlank c = true := by
    intro c inside
    obtain ⟨x,held,rfl⟩ := List.mem_map.mp inside
    exact blank x held
  have same : front ++ (word ++ back) = text p ++ (text (trimCells cells) ++ text q) := by
    rw [← whole,← text_append,← text_append,← split]
  obtain ⟨front',back',rfl,rfl,trimmed⟩ := split_within
    (isName.apart (noWord_of_isBlank (blank before))).1
    (isName.apart (noWord_of_isBlank (blank behind))).2 isName.nonempty same
  have isName' : IsName front' word back' :=
    ⟨isName.identifier,fun c last => isName.left c (mem_getLast?_append _ last),
      fun c first => isName.right c (mem_head?_append _ first)⟩
  rcases operandNames?_cases read with ⟨identifier,rfl⟩ | ⟨x,y,inside,opens,closes,body,-⟩
  · have isWord := (Text.word_of_isIdentifier identifier).2
    rw [trimmed] at isWord
    obtain ⟨rfl,rfl⟩ := isName'.eq_of_word isWord
    rw [trimmed,List.nil_append,List.append_nil]
  · exfalso
    rw [body] at trimmed
    rcases alone with frontBlank | backBlank
    · have first : '[' ∈ front' ++ word := by
        refine mem_of_head (b := back') (by simp [isName.nonempty]) ?_
        rw [List.append_assoc,← trimmed,text_cons,opens]
        rfl
      rcases List.mem_append.mp first with blank | inWord
      · exact absurd (frontBlank '[' (List.mem_append_right _ blank)) (by decide)
      · exact absurd (isName.isWord '[' inWord) (by decide)
    · have last : ']' ∈ word ++ back' := by
        refine mem_of_getLast (a := front') (by simp [isName.nonempty]) ?_
        have ends : text (x :: (inside ++ [y])) = (x.char :: text inside) ++ [']'] := by
          simp [text,closes]
        rw [← trimmed,ends,List.getLast?_concat]
      rcases List.mem_append.mp last with inWord | blank
      · exact absurd (isName.isWord ']' inWord) (by decide)
      · exact absurd (backBlank ']' (List.mem_append_left _ blank)) (by decide)

def groupOf? (x : Shift × List Cell) : Option (Shift × List (List Char)) :=
  (operandNames? x.2).map fun names => (x.1,names)

theorem readGroups_eq (first : List Cell) (rest : List (Shift × List Cell)) :
    readGroups first rest = (operandNames? first).bind fun first =>
      (rest.mapM groupOf?).bind fun rest => some (.groups first rest) := rfl

theorem readGroups_eq_some {first : List Cell} {rest : List (Shift × List Cell)}
    {dep : Dependency} (read : readGroups first rest = some dep) : ∃ firsts others,
      operandNames? first = some firsts ∧ rest.mapM groupOf? = some others ∧
        dep = .groups firsts others := by
  rw [readGroups_eq] at read
  obtain ⟨firsts,readFirst,further⟩ := Option.bind_eq_some_iff.mp read
  obtain ⟨others,readOthers,same⟩ := Option.bind_eq_some_iff.mp further
  exact ⟨firsts,others,readFirst,readOthers,(Option.some.inj same).symm⟩

theorem groupOf?_cons {s : Shift} {next : List Cell} {rest : List (Shift × List Cell)}
    {others : List (Shift × List (List Char))}
    (read : ((s,next) :: rest).mapM groupOf? = some others) : ∃ names more,
      operandNames? next = some names ∧ rest.mapM groupOf? = some more ∧
        others = (s,names) :: more := by
  rw [List.mapM_cons] at read
  obtain ⟨_,readStep,readSteps⟩ := Option.bind_eq_some_iff.mp read
  obtain ⟨names,readNext,rfl⟩ := Option.map_eq_some_iff.mp readStep
  obtain ⟨more,readRest,same⟩ := Option.bind_eq_some_iff.mp readSteps
  exact ⟨names,more,readNext,readRest,(Option.some.inj same).symm⟩

theorem operands_of_mapM {rest : List (Shift × List Cell)}
    {others : List (Shift × List (List Char))} (read : rest.mapM groupOf? = some others) :
    ∀ step ∈ rest, ∃ names, operandNames? step.2 = some names := by
  induction rest generalizing others with
  | nil => simp
  | cons step rest ih =>
    obtain ⟨names,more,readNext,readRest,-⟩ := groupOf?_cons read
    exact List.forall_mem_cons.mpr ⟨⟨names,readNext⟩,ih readRest⟩

/-- Two names with a mark between them. -/
structure MarkedPair where
  left : List Char
  gap : List Char
  shift : Shift
  gap' : List Char
  right : List Char

namespace MarkedPair

def text (p : MarkedPair) : List Char :=
  (p.left ++ p.gap) ++ (p.shift.mark ++ (p.gap' ++ p.right))

def link (p : MarkedPair) : Link := Link.along p.left p.right p.shift

/-- There is white space only around the mark. -/
structure Valid (p : MarkedPair) : Prop where
  left : Text.isIdentifier p.left = true
  right : Text.isIdentifier p.right = true
  gap : ∀ c ∈ p.gap, Text.isBlank c = true
  gap' : ∀ c ∈ p.gap', Text.isBlank c = true

/-- The names are no parts of longer ones. -/
def WrittenIn (p : MarkedPair) (s : List Char) : Prop :=
  ∃ front back, s = front ++ (p.text ++ back) ∧ (∀ c ∈ front.getLast?, Text.isAsciiWord c = false) ∧
    ∀ c ∈ back.head?, Text.isAsciiWord c = false

theorem text_append (p : MarkedPair) (back : List Char) : p.text ++ back =
    (p.left ++ p.gap) ++ (p.shift.mark ++ ((p.gap' ++ p.right) ++ back)) := by
  simp [text]

theorem Valid.unmarked {p : MarkedPair} (valid : p.Valid) :
    (∀ c ∈ p.left ++ p.gap, isMark c = false) ∧ ∀ c ∈ p.gap' ++ p.right, isMark c = false := by
  have unmarked {word gap : List Char} (identifier : Text.isIdentifier word = true)
      (blank : ∀ c ∈ gap, Text.isBlank c = true) : ∀ c, c ∈ word ∨ c ∈ gap → isMark c = false := by
    rintro c (inWord | inGap)
    · exact isMark_of_isAsciiWord ((Text.word_of_isIdentifier identifier).2 c inWord)
    · cases mark : isMark c with
      | true => simpa [isBlank_of_isMark mark] using blank c inGap
      | false => rfl
  exact ⟨fun c inside => unmarked valid.left valid.gap c (List.mem_append.mp inside),
    fun c inside => unmarked valid.right valid.gap' c (List.mem_append.mp inside).symm⟩

end MarkedPair

/-- A pair in the text of a readable chain is linked: what stands around its mark are operands. -/
theorem mem_chainLinks {p : MarkedPair} (valid : p.Valid) {first : List Cell}
    {rest : List (Shift × List Cell)} {firsts : List (List Char)}
    {others : List (Shift × List (List Char))} (readFirst : operandNames? first = some firsts)
    (readOthers : rest.mapM groupOf? = some others)
    (written : p.WrittenIn (⟨first,rest⟩ : ShiftChain).text) :
    p.link ∈ chainLinks firsts others := by
  have nonempty : p.left ++ p.gap ≠ [] := by
    simp [(Text.word_of_isIdentifier valid.left).1]
  obtain ⟨front,back,whole,boundLeft,boundRight⟩ := written
  rw [p.text_append] at whole
  induction rest generalizing first firsts others front with
  | nil =>
    have mark : p.shift.char ∈ text first := by
      have single : text first = (⟨first,[]⟩ : ShiftChain).text := by simp [ShiftChain.text]
      rw [single,whole]
      simp [Shift.mark]
    simpa [p.shift.isMark_char] using isMark_of_operand readFirst _ mark
  | cons step rest ih =>
    obtain ⟨s,next⟩ := step
    obtain ⟨names,others,readNext,readRest,rfl⟩ := groupOf?_cons readOthers
    have chain : (⟨first,(s,next) :: rest⟩ : ShiftChain).text =
        text first ++ (s.mark ++ (⟨next,rest⟩ : ShiftChain).text) := by
      simp [ShiftChain.text]
    rw [chain] at whole
    -- the mark of the pair is the first mark of the chain, or stands in the rest of it
    rcases split_at_mark (isMark_of_operand readFirst) valid.unmarked.1 nonempty whole with
      ⟨here,rfl,behind⟩ | ⟨between,rfl,behind⟩
    · have leftName : firsts = [p.left] := by
        refine operandNames?_isName readFirst ⟨valid.left,boundLeft,?_⟩ here (.inr valid.gap)
        exact fun c first => noWord_of_isBlank valid.gap c (List.mem_of_mem_head? first)
      obtain ⟨more,nextText,rfl⟩ := split_at_prefix valid.unmarked.2 (isMark_of_head rest) behind
      have rightName : names = [p.right] := by
        rw [List.append_assoc] at nextText
        refine operandNames?_isName readNext ⟨valid.right,?_,?_⟩ nextText (.inl valid.gap')
        · exact fun c last => noWord_of_isBlank valid.gap' c (List.mem_of_mem_getLast? last)
        · exact fun c head => boundRight c (mem_head?_append _ head)
      subst leftName rightName
      exact List.mem_append_left _ (mem_groupLinks.mpr ⟨_,by simp,_,by simp,rfl⟩)
    · refine List.mem_append_right _ (ih readNext readRest between behind ?_)
      exact fun c last => boundLeft c (mem_getLast?_append _ (mem_getLast?_append _ last))

end PipelineAtlas.Airflow

import PipelineAtlas.Proofs.Airflow.Dependency
import PipelineAtlas.Proofs.Airflow.Operand
import PipelineAtlas.Proofs.Script.Statement

/-! How a statement with a mark reads. A mark that no bracket encloses makes it a dependency or an
error; inside brackets a mark is not seen, and the statement is passed over if all marks are there. -/
namespace PipelineAtlas.Airflow

open Script

theorem expression_split (s : List Char) : expression s = s ∨
    ∃ target, s = target ++ '=' :: expression s ∧
      ∀ c ∈ target, Text.isWord c = true ∨ c = '.' ∨ Text.isBlank c = true := by
  simp only [expression]
  let inTarget : Char → Bool := fun c => Text.isWord c || c == '.'
  split
  next rest behind =>
    split
    next =>
      right
      refine ⟨s.takeWhile inTarget ++ (s.dropWhile inTarget).takeWhile Text.isBlank,?_,?_⟩
      · rw [← behind,List.append_assoc,Text.trimLeft,List.takeWhile_append_dropWhile,
          List.takeWhile_append_dropWhile]
      · intro c inside
        rcases List.mem_append.mp inside with word | blank
        · have passes := List.mem_takeWhile_imp word
          simp only [inTarget,Bool.or_eq_true,beq_iff_eq] at passes
          exact passes.imp_right .inl
        · exact .inr (.inr (List.mem_takeWhile_imp blank))
    next => exact .inl rfl
  next => exact .inl rfl

theorem expression_mark (front : List Char) (s : Shift) (back : List Char) : ∃ target front',
    front = target ++ front' ∧ expression (front ++ (s.mark ++ back)) = front' ++ (s.mark ++ back) ∧
      (target = [] ∨ ∃ name, target = name ++ ['=']) ∧
      ∀ c ∈ target, Text.isWord c = true ∨ c ∈ ['.','='] ∨ Text.isBlank c = true := by
  rcases expression_split (front ++ (s.mark ++ back)) with same | ⟨target,whole,inTarget⟩
  · exact ⟨[],front,rfl,same,.inl rfl,by simp⟩
  · have absent : s.char ∉ target ++ ['='] := by
      intro inside
      have mark := s.isMark_char
      rcases List.mem_append.mp inside with member | equals
      · rcases inTarget _ member with word | dot | blank
        · revert word
          cases s <;> decide
        · simp [dot,isMark] at mark
        · simp [isBlank_of_isMark mark] at blank
      · revert equals
        cases s <;> decide
    have same : front ++ s.char :: (s.char :: back) =
        (target ++ ['=']) ++ expression (front ++ (s.mark ++ back)) := by
      simpa [Shift.mark] using whole
    obtain ⟨front',rfl,rest⟩ := split_behind absent same
    refine ⟨target ++ ['='],front',rfl,rest,.inr ⟨target,rfl⟩,fun c inside => ?_⟩
    rcases List.mem_append.mp inside with member | equals
    · exact (inTarget c member).imp id (.imp_left fun dot => by simp [dot])
    · exact .inr (.inl (by simpa using .inr (List.mem_singleton.mp equals)))

namespace MarkedPair

variable {p : MarkedPair} (valid : p.Valid)

include valid

theorem Valid.notMem {c : Char} (noWord : Text.isAsciiWord c = false)
    (visible : Text.isBlank c = false) : c ∉ p.left ++ p.gap := by
  intro inside
  rcases List.mem_append.mp inside with word | blank
  · simp [(Text.word_of_isIdentifier valid.left).2 c word] at noWord
  · simp [valid.gap c blank] at visible

theorem Valid.text_ends : (∀ c ∈ p.text.head?, Text.isAsciiWord c = true) ∧
    (∀ c ∈ p.text.getLast?, Text.isAsciiWord c = true) ∧ p.text ≠ [] := by
  obtain ⟨nonemptyLeft,wordLeft⟩ := Text.word_of_isIdentifier valid.left
  obtain ⟨nonemptyRight,wordRight⟩ := Text.word_of_isIdentifier valid.right
  refine ⟨fun c first => wordLeft c ?_,fun c last => wordRight c ?_,?_⟩
  · refine mem_of_head nonemptyLeft ?_ (b := p.gap ++ (p.shift.mark ++ (p.gap' ++ p.right)))
    simpa [text] using first
  · refine mem_of_getLast nonemptyRight ?_ (a := p.left ++ (p.gap ++ (p.shift.mark ++ p.gap')))
    simpa [text] using last
  · simp [text,Shift.mark]

/-- A pair stays in a text when something is taken off that holds no words. -/
theorem WrittenIn.within {s inner a b : List Char} (written : p.WrittenIn s)
    (whole : s = a ++ (inner ++ b)) (before : ∀ c ∈ a, Text.isAsciiWord c = false)
    (behind : ∀ c ∈ b, Text.isAsciiWord c = false) : p.WrittenIn inner := by
  obtain ⟨front,back,rfl,boundLeft,boundRight⟩ := written
  obtain ⟨first,last,nonempty⟩ := valid.text_ends
  have apart {t : List Char} (noWord : ∀ c ∈ t, Text.isAsciiWord c = false) {c : Char}
      (word : Text.isAsciiWord c = true) : c ∉ t := fun inside => by
    simp [noWord c inside] at word
  obtain ⟨front',back',rfl,rfl,inside⟩ := split_within
    (fun c head => apart before (first c head)) (fun c final => apart behind (last c final))
    nonempty whole
  exact ⟨front',back',inside,fun c final => boundLeft c (mem_getLast?_append a final),
    fun c head => boundRight c (mem_head?_append b head)⟩

theorem WrittenIn.expression {s : List Char} (written : p.WrittenIn s) :
    p.WrittenIn (expression s) := by
  obtain ⟨front,back,rfl,boundLeft,boundRight⟩ := written
  obtain ⟨target,between,longer,rest,assigns,-⟩ := expression_mark
    (front ++ (p.left ++ p.gap)) p.shift ((p.gap' ++ p.right) ++ back)
  rw [List.append_assoc,← p.text_append] at rest
  rw [rest]
  rcases assigns with rfl | ⟨name,rfl⟩
  · rw [List.nil_append] at longer
    exact ⟨front,back,by rw [← longer,List.append_assoc,← p.text_append],boundLeft,boundRight⟩
  · have absent := valid.notMem (c := '=') (by decide) (by decide)
    rw [List.append_assoc,List.singleton_append] at longer
    obtain ⟨front',rfl,rfl⟩ := split_before_word absent longer
    refine ⟨front',back,by rw [List.append_assoc,← p.text_append],fun c last => ?_,boundRight⟩
    exact boundLeft c (mem_getLast?_append name (mem_getLast?_append ['='] last))

end MarkedPair

theorem unwrapFrom_parens (n : Nat) (cells : List Cell) : ∃ a b,
    cells = a ++ (unwrapFrom n cells ++ b) ∧
      (∀ x ∈ a, Text.isBlank x.char = true ∨ x.isCode '(' = true) ∧
      ∀ x ∈ b, Text.isBlank x.char = true ∨ x.closes = true := by
  fun_induction unwrapFrom n cells with
  | case1 => exact ⟨[],[],by simp,by simp,by simp⟩
  | case2 => exact ⟨[],[],by simp,by simp,by simp⟩
  | case3 n x rest isOpen inside closed ih =>
    obtain ⟨x',y,-,closes,whole⟩ := enclosed?_split closed
    obtain ⟨front,back,trimmed,before,behind⟩ := trimCells_split inside
    obtain ⟨a,b,unwrapped,takenBefore,takenBehind⟩ := ih
    obtain rfl : x = x' := (List.cons.inj whole).1
    refine ⟨x :: (front ++ a),b ++ (back ++ [y]),?_,?_,?_⟩
    · have split : inside = front ++ ((a ++ (unwrapFrom n (trimCells inside) ++ b)) ++ back) := by
        rw [← unwrapped,← trimmed]
      refine whole.trans ?_
      simpa [closed] using congrArg (· ++ [y]) split
    · refine List.forall_mem_cons.mpr ⟨.inr isOpen,List.forall_mem_append.mpr ⟨?_,takenBefore⟩⟩
      exact fun z member => .inl (before z member)
    · refine List.forall_mem_append.mpr ⟨takenBehind,List.forall_mem_append.mpr ⟨?_,by simp [closes]⟩⟩
      exact fun z member => .inl (behind z member)
  | case4 => exact ⟨[],[],by simp,by simp,by simp⟩
  | case5 => exact ⟨[],[],by simp,by simp,by simp⟩

theorem unwrap_parens (cells : List Cell) : ∃ a b, cells = a ++ (unwrap cells ++ b) ∧
    (∀ x ∈ a, Text.isBlank x.char = true ∨ x.isCode '(' = true) ∧
      ∀ x ∈ b, Text.isBlank x.char = true ∨ x.closes = true := by
  obtain ⟨front,back,trimmed,before,behind⟩ := trimCells_split cells
  obtain ⟨a,b,unwrapped,takenBefore,takenBehind⟩ :=
    unwrapFrom_parens cells.length (trimCells cells)
  refine ⟨front ++ a,b ++ back,?_,?_,?_⟩
  · have split : cells = front ++ ((a ++ (unwrap cells ++ b)) ++ back) := by
      rw [unwrap,← unwrapped,← trimmed]
    simpa using split
  · exact List.forall_mem_append.mpr ⟨fun x member => .inl (before x member),takenBefore⟩
  · exact List.forall_mem_append.mpr ⟨takenBehind,fun x member => .inl (behind x member)⟩

theorem unwrap_split (cells : List Cell) : ∃ a b, cells = a ++ (unwrap cells ++ b) ∧
    ∀ x ∈ a ++ b, Text.isBlank x.char = true ∨ x.opens = true ∨ x.closes = true := by
  obtain ⟨a,b,split,before,behind⟩ := unwrap_parens cells
  refine ⟨a,b,split,List.forall_mem_append.mpr ⟨fun x member => ?_,fun x member => ?_⟩⟩
  · exact (before x member).imp_right fun opens => .inl (by simp [Cell.opens,opens])
  · exact (behind x member).imp_right .inr

theorem char_of_bracket {x : Cell} (bracket : x.opens = true ∨ x.closes = true) :
    x.char ∈ brackets := by
  simp only [Cell.opens,Cell.closes,Cell.isCode,Bool.or_eq_true,Bool.and_eq_true,
    beq_iff_eq] at bracket
  rcases bracket with ((⟨-,same⟩ | ⟨-,same⟩) | ⟨-,same⟩) | (⟨-,same⟩ | ⟨-,same⟩) | ⟨-,same⟩ <;>
    simp [same,brackets]

theorem taken_char {x : Cell}
    (taken : Text.isBlank x.char = true ∨ x.opens = true ∨ x.closes = true) :
    Text.isAsciiWord x.char = false ∧ isMark x.char = false := by
  rcases taken with blank | bracket
  · constructor
    · cases word : Text.isAsciiWord x.char with
      | true => simp [Text.isBlank_of_isAsciiWord word] at blank
      | false => rfl
    · cases mark : isMark x.char with
      | true => simp [isBlank_of_isMark mark] at blank
      | false => rfl
  · have all : ∀ c ∈ brackets, Text.isAsciiWord c = false ∧ isMark c = false := by decide
    exact all _ (char_of_bracket bracket)

theorem MarkedPair.WrittenIn.unwrap {p : MarkedPair} (valid : p.Valid) {s : List Char}
    (written : p.WrittenIn s) :
    p.WrittenIn (Script.text (Script.unwrap (scan (Airflow.expression s)))) := by
  obtain ⟨a,b,whole,taken⟩ := unwrap_split (scan (Airflow.expression s))
  have texts := congrArg Script.text whole
  rw [Script.text_append,Script.text_append,scan,text_scanFrom,← scan] at texts
  have noWord {cells : List Cell} (sub : ∀ x ∈ cells, x ∈ a ++ b) :
      ∀ c ∈ Script.text cells, Text.isAsciiWord c = false := by
    intro c inside
    obtain ⟨x,held,rfl⟩ := List.mem_map.mp inside
    exact (taken_char (taken x (sub x held))).1
  exact (written.expression valid).within valid texts
    (noWord fun x inside => List.mem_append_left b inside)
    (noWord fun x inside => List.mem_append_right a inside)

theorem bodyOf?_split {opening : String} {cells body : List Cell}
    (found : bodyOf? opening cells = some body) :
    text cells = opening.toList ++ (text body ++ [')']) := by
  unfold bodyOf? at found
  split at found
  next starts =>
    dsimp only at found
    split at found
    next closes =>
      obtain rfl := Option.some.inj found
      obtain ⟨y,last,closed⟩ := Option.map_eq_some_iff.mp (beq_iff_eq.mp closes)
      obtain ⟨rest,whole⟩ := List.isPrefixOf_iff_prefix.mp starts
      have dropped : text (cells.drop opening.toList.length) = rest := by
        rw [text,List.map_drop,← text,← whole,List.drop_left]
      rw [← whole,← dropped]
      congr 1
      nth_rewrite 1 [← List.dropLast_append_getLast? y last]
      simp [text,closed]
    next => simp at found
  next => simp at found

def linkingMethod : Shift → List Char
  | .forward => ".set_downstream".toList
  | .backward => ".set_upstream".toList

theorem setCall?_split {cells body : List Cell} {task : List Char} {s : Shift}
    (found : setCall? cells = some (task,s,body)) :
      text cells = task ++ (linkingMethod s ++ '(' :: (text body ++ [')'])) ∧
        startsName task = true ∧ ∀ c ∈ task, Text.isWord c = true := by
  simp only [setCall?] at found
  split at found
  next starts =>
    have whole : text cells = text (cells.takeWhile fun x => Text.isWord x.char) ++
        text (cells.dropWhile fun x => Text.isWord x.char) := by
      rw [← text_append,List.takeWhile_append_dropWhile]
    have isWord : ∀ c ∈ text (cells.takeWhile fun x => Text.isWord x.char),
        Text.isWord c = true := by
      intro c inside
      obtain ⟨x,held,rfl⟩ := List.mem_map.mp inside
      exact List.mem_takeWhile_imp (p := fun x : Cell => Text.isWord x.char) held
    have called {opening : String} {t : Shift} (spelled : opening.toList = linkingMethod t ++ ['('])
        (matched : (bodyOf? opening (cells.dropWhile fun x => Text.isWord x.char)).map
          (fun body => (text (cells.takeWhile fun x => Text.isWord x.char),t,body)) =
            some (task,s,body)) :
        text cells = task ++ (linkingMethod s ++ '(' :: (text body ++ [')'])) ∧
          startsName task = true ∧ ∀ c ∈ task, Text.isWord c = true := by
      obtain ⟨body',found,same⟩ := Option.map_eq_some_iff.mp matched
      cases same
      rw [whole,bodyOf?_split found,spelled,List.append_assoc]
      exact ⟨rfl,starts,isWord⟩
    rcases (Option.orElse_eq_some _ _ _).mp found with down | ⟨-,up⟩
    · exact called rfl down
    · exact called rfl up
  next => simp at found

/-- A dotted name that ends in `chain`. -/
structure IsChainPath (path : List Char) : Prop where
  inPath : ∀ c ∈ path, Text.isWord c = true ∨ c = '.'
  named : ∀ name ∈ segments path, name ≠ []
  last : (segments path).getLast? = some "chain".toList

theorem chainCall?_split {cells body : List Cell} (found : chainCall? cells = some body) :
    ∃ path, text cells = path ++ '(' :: (text body ++ [')']) ∧ IsChainPath path := by
  let inPath : Cell → Bool := fun x => Text.isWord x.char || x.char == '.'
  simp only [chainCall?] at found
  split at found
  next names =>
    simp only [Bool.and_eq_true,List.all_eq_true,Bool.not_eq_true',List.isEmpty_eq_false_iff,
      beq_iff_eq] at names
    refine ⟨text (cells.takeWhile inPath),?_,fun c inside => ?_,names.1,names.2⟩
    · have opened : '(' :: (text body ++ [')']) = "(".toList ++ (text body ++ [')']) := rfl
      rw [opened,← bodyOf?_split found,← text_append,List.takeWhile_append_dropWhile]
    · obtain ⟨x,held,rfl⟩ := List.mem_map.mp inside
      simpa [inPath] using List.mem_takeWhile_imp held
  next => simp at found

theorem isMark_of_isWord {c : Char} (word : Text.isWord c = true) : isMark c = false := by
  have left : c ≠ '<' := by
    rintro rfl
    exact absurd word (by decide)
  have right : c ≠ '>' := by
    rintro rfl
    exact absurd word (by decide)
  simp [isMark,left,right]

/-- How a statement that makes sense reads, by the marks in its expression. -/
inductive Sense (cells : List Cell) (r : Reading) : Prop
  | call (unmarked : ∀ c ∈ text cells, isMark c = false)
  | other (reads : r = .other) (nested : Nested cells)
  | chain (firsts : List (List Char)) (others : List (Shift × List (List Char)))
      (reads : r = .dependency (.groups firsts others))
      (readFirst : operandNames? (shiftChain cells).first = some firsts)
      (readOthers : (shiftChain cells).rest.mapM groupOf? = some others)

theorem makesSense_ofOption {dep : Option Dependency}
    (sense : (Reading.ofOption dep).makesSense = true) : ∃ dep', dep = some dep' := by
  cases dep with
  | none => simp [Reading.ofOption,Reading.makesSense] at sense
  | some dep' => exact ⟨dep',rfl⟩

theorem sense_of_makesSense {s : List Char} (sense : (readDependency s).makesSense = true) :
    Sense (unwrap (scan (expression s))) (readDependency s) := by
  simp only [readDependency] at sense ⊢
  generalize unwrap (scan (expression s)) = cells at sense ⊢
  cases set : setCall? cells with
  | some call =>
    obtain ⟨task,shift,body⟩ := call
    simp only [set] at sense ⊢
    obtain ⟨whole,-,isWord⟩ := setCall?_split set
    cases read : operandNames? body with
    | none => simp [read,Reading.makesSense] at sense
    | some others =>
      refine .call ?_
      rw [whole]
      intro c inside
      simp only [List.mem_append,List.mem_cons,List.not_mem_nil,or_false] at inside
      rcases inside with word | method | rfl | held | rfl
      · exact isMark_of_isWord (isWord c word)
      · have plain : ∀ d ∈ linkingMethod shift, isMark d = false := by cases shift <;> decide
        exact plain c method
      · rfl
      · exact isMark_of_operand read c held
      · rfl
  | none =>
  simp only [set] at sense ⊢
  cases chain : chainCall? cells with
  | some body =>
    simp only [chain] at sense ⊢
    obtain ⟨path,whole,isPath⟩ := chainCall?_split chain
    have plain : ∀ c ∈ text body, isMark c = false := by
      intro c inside
      obtain ⟨x,held,rfl⟩ := List.mem_map.mp inside
      cases mark : isMark x.char with
      | false => rfl
      | true =>
        have noComma : x.isCode ',' = false := by
          cases comma : x.isCode ',' with
          | false => rfl
          | true =>
            simp only [Cell.isCode,Bool.and_eq_true,beq_iff_eq] at comma
            simp [comma.2,isMark] at mark
        obtain ⟨part,member,inside⟩ := mem_splitTopLevel held noComma (isBlank_of_isMark mark)
        cases parts : splitTopLevel ',' body with
        | nil => simp [parts] at member
        | cons first rest =>
          simp only [parts] at sense
          obtain ⟨dep,read⟩ := makesSense_ofOption sense
          obtain ⟨firsts,others,readFirst,readOthers,-⟩ := readGroups_eq_some read
          rw [parts] at member
          obtain ⟨names,operand⟩ : ∃ names, operandNames? part = some names := by
            rcases List.mem_cons.mp member with rfl | later
            · exact ⟨firsts,readFirst⟩
            · exact operands_of_mapM readOthers (.forward,part) (List.mem_map_of_mem later)
          rw [← mark]
          exact isMark_of_operand operand _ (List.mem_map_of_mem inside)
    refine .call ?_
    rw [whole]
    intro c inside
    simp only [List.mem_append,List.mem_cons,List.not_mem_nil,or_false] at inside
    rcases inside with path | rfl | held | rfl
    · rcases isPath.inPath c path with word | rfl
      · exact isMark_of_isWord word
      · rfl
    · rfl
    · exact plain c held
    · rfl
  | none =>
    simp only [chain] at sense ⊢
    cases marks : (shiftChain cells).rest with
    | nil =>
      simp only [List.isEmpty_nil,if_true]
      exact .other rfl (nested_of_shiftChain marks)
    | cons step rest =>
      simp only [marks,List.isEmpty_cons,Bool.false_eq_true,if_false] at sense ⊢
      obtain ⟨dep,read⟩ := makesSense_ofOption sense
      rw [← marks] at read ⊢
      obtain ⟨firsts,others,readFirst,readOthers,rfl⟩ := readGroups_eq_some read
      exact .chain firsts others (by rw [read]; rfl) readFirst readOthers

/-- A pair in a statement that makes sense is linked, unless all marks stand inside brackets. Then the
statement is no dependency. -/
theorem mem_links {p : MarkedPair} (valid : p.Valid) {s : List Char} (written : p.WrittenIn s)
    (sense : (readDependency s).makesSense = true) :
    (readDependency s = .other ∧ Nested (unwrap (scan (expression s)))) ∨
      p.link ∈ (readDependency s).links := by
  have inside := written.unwrap valid
  cases sense_of_makesSense sense with
  | call unmarked =>
    obtain ⟨front,back,whole,-⟩ := inside
    have mark : p.shift.char ∈ text (unwrap (scan (expression s))) := by
      rw [whole]
      simp [MarkedPair.text,Shift.mark]
    simpa [p.shift.isMark_char] using unmarked _ mark
  | other reads nested => exact .inl ⟨reads,nested⟩
  | chain firsts others reads readFirst readOthers =>
    right
    rw [reads]
    refine mem_chainLinks valid readFirst readOthers ?_
    rw [← text_shiftChainFrom 0] at inside
    exact inside

end PipelineAtlas.Airflow

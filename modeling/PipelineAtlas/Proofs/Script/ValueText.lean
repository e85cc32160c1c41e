import PipelineAtlas.Proofs.Script.LooseText
import PipelineAtlas.Proofs.Script.Part
import PipelineAtlas.Proofs.Script.Settled
import PipelineAtlas.Proofs.Text.Token

/-! What each reader makes of the texts of values. Readers are tried one after another, so a text must be
refused by those in front of its own. -/
namespace PipelineAtlas.Script

theorem keyword?_eq_none {s : List Char} (other : ∀ word ∈ ["True","False","None"], s ≠ word.toList) :
    keyword? s = none := by
  unfold keyword?
  rw [if_neg (other "True" (by simp)),if_neg (other "False" (by simp)),
    if_neg (other "None" (by simp))]

theorem keyword?_of_foreign {s : List Char} {c : Char} (inside : c ∈ s)
    (foreign : c ∉ "TrueFalseNone".toList) : keyword? s = none := by
  have letters : ∀ word ∈ ["True","False","None"], ∀ d ∈ word.toList, d ∈ "TrueFalseNone".toList := by
    decide
  refine keyword?_eq_none fun word keyword => ?_
  rintro rfl
  exact foreign (letters word keyword c inside)

theorem literal?_of_unquoted {c : Char} {s : List Char} (noQuote : isQuote c = false)
    (apart : NoQuoteFirst s ∨ Text.isAsciiWord c = false) : literal? (c :: s) = none := by
  rw [literal?]
  split
  next letter =>
    have word : Text.isAsciiWord c = true := by rcases letter with rfl | rfl <;> decide
    have first := apart.resolve_right (by simp [word])
    cases s with
    | nil => rfl
    | cons d s => simp [quotedValue,first d rfl]
  next => simp [quotedValue,noQuote]

theorem integer?_of_foreign {s : List Char} {c : Char} (inside : c ∈ s)
    (noSign : c ∉ ['_','-','+']) (noDigit : c.isDigit = false) : integer? s = none := by
  cases read : integer? s with
  | none => rfl
  | some v =>
    rcases mem_of_integer? read c inside with sign | digit
    · exact absurd sign noSign
    · simp [noDigit] at digit

theorem integer?_toString {n : Int} (lower : -0x8000000000000000 ≤ n) (upper : n ≤ 0x7FFFFFFFFFFFFFFF) :
    integer? (toString n).toList = some n ∧
      ∀ c ∈ (toString n).toList, c ∈ ['-','+'] ∨ c.isDigit = true := by
  have number := Text.int64?_toString lower upper
  have chars := Text.mem_of_int64? number
  have noLine : ∀ c ∈ (toString n).toList, (c != '_') = true := by
    intro c inside
    have other : c ≠ '_' := by
      rintro rfl
      exact absurd (chars '_' inside) (by decide)
    simpa using other
  exact ⟨by rw [integer?,List.filter_eq_self.mpr noLine,number],chars⟩

def Inked (c : Char) : Prop := Text.isAsciiWord c = true ∨ c ∈ ['.','-','+']

theorem Inked.ne {c d : Char} (inked : Inked c) (noWord : Text.isAsciiWord d = false)
    (noSign : d ∉ ['.','-','+']) : c ≠ d := by
  rintro rfl
  rcases inked with word | sign
  · simp [noWord] at word
  · exact noSign sign

theorem Inked.plain {c : Char} (inked : Inked c) : Plain c := by
  have apart : ∀ d ∈ brackets ++ ['\'','"','<','>',','], Text.isAsciiWord d = false ∧
      d ∉ ['.','-','+'] := by decide
  exact plain_of_apart fun d member => inked.ne (apart d member).1 (apart d member).2

theorem Inked.visible {c : Char} (inked : Inked c) : Text.isBlank c = false := by
  rcases inked with word | sign
  · exact Text.isBlank_of_isAsciiWord word
  · have signs : ∀ d ∈ ['.','-','+'], Text.isBlank d = false := by decide
    exact signs c sign

theorem scan_of_inked {t : List Char} (inked : ∀ c ∈ t, Inked c) : scan t = codeCells t :=
  scan_of_unquoted fun c inside => (inked c inside).plain.quote

theorem dotted_chars {s : List Char} (dotted : isDottedName s = true) :
    s ≠ [] ∧ ∀ c ∈ s, Text.isAsciiWord c = true ∨ c = '.' := by
  constructor
  · rintro rfl
    exact absurd dotted (by decide)
  · intro c inside
    by_cases dot : c = '.'
    · exact .inr dot
    · obtain ⟨part,member,found⟩ := mem_segments inside dot
      exact .inl ((Text.word_of_isIdentifier (List.all_eq_true.mp dotted part member)).2 c found)

theorem inked_of_dotted {name : List Char} (dotted : isDottedName name = true) :
    ∀ c ∈ name, Inked c := fun c inside => by
  rcases (dotted_chars dotted).2 c inside with word | dot
  · exact .inl word
  · exact .inr (by simp [dot])

theorem inked_toString {n : Int} (lower : -0x8000000000000000 ≤ n) (upper : n ≤ 0x7FFFFFFFFFFFFFFF) :
    ∀ c ∈ (toString n).toList, Inked c := fun c inside => by
  rcases (integer?_toString lower upper).2 c inside with sign | digit
  · exact .inr (List.mem_cons_of_mem '.' sign)
  · exact .inl (by simp [Text.isAsciiWord,Char.isAlphanum,digit])

theorem literal?_of_inked {t : List Char} (inked : ∀ c ∈ t, Inked c) : literal? t = none := by
  cases t with
  | nil => rfl
  | cons c t =>
    obtain ⟨here,later⟩ := List.forall_mem_cons.mp inked
    exact literal?_of_unquoted here.plain.quote
      (.inl (noQuoteFirst_of_unquoted fun d inside => (later d inside).plain.quote))

theorem listBody?_brackets (cells : List Cell) (role role' : Role) :
    listBody? (⟨'[',role⟩ :: (cells ++ [⟨']',role'⟩])) = some cells := by
  simp [listBody?]

theorem listBody?_of_head {x : Cell} (other : x.char ≠ '[') (cells : List Cell) :
    listBody? (x :: cells) = none := by
  simp [listBody?,other]

theorem callParts?_brackets {function : List Char} (dotted : isDottedName function = true)
    {cells : List Cell} (level : Level cells) :
    callParts? (codeCells function ++ ⟨'(',.code⟩ :: (cells ++ [⟨')',.code⟩])) =
      some (function,cells) := by
  have before : ∀ x ∈ codeCells function, (x.char != '(') = true := by
    intro x inside
    obtain ⟨c,member,rfl⟩ := List.mem_map.mp inside
    simpa using (inked_of_dotted dotted c member).ne (d := '(') (by decide) (by decide)
  have visible : ∀ c ∈ function, Text.isBlank c = false := fun c inside =>
    (inked_of_dotted dotted c inside).visible
  have trimmed := Text.trim_of_ends (fun c first => visible c (List.mem_of_mem_head? first))
    fun c last => visible c (List.mem_of_mem_getLast? last)
  have opens : (⟨'(',.code⟩ : Cell).opens = true := by decide
  have closes : (⟨')',.code⟩ : Cell).closes = true := by decide
  have enclosed := level.enclosed? opens closes
  simp only [callParts?]
  rw [List.takeWhile_append_of_pos before,List.dropWhile_append_of_pos before]
  simp [trimmed,enclosed,dotted]

theorem callParts?_of_noBracket {cells : List Cell} (noBracket : ∀ x ∈ cells, x.char ≠ '(') :
    callParts? cells = none := by
  have nothing : cells.dropWhile (fun x => x.char != '(') = [] :=
    List.dropWhile_eq_nil_iff.mpr (by simpa using noBracket)
  simp [callParts?,nothing,enclosed?]

theorem brackets_of_inkedCells {cells : List Cell} (inked : ∀ x ∈ cells, Inked x.char) :
    listBody? cells = none ∧ callParts? cells = none := by
  constructor
  · cases cells with
    | nil => rfl
    | cons x cells => exact listBody?_of_head ((inked x List.mem_cons_self).ne (by decide) (by decide)) _
  · exact callParts?_of_noBracket fun x inside => (inked x inside).ne (by decide) (by decide)

theorem brackets_of_inked {t : List Char} (inked : ∀ c ∈ t, Inked c) :
    listBody? (scan t) = none ∧ callParts? (scan t) = none := by
  rw [scan_of_inked inked]
  refine brackets_of_inkedCells fun x inside => ?_
  obtain ⟨c,member,rfl⟩ := List.mem_map.mp inside
  exact inked c member

theorem keyParts?_of_noEquals {cells : List Cell} (noEquals : ∀ x ∈ cells, x.char ≠ '=') :
    keyParts? cells = none := by
  have nothing : cells.dropWhile (fun x => x.char != '=') = [] :=
    List.dropWhile_eq_nil_iff.mpr (by simpa using noEquals)
  simp [keyParts?,nothing]

theorem keyParts?_of_foreign {front : List Cell} (noEquals : ∀ x ∈ front, x.char ≠ '=') {x : Cell}
    (inside : x ∈ front) (foreign : Text.isAsciiWord x.char = false)
    (visible : Text.isBlank x.char = false) (rest : List Cell) : keyParts? (front ++ rest) = none := by
  have before : ∀ y ∈ front, (y.char != '=') = true := by simpa using noEquals
  have noKey : Text.isIdentifier
      (Text.trim (text ((front ++ rest).takeWhile fun y => y.char != '='))) = false := by
    rw [List.takeWhile_append_of_pos before,Bool.eq_false_iff]
    intro identifier
    have member : x.char ∈ text (front ++ rest.takeWhile fun y => y.char != '=') :=
      List.mem_map_of_mem (List.mem_append_left _ inside)
    rcases mem_trim_or member with blank | kept
    · simp [visible] at blank
    · simp [(Text.word_of_isIdentifier identifier).2 _ kept] at foreign
  simp only [keyParts?,noKey]
  split
  next => simp
  next => rfl

theorem keyParts?_keyed {key : List Char} (identifier : Text.isIdentifier key = true) {a : List Char}
    (blanks : Blanks a) {cells : List Cell} (single : ∀ x ∈ cells.head?, x.char ≠ '=') :
    keyParts? (codeCells (key ++ a) ++ ⟨'=',.code⟩ :: cells) = some (key,cells) := by
  have word := (Text.word_of_isIdentifier identifier).2
  have before : ∀ x ∈ codeCells (key ++ a), (x.char != '=') = true := by
    intro x inside
    obtain ⟨c,member,rfl⟩ := List.mem_map.mp inside
    have other : c ≠ '=' := by
      rintro rfl
      rcases List.mem_append.mp member with here | gap
      · exact absurd (word '=' here) (by decide)
      · exact absurd (blanks '=' gap) (by decide)
    simpa using other
  have trimmed : Text.trim (key ++ a) = key := by
    rw [Text.trim_append_blanks blanks,Text.trim_of_word word]
  have other : (cells.head?.map (·.char)) ≠ some '=' := by
    intro equals
    obtain ⟨x,first,char⟩ := Option.map_eq_some_iff.mp equals
    exact single x first char
  simp only [keyParts?]
  rw [List.takeWhile_append_of_pos before,List.dropWhile_append_of_pos before]
  simp [-codeCells_append,trimmed,identifier,other]

end PipelineAtlas.Script

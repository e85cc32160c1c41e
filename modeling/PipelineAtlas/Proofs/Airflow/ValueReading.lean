import PipelineAtlas.Proofs.Airflow.Dependency
import PipelineAtlas.Proofs.Airflow.ValueLayout

/-! Values are read back as they were written, whatever their layout: nothing in a string leaks into what
encloses it, and each entry is read on its own. -/
namespace PipelineAtlas.Airflow

open Script

theorem readValueFrom_stringSource (s : List Char) (n : Nat) {cells : List Cell}
    (trimmed : trimCells cells = scan (stringSource s)) :
    readValueFrom (n + 1) cells = .string (String.ofList s) := by
  have noWord : keyword? (stringSource s) = none := by
    refine keyword?_of_foreign (c := '\'') ?_ (by decide)
    simp [stringSource,literalText,delimiter]
  have read : literal? (stringSource s) = some s := literal?_of_escapes sourceChar_cases s
  simp only [readValueFrom,trimmed,scan,text_scanFrom,noWord,read]

theorem integer?_of_dotted {t : List Char} (dotted : isDottedName t = true)
    (noNumber : ¬ (Text.isIdentifier t = true ∧ ∀ c ∈ t, c = '_' ∨ c.isDigit = true)) :
    integer? t = none := by
  cases read : integer? t with
  | none => rfl
  | some v =>
    have chars : ∀ c ∈ t, c = '_' ∨ c.isDigit = true := by
      intro c inside
      rcases mem_of_integer? read c inside with sign | digit
      · have named := (dotted_chars dotted).2 c inside
        simp only [List.mem_cons,List.not_mem_nil,or_false] at sign
        rcases sign with rfl | rfl | rfl
        · exact .inl rfl
        · exact absurd named (by decide)
        · exact absurd named (by decide)
      · exact .inr digit
    have noDot : '.' ∉ t := fun inside => absurd (chars '.' inside) (by decide)
    have identifier : Text.isIdentifier t = true := by
      simpa [isDottedName,segments_word noDot] using dotted
    exact absurd ⟨identifier,chars⟩ noNumber

theorem keyword?_of_name {text : String} (noKeyword : text ∉ ["True","False","None"]) :
    keyword? text.toList = none := by
  refine keyword?_eq_none fun word keyword same => ?_
  rw [← String.toList_inj.mp same] at keyword
  exact noKeyword keyword

theorem Leaf.readValueFrom {v : Value} (leaf : Leaf v) (n : Nat) {cells : List Cell}
    (trimmed : trimCells cells = scan (valueSource v)) : Script.readValueFrom (n + 1) cells = v := by
  cases leaf with
  | string s =>
    have read := readValueFrom_stringSource s.toList n trimmed
    rwa [String.ofList_toList] at read
  | bool b =>
    cases b <;> simp only [Script.readValueFrom,trimmed,scan,text_scanFrom] <;> rfl
  | none =>
    simp only [Script.readValueFrom,trimmed,scan,text_scanFrom]
    rfl
  | @int i lower upper =>
    obtain ⟨read,chars⟩ := integer?_toString lower upper
    have noLiteral := literal?_of_inked (inked_toString lower upper)
    have noWord : keyword? (toString i).toList = .none := by
      cases shown : (toString i).toList with
      | nil => decide
      | cons c t =>
        refine keyword?_of_foreign List.mem_cons_self fun letter => ?_
        have noSign : ∀ d ∈ "TrueFalseNone".toList, ¬ (d ∈ ['-','+'] ∨ d.isDigit = true) := by decide
        exact noSign c letter (chars c (by rw [shown]; exact List.mem_cons_self))
    simp only [Script.readValueFrom,trimmed,scan,text_scanFrom,valueSource,noWord,noLiteral,read]
  | @name text dotted noKeyword noNumber =>
    have inked := inked_of_dotted dotted
    have noWord := keyword?_of_name noKeyword
    have noLiteral := literal?_of_inked inked
    have noInteger := integer?_of_dotted dotted noNumber
    obtain ⟨noList,noCall⟩ := brackets_of_inked inked
    rw [scan] at noList noCall
    simp only [Script.readValueFrom,trimmed,scan,text_scanFrom,valueSource,noWord,noLiteral,noInteger,
      noList,noCall,dotted,if_true,String.ofList_toList]

theorem readValueFrom_list {t : List Char} (detached : Detached t) (n : Nat) {cells : List Cell}
    (trimmed : trimCells cells = scan ('[' :: (t ++ [']']))) : readValueFrom (n + 1) cells =
      .list ((splitTopLevel ',' (scan t)).map (readValueFrom n)) := by
  have chars : text (scan ('[' :: (t ++ [']']))) = '[' :: (t ++ [']']) := text_scanFrom _ _ _
  have noWord := keyword?_of_foreign (s := '[' :: (t ++ [']'])) List.mem_cons_self (by decide)
  have noInteger := integer?_of_foreign (s := '[' :: (t ++ [']'])) List.mem_cons_self (by decide)
    (by decide)
  have noLiteral : literal? ('[' :: (t ++ [']'])) = none :=
    literal?_of_unquoted (by decide) (.inr (by decide))
  have body : listBody? (scan ('[' :: (t ++ [']']))) = some (scan t) := by
    rw [detached.scan_enclosed (by decide) (by decide)]
    exact listBody?_brackets (scan t) .code .code
  simp only [readValueFrom,trimmed,chars,noWord,noLiteral,noInteger,body]

theorem shape_of_callParts? {cells inside : List Cell} {function : List Char}
    (parts : callParts? cells = some (function,inside)) :
    ∃ x front p rest, cells = x :: (front ++ p :: rest) ∧ p.char = '(' ∧
      ∀ y ∈ x :: front, isQuote y.char = false ∧ y.char ≠ '[' := by
  simp only [callParts?] at parts
  split at parts
  next inside' enclosed =>
    split at parts
    next dotted =>
      have whole := List.takeWhile_append_dropWhile (p := fun x : Cell => x.char != '(') (l := cells)
      have plain : ∀ y ∈ cells.takeWhile (fun x => x.char != '('),
          isQuote y.char = false ∧ y.char ≠ '[' := by
        intro y inside
        rcases mem_trim_or (List.mem_map_of_mem (f := Cell.char) inside) with blank | kept
        · refine ⟨isQuote_of_isBlank blank,fun opens => ?_⟩
          rw [opens] at blank
          exact absurd blank (by decide)
        · have inked := inked_of_dotted dotted _ kept
          exact ⟨inked.plain.quote,inked.ne (by decide) (by decide)⟩
      have named : cells.takeWhile (fun x => x.char != '(') ≠ [] := by
        intro nothing
        rw [nothing] at dotted
        exact absurd dotted (by decide)
      obtain ⟨x,front,start⟩ := List.exists_cons_of_ne_nil named
      cases behind : cells.dropWhile fun x => x.char != '(' with
      | nil =>
        rw [behind] at enclosed
        cases enclosed
      | cons p rest =>
        have first := List.head?_dropWhile_not (fun x : Cell => x.char != '(') cells
        rw [behind] at first
        rw [start,behind] at whole
        rw [start] at plain
        exact ⟨x,front,p,rest,whole.symm,by simpa using first,plain⟩
    next => cases parts
  next => cases parts

/-- Cells that are a call are read as one: no reader in front takes them. -/
theorem readValueFrom_of_callParts? {cells inside : List Cell} {function : List Char}
    (parts : callParts? (trimCells cells) = some (function,inside)) (n : Nat) :
    readValueFrom (n + 1) cells = .call (String.ofList function)
      ((splitTopLevel ',' inside).map fun part =>
        ⟨(splitArgument part).1,readValueFrom n (splitArgument part).2⟩) := by
  obtain ⟨x,front,p,rest,shape,opens,plain⟩ := shape_of_callParts? parts
  have chars : text (trimCells cells) = x.char :: (text front ++ '(' :: text rest) := by
    rw [shape,text_cons,text_append,text_cons,opens]
  have opening : '(' ∈ text (trimCells cells) := by simp [chars]
  have noWord := keyword?_of_foreign opening (by decide)
  have noInteger := integer?_of_foreign opening (by decide) (by decide)
  have noList : listBody? (trimCells cells) = none := by
    rw [shape]
    exact listBody?_of_head (plain x List.mem_cons_self).2 _
  have noLiteral : literal? (text (trimCells cells)) = none := by
    rw [chars]
    refine literal?_of_unquoted (plain x List.mem_cons_self).1 (.inl ?_)
    have unquoted := noQuoteFirst_of_unquoted (s := text front) fun c inside => by
      obtain ⟨y,member,rfl⟩ := List.mem_map.mp inside
      exact (plain y (List.mem_cons_of_mem x member)).1
    exact unquoted.append (by simp [NoQuoteFirst,isQuote])
  simp only [readValueFrom,noWord,noLiteral,noInteger,noList,parts]

theorem readValueFrom_call {function : String} (dotted : isDottedName function.toList = true)
    {t : List Char} (detached : Detached t) (level : Level (scan t)) (n : Nat) {cells : List Cell}
    (trimmed : trimCells cells = scan (function.toList ++ '(' :: (t ++ [')']))) :
    readValueFrom (n + 1) cells = .call function ((splitTopLevel ',' (scan t)).map fun part =>
      ⟨(splitArgument part).1,readValueFrom n (splitArgument part).2⟩) := by
  have scanned : scan (function.toList ++ '(' :: (t ++ [')'])) =
      codeCells function.toList ++ ⟨'(',.code⟩ :: (scan t ++ [⟨')',.code⟩]) := by
    rw [scan_unquoted fun c inside => (inked_of_dotted dotted c inside).plain.quote,
      detached.scan_enclosed (by decide) (by decide)]
  have parts := callParts?_brackets dotted level
  rw [← scanned,← trimmed] at parts
  rw [readValueFrom_of_callParts? parts,String.ofList_toList]

theorem splitArgument_positional {s : List Char} (shape : Shape s) {part : List Cell}
    (trimmed : trimCells part = scan s) : splitArgument part = (none,part) := by
  simp only [splitArgument,trimmed,shape.unkeyed]

theorem splitArgument_keyed {key : String} (identifier : Text.isIdentifier key.toList = true)
    {a b s : List Char} (before : Blanks a) (behind : Blanks b) (shape : Shape s) {part : List Cell}
    (trimmed : trimCells part = scan (key.toList ++ (a ++ '=' :: (b ++ s)))) :
    splitArgument part = (some key,codeCells b ++ scan s) := by
  have unquoted : ∀ c ∈ key.toList ++ a, isQuote c = false := List.forall_mem_append.mpr
    ⟨fun c inside => (plain_of_isIdentifier identifier c inside).quote,before.noQuote⟩
  have equals := scan_unquoted (s := ['=']) (by decide) (b ++ s)
  have scanned : scan (key.toList ++ (a ++ '=' :: (b ++ s))) =
      codeCells (key.toList ++ a) ++ ⟨'=',.code⟩ :: (codeCells b ++ scan s) := by
    rw [← List.append_assoc,scan_unquoted unquoted]
    rw [List.singleton_append,scan_unquoted behind.noQuote] at equals
    rw [equals]
    rfl
  have single : ∀ x ∈ (codeCells b ++ scan s).head?, x.char ≠ '=' := by
    intro x first
    cases b with
    | nil =>
      cases s with
      | nil => cases first
      | cons c s =>
        obtain rfl : (⟨c,_⟩ : Cell) = x := by simpa [codeCells,scan,scanFrom_cons] using first
        exact shape.noEquals c rfl
    | cons c b =>
      obtain rfl : (⟨c,.code⟩ : Cell) = x := by simpa [codeCells] using first
      rintro rfl
      exact absurd (behind '=' List.mem_cons_self) (by decide)
  have parts := keyParts?_keyed identifier before single
  rw [← scanned] at parts
  simp only [splitArgument,trimmed,parts,String.ofList_toList]

theorem ArgumentLaid.read {read : List Cell → Value} {t : List Char}
    (reads : ∀ v s cells, Laid v s ∧ s.length ≤ t.length → trimCells cells = scan s → read cells = v)
    {a : Argument Value} {s : List Char} (laid : ArgumentLaid Laid a s) (less : s.length ≤ t.length)
    {part : List Cell} (trimmed : trimCells part = scan s) :
    (⟨(splitArgument part).1,read (splitArgument part).2⟩ : Argument Value) = a := by
  cases laid with
  | @positional v s here =>
    rw [splitArgument_positional here.shape trimmed,reads v s part ⟨here,less⟩ trimmed]
  | @keyed key v a b s identifier before behind here =>
    have value := here.shape.toPart.trimCells behind (b := []) (by decide)
    simp only [List.length_append,List.length_cons] at less
    rw [splitArgument_keyed identifier before behind here.shape trimmed,
      reads v s _ ⟨here,by omega⟩ (by simpa [codeCells] using value)]

/-- A layout is read back, whatever depth is allowed for, if it is as long as the text. -/
theorem Laid.readValueFrom {v : Value} {t : List Char} (laid : Laid v t) {n : Nat}
    (enough : t.length < n) {cells : List Cell} (trimmed : trimCells cells = scan t) :
    Script.readValueFrom n cells = v := by
  induction n generalizing v t cells with
  | zero => omega
  | succ n ih =>
  cases laid with
  | leaf leaf => exact leaf.readValueFrom n trimmed
  | @list vs t items =>
    simp only [List.length_cons,List.length_append] at enough
    have bounded := items.bounded
    have parts : ∀ v s, Laid v s ∧ s.length ≤ t.length → Part s := fun v s here => here.1.shape.toPart
    have read : (splitTopLevel ',' (scan t)).map (Script.readValueFrom n) = vs :=
      bounded.map_splitTopLevel parts fun v part padded => by
        obtain ⟨before,⟨here,less⟩,behind⟩ := padded
        exact ih here (by omega) (here.shape.toPart.trimCells before behind)
    rw [readValueFrom_list (bounded.detached parts) n trimmed,read]
  | @call function as t dotted arguments =>
    simp only [List.length_cons,List.length_append] at enough
    have bounded := arguments.bounded
    have parts : ∀ a s, ArgumentLaid Laid a s ∧ s.length ≤ t.length → Part s := fun a s here =>
      here.1.part fun v s laid => laid.shape
    have reads : ∀ v s cells, Laid v s ∧ s.length ≤ t.length → trimCells cells = scan s →
        Script.readValueFrom n cells = v := fun v s cells here trimmed => ih here.1 (by omega) trimmed
    have read : ((splitTopLevel ',' (scan t)).map fun part => (⟨(splitArgument part).1,
        Script.readValueFrom n (splitArgument part).2⟩ : Argument Value)) = as :=
      bounded.map_splitTopLevel parts fun a part padded => by
        obtain ⟨before,here,behind⟩ := padded
        exact here.1.read reads here.2 ((parts _ _ here).trimCells before behind)
    rw [readValueFrom_call dotted (bounded.detached parts) (bounded.level parts) n trimmed,read]

/-- A value is read back from its source, and from every layout between blanks. -/
theorem readValue_of_source {v : Value} (writable : Writable v) :
    Laid v (valueSource v) ∧ readValue (valueSource v) = v ∧
      ∀ a t b, Blanks a → Laid v t → Blanks b → readValue (a ++ (t ++ b)) = v := by
  have general : ∀ a t b, Blanks a → Laid v t → Blanks b → readValue (a ++ (t ++ b)) = v := by
    intro a t b before laid behind
    have part := laid.shape.toPart
    rw [readValue,readCells]
    refine laid.readValueFrom ?_ ?_
    · rw [scan,length_scanFrom,List.length_append,List.length_append]
      omega
    · rw [part.detached.scan_between before behind]
      exact part.trimCells before behind
  have nothing : Blanks [] := by decide
  have source := general [] _ [] nothing writable.laid nothing
  rw [List.nil_append,List.append_nil] at source
  exact ⟨writable.laid,source,general⟩

theorem readValue_of_source_nested : ∃ v, v = Value.call "f"
      [⟨none,.string "a, b)='"⟩,⟨some "k",.list [.int (-1),.none]⟩] ∧ Writable v ∧
    valueSource v = "f('a, b)=\\'', k=[-1, None])".toList ∧
    readValue "f('a, b)=\\'', k=[-1, None])".toList = v ∧
    readValue " f('a, b)=\\'' , k= [-1,None , ],) ".toList = v := by
  have string : Leaf (.string "a, b)='") := .string _
  have int : Leaf (.int (-1)) := .int (by decide) (by decide)
  have items : ∀ v ∈ [Value.int (-1),.none], Leaf v := by simpa using ⟨int,.none⟩
  have writable : Writable (.call "f" [⟨none,.string "a, b)='"⟩,⟨some "k",.list [.int (-1),.none]⟩]) := by
    refine .call (by decide) (by decide) ?_
    simpa using ⟨.leaf string,.list fun v inside => .leaf (items v inside)⟩
  have space : Blanks [' '] := by decide
  have nothing : Blanks [] := by decide
  have list : Laid (.list [.int (-1),.none]) "[-1,None , ]".toList :=
    .list (.some (.more nothing (.leaf int) nothing (.comma nothing (.leaf .none) space space)))
  have call : Laid (.call "f" [⟨none,.string "a, b)='"⟩,⟨some "k",.list [.int (-1),.none]⟩])
      "f('a, b)=\\'' , k= [-1,None , ],)".toList :=
    .call (by decide) (.some (.more nothing (.positional (.leaf string)) space
      (.comma space (.keyed (by decide) nothing space list) nothing nothing)))
  have source : valueSource (.call "f" [⟨none,.string "a, b)='"⟩,⟨some "k",.list [.int (-1),.none]⟩]) =
      "f('a, b)=\\'', k=[-1, None])".toList := by decide +kernel
  obtain ⟨-,read,layouts⟩ := readValue_of_source writable
  rw [source] at read
  exact ⟨_,rfl,writable,source,read,layouts [' '] _ [' '] space call space⟩

end PipelineAtlas.Airflow

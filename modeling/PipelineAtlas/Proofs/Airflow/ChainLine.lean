import PipelineAtlas.Airflow.Outline
import PipelineAtlas.Proofs.Airflow.File
import PipelineAtlas.Proofs.Airflow.LayoutLine

/-! Lines on which names stand with forward marks between them, however many they are. Such a line makes
no operator call, and its statement links each name to the next. -/
namespace PipelineAtlas.Airflow

open Script

def chainText (a : List Char) : List (List Char) → List Char
  | [] => a
  | b :: rest => a ++ " >> ".toList ++ chainText b rest

def chainLine (a : List Char) (rest : List (List Char)) : Line :=
  [.code ("    ".toList ++ chainText a rest)]

theorem written_chainLine (a : List Char) (rest : List (List Char)) :
    written (chainLine a rest) = "    ".toList ++ chainText a rest := List.append_nil _

section Chain

variable {a : List Char} {rest : List (List Char)}
  (names : ∀ b ∈ a :: rest, Text.isIdentifier b = true)

include names

theorem char_of_chainText : ∀ c ∈ chainText a rest,
    Text.isAsciiWord c = true ∨ c = ' ' ∨ c = '>' := by
  induction rest generalizing a with
  | nil =>
    intro c inside
    exact .inl ((Text.word_of_isIdentifier (names a List.mem_cons_self)).2 c inside)
  | cons b rest ih =>
    obtain ⟨name,others⟩ := List.forall_mem_cons.mp names
    have mark : ∀ c ∈ " >> ".toList, c = ' ' ∨ c = '>' := by decide
    intro c inside
    rw [chainText,List.mem_append,List.mem_append] at inside
    rcases inside with (word | blank) | later
    · exact .inl ((Text.word_of_isIdentifier name).2 c word)
    · exact .inr (mark c blank)
    · exact ih others c later

theorem notMem_chainText {c : Char} (noWord : Text.isAsciiWord c = false) (noBlank : c ≠ ' ')
    (noMark : c ≠ '>') : c ∉ chainText a rest := by
  intro inside
  rcases char_of_chainText names c inside with word | blank | mark
  · rw [noWord] at word
    cases word
  · exact noBlank blank
  · exact noMark mark

theorem first_chainText : ∃ c more, chainText a rest = c :: more ∧ Text.isAsciiWord c = true := by
  obtain ⟨nonempty,word⟩ := Text.word_of_isIdentifier (names a List.mem_cons_self)
  obtain ⟨c,more,rfl⟩ := List.exists_cons_of_ne_nil nonempty
  have first := word c List.mem_cons_self
  cases rest with
  | nil => exact ⟨c,more,rfl,first⟩
  | cons b rest => exact ⟨c,_,rfl,first⟩

theorem last_chainText : ∀ c ∈ (chainText a rest).getLast?, Text.isAsciiWord c = true := by
  induction rest generalizing a with
  | nil =>
    intro c last
    exact (Text.word_of_isIdentifier (names a List.mem_cons_self)).2 c (List.mem_of_mem_getLast? last)
  | cons b rest ih =>
    obtain ⟨-,others⟩ := List.forall_mem_cons.mp names
    obtain ⟨d,more,begins,-⟩ := first_chainText others
    intro c last
    apply ih others
    rwa [chainText,List.getLast?_append,Option.or_of_isSome (by simp [begins])] at last

theorem marked_chainText : Marked Blanks [a] (rest.map fun b => (Shift.forward,[b]))
    (chainText a rest) := by
  induction rest generalizing a with
  | nil => exact .last (.one (names a List.mem_cons_self))
  | cons b rest ih =>
    obtain ⟨name,others⟩ := List.forall_mem_cons.mp names
    have space : Blanks [' '] := by decide
    have whole : chainText a (b :: rest) =
        a ++ ([' '] ++ (Shift.forward.mark ++ ([' '] ++ chainText b rest))) := by
      simp [chainText,Shift.mark,Shift.char]
    rw [whole]
    exact .mark (.one name) space space (ih others)

omit names in
theorem readDependency_name (name : Text.isIdentifier a = true) : readDependency a = .other := by
  have word := (Text.word_of_isIdentifier name).2
  have whole : expression a = a := by
    have inTarget : ∀ c ∈ a, (Text.isWord c || c == '.') = true := by
      intro c inside
      rw [Text.isWord_of_isAsciiWord (word c inside),Bool.true_or]
    simp only [expression,List.dropWhile_eq_nil_iff.mpr inTarget]
    rfl
  have inWord : ∀ x ∈ codeCells a, Text.isWord x.char = true := by
    intro x inside
    obtain ⟨c,member,rfl⟩ := List.mem_map.mp inside
    exact Text.isWord_of_isAsciiWord (word c member)
  have inPath : ∀ x ∈ codeCells a, (Text.isWord x.char || x.char == '.') = true := by
    intro x inside
    rw [inWord x inside,Bool.true_or]
  have noCall : setCall? (codeCells a) = none := by
    simp only [setCall?,List.dropWhile_eq_nil_iff.mpr inWord]
    exact ite_self _
  have noChain : chainCall? (codeCells a) = none := by
    simp only [chainCall?,List.dropWhile_eq_nil_iff.mpr inPath]
    exact ite_self _
  have noMark : ∀ x ∈ codeCells a, x.char ≠ '<' ∧ x.char ≠ '>' := by
    intro x inside
    obtain ⟨c,member,rfl⟩ := List.mem_map.mp inside
    exact ⟨Text.ne_of_isAsciiWord (word c member) (by decide),
      Text.ne_of_isAsciiWord (word c member) (by decide)⟩
  have nothing : Blanks [] := by decide
  have cells : unwrap (scan a) = codeCells a := by
    have noQuote : ∀ c ∈ a, isQuote c = false := fun c inside =>
      (plain_of_isIdentifier name c inside).quote
    have noParen : a.head? ≠ some '(' := fun first =>
      (plain_of_isIdentifier name '(' (List.mem_of_mem_head? first)).bracket (by decide)
    have trimmed := trimCells_tight nothing (tight_of_solid (solid_of_isIdentifier name)) nothing
    have plain := scan_of_unquoted noQuote
    rw [List.nil_append,List.append_nil] at trimmed
    rw [unwrap,plain,trimmed]
    exact unwrapFrom_bare noParen _
  simp only [readDependency,whole,cells,noCall,noChain,shiftChain,shiftChainFrom_noMark noMark]
  rfl

theorem readDependency_chainText {b : List Char} {more : List (List Char)} (chained : rest = b :: more) :
    readDependency (chainText a rest) =
      .dependency (.groups [a] (rest.map fun b => (Shift.forward,[b]))) := by
  have marked := marked_chainText names
  subst chained
  exact (Layout.alone (.bare (.marks marked))).readDependency

omit names in
theorem chainLinks_names (a : List Char) (rest : List (List Char)) :
    chainLinks [a] (rest.map fun b => (Shift.forward,[b])) =
      (Outline.neighbours (a :: rest)).map fun p => ⟨p.1,p.2⟩ := by
  induction rest generalizing a with
  | nil => rfl
  | cons b rest ih =>
    rw [List.map_cons,chainLinks,ih,Outline.neighbours]
    rfl

omit names in
theorem mem_chainOperands_names {a x : List Char} {rest : List (List Char)}
    (inside : x ∈ chainOperands [a] (rest.map fun b => (Shift.forward,[b]))) : x ∈ a :: rest := by
  induction rest generalizing a with
  | nil => cases inside
  | cons b rest ih =>
    rw [List.map_cons,chainOperands,List.mem_append] at inside
    rcases inside with here | later
    · have ends : x = a ∨ x = b := by simpa using here
      rcases ends with rfl | rfl
      · exact List.mem_cons_self
      · exact List.mem_cons_of_mem _ List.mem_cons_self
    · exact List.mem_cons_of_mem _ (ih later)

/-- A chain links each name to the next and looks up no other names. -/
theorem reading_chainText : (readDependency (chainText a rest)).makesSense = true ∧
    (readDependency (chainText a rest)).links =
      (Outline.neighbours (a :: rest)).map (fun p => ⟨p.1,p.2⟩) ∧
    ∀ x ∈ (readDependency (chainText a rest)).operands, x ∈ a :: rest := by
  cases rest with
  | nil =>
    have alone : readDependency (chainText a []) = .other :=
      readDependency_name (names a List.mem_cons_self)
    rw [alone]
    exact ⟨rfl,rfl,fun _ inside => (List.not_mem_nil inside).elim⟩
  | cons b more =>
    rw [readDependency_chainText names rfl]
    exact ⟨rfl,chainLinks_names a (b :: more),fun _ inside => mem_chainOperands_names inside⟩

theorem shows_chainLine : Shows (chainLine a rest) (chainText a rest) := by
  have level : ∀ c ∈ chainText a rest, joins c = false := by
    intro c inside
    rcases char_of_chainText names c inside with word | rfl | rfl
    · exact not_joins_of_isMild (isMild_of_isAsciiWord word)
    · decide
    · decide
  refine ⟨⟨"    ".toList,by decide,?_⟩,?_⟩
  · rw [chainLine,lineView_code]
    exact List.append_nil _
  · refine ⟨notMem_of_not_joins level (by decide),notMem_of_not_joins level (by decide),
      notMem_of_not_joins level (by decide),depthOver_of_not_joins level 0,?_,?_⟩
    · obtain ⟨c,more,begins,word⟩ := first_chainText names
      exact ⟨c,more,begins,Text.isBlank_of_isAsciiWord word⟩
    · exact fun c last => Text.isBlank_of_isAsciiWord (last_chainText names c last)

theorem spaced_chainLine : Spaced (chainLine a rest) := by
  refine ⟨?_,trivial⟩
  rw [List.all_append,Bool.and_eq_true,List.all_eq_true (l := chainText a rest)]
  refine ⟨by decide,fun c inside => ?_⟩
  rcases char_of_chainText names c inside with word | rfl | rfl
  · exact isPlain_of_isAsciiWord word
  · decide
  · decide

theorem lineFeed_notMem_chainLine : '\n' ∉ written (chainLine a rest) := by
  rw [written_chainLine,List.mem_append,not_or]
  exact ⟨by decide,notMem_chainText names (by decide) (by decide) (by decide)⟩

theorem operatorCall?_chainLine (n : Nat) (lines : List Line) :
    operatorCall? n (lineCells (chainLine a rest :: lines)) = none := by
  obtain ⟨nonempty,word⟩ := Text.word_of_isIdentifier (names a List.mem_cons_self)
  cases rest with
  | nil =>
    have line : lineCells (chainLine a [] :: lines) =
        codeCells ("    ".toList ++ a) ++ ⟨'\n',.code⟩ :: lineCells lines := by
      simp [lineCells_cons,chainLine,chainText,pieceCells,Piece.cells]
    obtain ⟨-,behind⟩ := firstWord "    ".toList (by decide) nonempty word (x := ⟨'\n',.code⟩)
      (by decide) (lineCells lines)
    have next : skipSpaces (⟨'\n',.code⟩ :: lineCells lines) = ⟨'\n',.code⟩ :: lineCells lines := rfl
    rw [line]
    simp only [operatorCall?,behind,next]
    split
    next => rfl
    next => rfl
  | cons b more =>
    have line : lineCells (chainLine a (b :: more) :: lines) =
        codeCells ("    ".toList ++ a) ++ ⟨' ',.code⟩ :: ⟨'>',.code⟩ ::
          (codeCells ("> ".toList ++ chainText b more) ++ ⟨'\n',.code⟩ :: lineCells lines) := by
      simp [lineCells_cons,chainLine,chainText,pieceCells,Piece.cells,codeCells]
    rw [line]
    exact operatorCall?_other "    ".toList (by decide) nonempty word (by decide) (by decide) n _

end Chain

theorem operatorCallsFrom_chains {chains : List (List Char × List (List Char))}
    (names : ∀ c ∈ chains, ∀ b ∈ c.1 :: c.2, Text.isIdentifier b = true) (n : Nat) :
    operatorCallsFrom n (lineCells (chains.map fun c => chainLine c.1 c.2)) = [] := by
  induction chains generalizing n with
  | nil => rfl
  | cons c chains ih =>
    obtain ⟨here,others⟩ := List.forall_mem_cons.mp names
    rw [List.map_cons,operatorCallsFrom_cons (lineFeed_notMem_chainLine here),
      operatorCall?_chainLine here,ih others]
    rfl

end PipelineAtlas.Airflow

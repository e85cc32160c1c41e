import PipelineAtlas.Proofs.Airflow.Marked
import PipelineAtlas.Proofs.Script.Standing

/-! Dependencies as they are spelled in a source. Every piece between commas is an operand, or nothing of
it is seen: a string literal leaves a gap where an operand could stand. -/
namespace PipelineAtlas.Airflow

open Script

/-- An entry of a list of variables. -/
inductive Entry : List Cell → Option (List Char) → Prop
  | silent {w : List Cell} (silent : Silent w) : Entry w none
  | name {front back : List Cell} {name : List Char} (before : Silent front)
      (identifier : Text.isIdentifier name = true) (behind : Silent back) :
      Entry (front ++ (codeCells name ++ back)) (some name)

/-- A variable, or a list of variables in square brackets. -/
inductive Operand : List Cell → List (List Char) → Prop
  | name {w : List Cell} {name : List Char} (entry : Entry w (some name)) : Operand w [name]
  | list {front back : List Cell} {entries : List (List Cell)} {names : List (Option (List Char))}
      (before : Silent front) (entry : List.Forall₂ Entry entries names) (behind : Silent back) :
      Operand (front ++ codeCell '[' :: (commaSeparated entries ++ codeCell ']' :: back))
        names.reduceOption

/-- What stands between two commas of a chain. -/
inductive Piece : List Cell → Option (List (List Char)) → Prop
  | silent {w : List Cell} (silent : Silent w) : Piece w none
  | operand {w : List Cell} {names : List (List Char)} (operand : Operand w names) :
      Piece w (some names)

/-- What is seen around a dependency: the target of an assignment, parentheses and blanks. -/
structure Frame (front back : List Char) : Prop where
  front : ∃ target opening, front = target ++ opening ∧
    (target = [] ∨ ∃ name, target = name ++ ['='] ∧
      ∀ c ∈ name, Text.isWord c = true ∨ c = '.' ∨ Text.isBlank c = true) ∧
    ∀ c ∈ opening, Text.isBlank c = true ∨ c = '('
  back : ∀ c ∈ back, Text.isBlank c = true ∨ c ∈ brackets

def Dependency.chained : List (List (List Char)) → Dependency
  | [] => .groups [] []
  | first :: rest => .groups first (rest.map fun names => (.forward,names))

def markedCells (step : Shift × List Cell) : List Cell := codeCells step.1.mark ++ step.2

/-- How dependencies are spelled. What is called has its arguments up to the last bracket. -/
inductive Spelled : List Cell → Dependency → Prop
  | chain {front back : List Cell} {path : List Char} {entries : List (List Cell)}
      {groups : List (Option (List (List Char)))} (frame : Frame (oneLine front) (oneLine back))
      (isPath : IsChainPath path) (pieces : List.Forall₂ Piece entries groups) :
      Spelled (front ++ (codeCells path ++
        codeCell '(' :: (commaSeparated entries ++ codeCell ')' :: back)))
        (.chained groups.reduceOption)
  | call {front body back : List Cell} {task : List Char} {shift : Shift} {others : List (List Char)}
      (frame : Frame (oneLine front) (oneLine back)) (starts : startsName task = true)
      (word : ∀ c ∈ task, Text.isWord c = true) (operand : Operand body others) :
      Spelled (front ++ (codeCells (task ++ linkingMethod shift) ++
        codeCell '(' :: (body ++ codeCell ')' :: back))) (.call task shift others)
  | marks {front first back : List Cell} {steps : List (Shift × List Cell)} {firsts : List (List Char)}
      {others : List (Shift × List (List Char))} (frame : Frame (oneLine front) (oneLine back))
      (operand : Operand first firsts)
      (operands : List.Forall₂ (fun step group => step.1 = group.1 ∧ Operand step.2 group.2)
        steps others) :
      Spelled (front ++ ((first ++ steps.flatMap markedCells) ++ back)) (.groups firsts others)

theorem silent_of_blank {w cells : List Cell} (seen : oneLine w = text cells)
    (blank : ∀ x ∈ cells, Text.isBlank x.char = true) : Silent w := by
  intro c inside
  rw [seen] at inside
  obtain ⟨x,held,rfl⟩ := List.mem_map.mp inside
  exact blank x held

theorem split_pieces {w cells : List Cell} (seen : oneLine w = text cells) : ∃ entries,
    w = commaSeparated entries ∧ entries.map oneLine = (splitFrom ',' 0 [] cells).map text := by
  have joined := text_intercalate (codeCell ',') (splitFrom ',' 0 [] cells)
  rw [intercalate_splitFrom] at joined
  exact split_commas (by simpa using splitFrom_ne_nil ',' 0 [] cells) (seen.trans joined)

/-- A blank piece is silent, and the others are read. -/
theorem exists_groups {α : Type} {spelled : List Cell → Option α → Prop}
    {reads : List Cell → α → Prop} (silent : ∀ w, Silent w → spelled w none)
    (visible : ∀ w part r, oneLine w = text part → reads part r → spelled w (some r))
    {entries parts : List (List Cell)} (same : entries.map oneLine = parts.map text)
    {results : List α}
    (read : List.Forall₂ reads (parts.filter fun part => !isBlankPart part) results) :
    ∃ groups, List.Forall₂ spelled entries groups ∧ groups.reduceOption = results := by
  induction parts generalizing entries results with
  | nil =>
    obtain rfl : entries = [] := by simpa using same
    cases read
    exact ⟨[],.nil,rfl⟩
  | cons part parts ih =>
    obtain ⟨w,entries,rfl⟩ : ∃ w ws, entries = w :: ws := by
      refine List.exists_cons_of_ne_nil ?_
      rintro rfl
      simp at same
    obtain ⟨seen,later⟩ := List.cons.inj same
    cases blank : isBlankPart part with
    | true =>
      rw [List.filter_cons_of_neg (by simp [blank])] at read
      obtain ⟨groups,given,rfl⟩ := ih later read
      exact ⟨none :: groups,.cons (silent w (silent_of_blank seen (by simpa [isBlankPart] using blank)))
        given,rfl⟩
    | false =>
      rw [List.filter_cons_of_pos (by simp [blank])] at read
      cases read with
      | @cons _ r _ _ here further =>
        obtain ⟨groups,given,rfl⟩ := ih later further
        exact ⟨some r :: groups,.cons (visible w part r seen here) given,rfl⟩

theorem entry_of_identifier {w part : List Cell} (seen : oneLine w = text part)
    (identifier : Text.isIdentifier (text (trimCells part)) = true) :
    Entry w (some (text (trimCells part))) := by
  obtain ⟨front,back,split,before,behind⟩ := trimCells_split part
  obtain ⟨nonempty,word⟩ := Text.word_of_isIdentifier identifier
  have cut : oneLine w = text front ++ (text (trimCells part) ++ text back) := by
    rw [seen,← text_append,← text_append,← split]
  obtain ⟨a,b,rfl,seenFront,seenBack⟩ := split_visibles nonempty
    (fun c inside => Text.isBlank_of_isAsciiWord (word c inside)) cut
  exact .name (silent_of_blank seenFront before) identifier (silent_of_blank seenBack behind)

/-- What is read as an operand is spelled as one. -/
theorem operand_of_read {w part : List Cell} {names : List (List Char)}
    (seen : oneLine w = text part) (read : operandNames? part = some names) : Operand w names := by
  rcases operandNames?_cases read with ⟨identifier,rfl⟩ | ⟨x,y,inside,opens,closes,whole,named,rfl⟩
  · exact .name (entry_of_identifier seen identifier)
  · obtain ⟨front,back,split,before,behind⟩ := trimCells_split part
    have cut : oneLine w = text front ++ '[' :: (text inside ++ ']' :: text back) := by
      rw [seen,split,whole]
      simp [opens,closes]
    obtain ⟨a,r,rfl,seenFront,rest⟩ := split_oneLine (by decide) cut
    obtain ⟨m,b,rfl,seenInside,seenBack⟩ := split_oneLine (by decide) rest
    obtain ⟨entries,rfl,same⟩ := split_pieces seenInside
    have reads : List.Forall₂ (fun part name => Text.isIdentifier (text (trimCells part)) = true ∧
        name = text (trimCells part)) (splitTopLevel ',' inside)
        ((splitTopLevel ',' inside).map fun part => text (trimCells part)) :=
      List.forall₂_map_right_iff.mpr (List.forall₂_same.mpr fun part member => ⟨named part member,rfl⟩)
    obtain ⟨names,entry,same⟩ := exists_groups (fun _ => Entry.silent) (fun w part name seen given => by
      obtain ⟨identifier,rfl⟩ := given
      exact entry_of_identifier seen identifier) same reads
    rw [← same]
    exact .list (silent_of_blank seenFront before) entry (silent_of_blank seenBack behind)

theorem steps_of_read {w first : List Cell} {rest : List (Shift × List Cell)}
    {firsts : List (List Char)} {others : List (Shift × List (List Char))}
    (readFirst : operandNames? first = some firsts) (readOthers : rest.mapM groupOf? = some others)
    (seen : oneLine w = (⟨first,rest⟩ : ShiftChain).text) : ∃ (v : List Cell) (steps : _),
      w = v ++ steps.flatMap markedCells ∧ Operand v firsts ∧
        List.Forall₂ (fun step group => step.1 = group.1 ∧ Operand step.2 group.2) steps others := by
  induction rest generalizing w first firsts others with
  | nil =>
    obtain rfl : others = [] := by simpa using readOthers.symm
    exact ⟨w,[],by simp,operand_of_read (by simpa [ShiftChain.text] using seen) readFirst,.nil⟩
  | cons step rest ih =>
    obtain ⟨s,next⟩ := step
    obtain ⟨names,more,readNext,readRest,rfl⟩ := groupOf?_cons readOthers
    have cut : oneLine w = text first ++ (s.mark ++ (⟨next,rest⟩ : ShiftChain).text) := by
      simpa [ShiftChain.text] using seen
    have visible : ∀ c ∈ s.mark, Text.isBlank c = false := by cases s <;> decide
    obtain ⟨v,w,rfl,seenFirst,seenRest⟩ := split_visibles (by cases s <;> decide) visible cut
    obtain ⟨u,steps,rfl,operand,operands⟩ := ih readNext readRest seenRest
    refine ⟨v,(s,u) :: steps,by simp [markedCells],operand_of_read seenFirst readFirst,
      .cons ⟨rfl,operand⟩ operands⟩

theorem operand_ne_nil {cells : List Cell} {names : List (List Char)}
    (read : operandNames? cells = some names) : cells ≠ [] := by
  rintro rfl
  simp [operandNames?,trimCells,text,Text.isIdentifier,listBody?] at read

theorem reads_of_mapM {rest : List (List Cell)} {others : List (Shift × List (List Char))}
    (read : (rest.map fun part => (Shift.forward,part)).mapM groupOf? = some others) :
    ∃ results, others = results.map (fun names => (.forward,names)) ∧
      List.Forall₂ (fun part names => operandNames? part = some names) rest results := by
  induction rest generalizing others with
  | nil => exact ⟨[],by simpa using read.symm,.nil⟩
  | cons part rest ih =>
    obtain ⟨names,more,readPart,readRest,rfl⟩ := groupOf?_cons read
    obtain ⟨results,rfl,reads⟩ := ih readRest
    exact ⟨names :: results,rfl,.cons readPart reads⟩

/-- The three kinds of dependencies. -/
inductive Reads (cells : List Cell) : Dependency → Prop
  | call {task : List Char} {shift : Shift} {body : List Cell} {others : List (List Char)}
      (called : setCall? cells = some (task,shift,body)) (read : operandNames? body = some others) :
      Reads cells (.call task shift others)
  | chain {body : List Cell} {results : List (List (List Char))}
      (called : chainCall? cells = some body)
      (reads : List.Forall₂ (fun part names => operandNames? part = some names)
        (splitTopLevel ',' body) results) : Reads cells (.chained results)
  | marks {firsts : List (List Char)} {others : List (Shift × List (List Char))}
      (readFirst : operandNames? (shiftChain cells).first = some firsts)
      (readOthers : (shiftChain cells).rest.mapM groupOf? = some others) :
      Reads cells (.groups firsts others)

theorem eq_some_of_ofOption {dep : Option Dependency} {d : Dependency}
    (read : Reading.ofOption dep = .dependency d) : dep = some d := by
  cases dep with
  | none => simp [Reading.ofOption] at read
  | some d' => exact congrArg some (Reading.dependency.inj read)

theorem reads_of_dependency {s : List Char} {dep : Dependency}
    (read : readDependency s = .dependency dep) : Reads (unwrap (scan (expression s))) dep := by
  simp only [readDependency] at read
  generalize unwrap (scan (expression s)) = cells at read
  cases set : setCall? cells with
  | some call =>
    obtain ⟨task,shift,body⟩ := call
    simp only [set] at read
    cases operand : operandNames? body with
    | none => simp [operand] at read
    | some others =>
      simp only [operand,Reading.dependency.injEq] at read
      subst read
      exact .call set operand
  | none =>
  simp only [set] at read
  cases chain : chainCall? cells with
  | some body =>
    simp only [chain] at read
    cases parts : splitTopLevel ',' body with
    | nil =>
      simp only [parts,Reading.dependency.injEq] at read
      subst read
      change Reads cells (.chained [])
      exact .chain chain (by rw [parts]; exact .nil)
    | cons first rest =>
      simp only [parts] at read
      obtain ⟨firsts,others,readFirst,readOthers,rfl⟩ := readGroups_eq_some (eq_some_of_ofOption read)
      obtain ⟨results,rfl,reads⟩ := reads_of_mapM readOthers
      change Reads cells (.chained (firsts :: results))
      exact .chain chain (by rw [parts]; exact .cons readFirst reads)
  | none =>
    simp only [chain] at read
    split at read
    next => simp at read
    next =>
      obtain ⟨firsts,others,readFirst,readOthers,rfl⟩ := readGroups_eq_some (eq_some_of_ofOption read)
      exact .marks readFirst readOthers

theorem visible_linkingMethod (s : Shift) : linkingMethod s ≠ [] ∧
    ∀ c ∈ linkingMethod s, Text.isBlank c = false := by
  cases s <;> decide

theorem IsChainPath.visible {path : List Char} (isPath : IsChainPath path) :
    path ≠ [] ∧ ∀ c ∈ path, Text.isBlank c = false := by
  constructor
  · rintro rfl
    exact absurd isPath.last (by decide)
  · intro c inside
    rcases isPath.inPath c inside with word | rfl
    · exact Text.isBlank_of_isWord word
    · rfl

theorem begins_of_seen {w : List Cell} {c : Char} {q : List Char} (visible : Text.isBlank c = false)
    (cut : oneLine w = c :: q) : ∃ b, w = codeCell c :: b ∧ oneLine b = q := by
  obtain ⟨none,b,rfl,empty,rfl⟩ := split_oneLine (p := []) visible cut
  obtain rfl := oneLine_eq_nil empty
  exact ⟨b,rfl,rfl⟩

theorem ends_of_trimmed {cells : List Cell} (trimmed : Trimmed cells) (some : cells ≠ []) :
    (∃ c ∈ (text cells).head?, Text.isBlank c = false) ∧
      ∃ c ∈ (text cells).getLast?, Text.isBlank c = false := by
  constructor
  · obtain ⟨x,rest,rfl⟩ := List.exists_cons_of_ne_nil some
    exact ⟨x.char,rfl,trimmed.1 x rfl⟩
  · obtain ⟨x,last⟩ := Option.isSome_iff_exists.mp (List.getLast?_isSome.mpr some)
    exact ⟨x.char,by simp [text,last],trimmed.2 x last⟩

theorem split_call {w body : List Cell} {p name q : List Char} (some : name ≠ [])
    (visible : ∀ c ∈ name, Text.isBlank c = false)
    (cut : oneLine w = p ++ ((name ++ '(' :: (text body ++ [')'])) ++ q)) :
    ∃ front inside back, w = front ++ (codeCells name ++ codeCell '(' ::
      (inside ++ codeCell ')' :: back)) ∧ oneLine front = p ∧ oneLine inside = text body ∧
        oneLine back = q := by
  rw [List.append_assoc] at cut
  obtain ⟨front,called,rfl,rfl,rest⟩ := split_visibles some visible cut
  obtain ⟨arguments,rfl,behind⟩ := begins_of_seen (by decide) rest
  obtain ⟨inside,back,rfl,seen,rfl⟩ :=
    split_oneLine (by decide) (behind.trans (List.append_assoc (text body) [')'] q))
  exact ⟨front,inside,back,rfl,rfl,seen,rfl⟩

theorem spelled_of_reads {w core : List Cell} {dep : Dependency} {p q : List Char}
    (frame : Frame p q) (cut : oneLine w = p ++ (text core ++ q)) (trimmed : Trimmed core)
    (reads : Reads core dep) : Spelled w dep := by
  cases reads with
  | @call task shift body others called read =>
    obtain ⟨whole,starts,word⟩ := setCall?_split called
    rw [whole,← List.append_assoc task] at cut
    obtain ⟨some,method⟩ := visible_linkingMethod shift
    have visible : ∀ c ∈ task ++ linkingMethod shift, Text.isBlank c = false :=
      List.forall_mem_append.mpr ⟨fun c inside => Text.isBlank_of_isWord (word c inside),method⟩
    obtain ⟨front,inside,back,rfl,rfl,seen,rfl⟩ :=
      split_call (List.append_ne_nil_of_right_ne_nil task some) visible cut
    exact .call frame starts word (operand_of_read seen read)
  | @chain body results called reads =>
    obtain ⟨path,whole,isPath⟩ := chainCall?_split called
    rw [whole] at cut
    obtain ⟨front,inside,back,rfl,rfl,seen,rfl⟩ :=
      split_call isPath.visible.1 isPath.visible.2 cut
    obtain ⟨entries,rfl,same⟩ := split_pieces seen
    obtain ⟨groups,pieces,rfl⟩ := exists_groups (fun _ => Piece.silent)
      (fun w part names seen read => .operand (operand_of_read seen read)) same reads
    exact .chain frame isPath pieces
  | @marks firsts others readFirst readOthers =>
    have chain : text core = (shiftChain core).text := (text_shiftChainFrom 0 core).symm
    have some : text (shiftChain core).first ≠ [] := by
      simpa [text] using operand_ne_nil readFirst
    have nonempty : core ≠ [] := by
      rintro rfl
      exact some rfl
    obtain ⟨⟨c,begins,visible⟩,last⟩ := ends_of_trimmed trimmed nonempty
    have slash : c ≠ '\\' := by
      have inFirst : c ∈ text (shiftChain core).first := by
        rw [chain,Option.mem_def] at begins
        exact mem_of_head some begins
      have straight : ∀ d ∈ ['[',',',']'], d ≠ '\\' := by decide
      rcases char_of_operand readFirst c inFirst with blank | word | bracket
      · simp [visible] at blank
      · exact Text.ne_of_isAsciiWord word (by decide)
      · exact straight c bracket
    obtain ⟨front,m,back,rfl,rfl,seen,rfl⟩ := split_between ⟨c,begins,visible,slash⟩ last cut
    obtain ⟨v,steps,rfl,operand,operands⟩ := steps_of_read readFirst readOthers (seen.trans chain)
    exact .marks frame operand operands

theorem exists_frame (s : List Char) : ∃ p q,
    s = p ++ (text (unwrap (scan (expression s))) ++ q) ∧ Frame p q := by
  obtain ⟨a,b,split,before,behind⟩ := unwrap_parens (scan (expression s))
  have texts : expression s = text a ++ (text (unwrap (scan (expression s))) ++ text b) := by
    rw [← text_append,← text_append,← split,scan,text_scanFrom]
  have opening : ∀ c ∈ text a, Text.isBlank c = true ∨ c = '(' := by
    intro c inside
    obtain ⟨x,held,rfl⟩ := List.mem_map.mp inside
    refine (before x held).imp_right fun opens => ?_
    simp only [Cell.isCode,Bool.and_eq_true,beq_iff_eq] at opens
    exact opens.2
  have closing : ∀ c ∈ text b, Text.isBlank c = true ∨ c ∈ brackets := by
    intro c inside
    obtain ⟨x,held,rfl⟩ := List.mem_map.mp inside
    exact (behind x held).imp_right fun closes => char_of_bracket (.inr closes)
  rcases expression_split s with same | ⟨target,whole,inTarget⟩
  · exact ⟨text a,text b,same.symm.trans texts,⟨[],text a,rfl,.inl rfl,opening⟩,closing⟩
  · refine ⟨(target ++ ['=']) ++ text a,text b,?_,
      ⟨_,text a,rfl,.inr ⟨target,rfl,inTarget⟩,opening⟩,closing⟩
    rw [List.append_assoc,List.append_assoc,← texts]
    exact whole

theorem Frame.append_blank {p q blanks : List Char} (frame : Frame p q)
    (blank : ∀ c ∈ blanks, Text.isBlank c = true) : Frame p (q ++ blanks) :=
  ⟨frame.front,List.forall_mem_append.mpr ⟨frame.back,fun c inside => .inl (blank c inside)⟩⟩

/-- What reads as a dependency is spelled as one. -/
theorem spelled_of_dependency {s : Statement} {passage : List Cell}
    (seen : s.text = Text.trimRight (oneLine passage)) {dep : Dependency}
    (read : readDependency s.text = .dependency dep) : Spelled passage dep := by
  obtain ⟨blanks,split,blank⟩ := Text.exists_trimRight (oneLine passage)
  obtain ⟨p,q,whole,frame⟩ := exists_frame s.text
  refine spelled_of_reads (frame.append_blank blank) ?_ (trimmed_unwrap _)
    (reads_of_dependency read)
  rw [split,← seen,← List.append_assoc _ q blanks,← List.append_assoc p,← whole]

end PipelineAtlas.Airflow

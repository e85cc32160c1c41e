import PipelineAtlas.Proofs.Airflow.Layout
import PipelineAtlas.Proofs.Airflow.LineBreak
import PipelineAtlas.Proofs.Script.Part

/-! How layouts read. Whatever its gaps, parentheses and target, a layout on one line reads as the
dependency that is laid out. -/
namespace PipelineAtlas.Airflow

open Script

variable {α : Type} {entry : α → List Char → Prop}

theorem balanced_comma : Balanced [','] := .flat (by decide)

theorem Listed.balanced (entries : ∀ x s, entry x s → Balanced s) {xs : List α} {t : List Char}
    (listed : Listed Blanks entry xs t) : Balanced t := by
  induction listed with
  | last before here behind =>
    exact before.balanced.append ((entries _ _ here).append behind.balanced)
  | comma before here behind ending =>
    exact before.balanced.append ((entries _ _ here).append
      (behind.balanced.append (balanced_comma.append ending.balanced)))
  | more before here behind _ ih =>
    exact before.balanced.append ((entries _ _ here).append
      (behind.balanced.append (balanced_comma.append ih)))

theorem Listed.forall {p : Char → Prop} (plain : ∀ c, Plain c → p c) (comma : p ',')
    (entries : ∀ x s, entry x s → ∀ c ∈ s, p c) {xs : List α} {t : List Char}
    (listed : Listed Blanks entry xs t) : ∀ c ∈ t, p c := by
  have blanks {s : List Char} (blanks : Blanks s) : ∀ c ∈ s, p c := fun c inside =>
    plain c (blanks.plain c inside)
  induction listed with
  | last before here behind =>
    simp only [List.forall_mem_append]
    exact ⟨blanks before,entries _ _ here,blanks behind⟩
  | comma before here behind ending =>
    simp only [List.forall_mem_append,List.forall_mem_cons]
    exact ⟨blanks before,entries _ _ here,blanks behind,comma,blanks ending⟩
  | more before here behind _ ih =>
    simp only [List.forall_mem_append,List.forall_mem_cons]
    exact ⟨blanks before,entries _ _ here,blanks behind,comma,ih⟩

theorem plain_of_isIdentifier {name : List Char} (identifier : Text.isIdentifier name = true) :
    ∀ c ∈ name, Plain c := fun c inside =>
  plain_of_isAsciiWord ((Text.word_of_isIdentifier identifier).2 c inside)

theorem Name.plain {name s : List Char} (named : Name name s) : ∀ c ∈ s, Plain c := by
  obtain ⟨identifier⟩ := named
  exact plain_of_isIdentifier identifier

theorem Group.balanced {group : List (List Char)} {s : List Char} (laid : Group Blanks group s) :
    Balanced s := by
  cases laid with
  | one identifier => exact balanced_of_plain (plain_of_isIdentifier identifier)
  | list listed =>
    exact .nest (by simp) (listed.balanced fun _ _ named => balanced_of_plain named.plain) (by simp)

theorem Group.unmarked {group : List (List Char)} {s : List Char} (laid : Group Blanks group s) :
    ∀ c ∈ s, isQuote c = false ∧ isMark c = false := by
  have plain : ∀ c, Plain c → isQuote c = false ∧ isMark c = false := fun _ plain =>
    ⟨plain.quote,plain.mark⟩
  cases laid with
  | one identifier => exact fun c inside => plain c (plain_of_isIdentifier identifier c inside)
  | list listed =>
    have inside := listed.forall plain (by decide) fun _ _ named c inside =>
      plain c (named.plain c inside)
    exact List.forall_mem_cons.mpr ⟨by decide,List.forall_mem_append.mpr ⟨inside,by decide⟩⟩

theorem Marked.noQuote {group : List (List Char)} {rest : List (Shift × List (List Char))}
    {s : List Char} (marked : Marked Blanks group rest s) : ∀ c ∈ s, isQuote c = false := by
  induction marked with
  | last laid => exact fun c inside => (laid.unmarked c inside).1
  | @mark _ _ _ _ _ _ _ shift laid before behind _ ih =>
    have mark : ∀ c ∈ shift.mark, isQuote c = false := by cases shift <;> decide
    simp only [List.forall_mem_append]
    exact ⟨fun c inside => (laid.unmarked c inside).1,before.noQuote,mark,
      behind.noQuote,ih⟩

theorem Marked.balanced {group : List (List Char)} {rest : List (Shift × List (List Char))}
    {s : List Char} (marked : Marked Blanks group rest s) : Balanced s := by
  induction marked with
  | last laid => exact laid.balanced
  | @mark _ _ _ _ _ _ _ shift laid before behind _ ih =>
    have mark : Balanced shift.mark := .flat (by cases shift <;> decide)
    exact laid.balanced.append (before.balanced.append (mark.append (behind.balanced.append ih)))

theorem Bare.noQuote {dep : Dependency} {s : List Char} (bare : Bare Blanks dep s) :
    ∀ c ∈ s, isQuote c = false := by
  cases bare with
  | marks marked => exact marked.noQuote
  | chain listed =>
    have inside := listed.forall (fun _ plain => plain.quote) (by decide) fun _ _ laid c inside =>
      (laid.unmarked c inside).1
    refine List.forall_mem_append.mpr ⟨by decide,List.forall_mem_cons.mpr ⟨by decide,?_⟩⟩
    exact List.forall_mem_append.mpr ⟨inside,by decide⟩
  | @call task shift _ _ _ _ identifier before laid behind =>
    have word : ∀ c ∈ task, isQuote c = false := fun c inside =>
      (plain_of_isIdentifier identifier c inside).quote
    have method : ∀ c ∈ linkingMethod shift, isQuote c = false := by cases shift <;> decide
    simp only [List.forall_mem_append,List.forall_mem_cons]
    exact ⟨word,method,by decide,before.noQuote,fun c inside => (laid.unmarked c inside).1,
      behind.noQuote,by decide⟩

theorem Bare.balanced {dep : Dependency} {s : List Char} (bare : Bare Blanks dep s) :
    Balanced s := by
  cases bare with
  | marks marked => exact marked.balanced
  | chain listed =>
    exact (Balanced.flat (by decide)).append
      (.nest (by simp) (listed.balanced fun _ _ laid => laid.balanced) (by simp))
  | @call task shift _ a s b identifier before laid behind =>
    have word := balanced_of_plain (plain_of_isIdentifier identifier)
    have method : Balanced (linkingMethod shift) := .flat (by cases shift <;> decide)
    have argument : Balanced ('(' :: ((a ++ (s ++ b)) ++ [')'])) :=
      .nest (by simp) (before.balanced.append (laid.balanced.append behind.balanced)) (by simp)
    simpa using word.append (method.append argument)

theorem Parenthesized.noQuote {dep : Dependency} {s : List Char} (enclosed : Parenthesized Blanks dep s) :
    ∀ c ∈ s, isQuote c = false := by
  induction enclosed with
  | bare bare => exact bare.noQuote
  | parens before _ behind ih =>
    simp only [List.forall_mem_append,List.forall_mem_cons]
    exact ⟨by decide,before.noQuote,ih,behind.noQuote,by decide⟩

theorem Parenthesized.balanced {dep : Dependency} {s : List Char} (enclosed : Parenthesized Blanks dep s) :
    Balanced s := by
  induction enclosed with
  | bare bare => exact bare.balanced
  | @parens a s b before _ behind ih =>
    have whole : Balanced ('(' :: ((a ++ (s ++ b)) ++ [')'])) :=
      .nest (by simp) (before.balanced.append (ih.append behind.balanced)) (by simp)
    simpa using whole

inductive Padded (entry : α → List Char → Prop) (x : α) : List Cell → Prop
  | padded {a s b : List Char} (before : Blanks a) (here : entry x s) (behind : Blanks b) :
      Padded entry x (codeCells a ++ (scan s ++ codeCells b))

section

variable (entries : ∀ x s, entry x s → Part s)

include entries

theorem Padded.level {x : α} {part : List Cell} (padded : Padded entry x part) : Level part := by
  obtain ⟨before,here,behind⟩ := padded
  exact before.balanced.level.append ((entries _ _ here).level.append behind.balanced.level)

theorem Padded.undivided {x : α} {part : List Cell} (padded : Padded entry x part) :
    Undivided part := by
  obtain ⟨before,here,behind⟩ := padded
  exact (solo_of_plain before.plain).undivided.append
    ((entries _ _ here).undivided.append (solo_of_plain behind.plain).undivided)

theorem Padded.visible {x : α} {part : List Cell} (padded : Padded entry x part) :
    isBlankPart part = false := by
  obtain ⟨_,here,_⟩ := padded
  exact isBlankPart_between (by simpa [scan] using (entries _ _ here).tight) _

variable {xs : List α} {t : List Char} (listed : Listed Blanks entry xs t)

include listed

theorem Listed.detached : Detached t := by
  induction listed with
  | last before here behind =>
    have later := detached_of_unquoted behind.noQuote
    have apart := noQuoteFirst_of_unquoted behind.noQuote
    exact ((entries _ _ here).detached.append later apart).behind_unquoted before.noQuote
  | comma before here behind ending =>
    exact (entries _ _ here).detached.comma before behind (detached_of_unquoted ending.noQuote)
  | more before here behind _ ih => exact (entries _ _ here).detached.comma before behind ih

theorem Listed.level : Level (scan t) := by
  have comma {cells : List Cell} (level : Level cells) : Level (⟨',',.code⟩ :: cells) :=
    balanced_comma.level.append level
  induction listed with
  | last before here behind =>
    rw [(entries _ _ here).detached.scan_between before behind]
    exact Padded.level entries (.padded before here behind)
  | comma before here behind ending =>
    rw [(entries _ _ here).detached.scan_comma before behind,scan_of_unquoted ending.noQuote]
    exact (Padded.level entries (.padded before here behind)).append (comma ending.balanced.level)
  | more before here behind _ ih =>
    rw [(entries _ _ here).detached.scan_comma before behind]
    exact (Padded.level entries (.padded before here behind)).append (comma ih)

/-- The parts of a list are its entries. -/
theorem Listed.splitTopLevel :
    List.Forall₂ (Padded entry) xs (Script.splitTopLevel ',' (scan t)) := by
  induction listed with
  | last before here behind =>
    have padded := Padded.padded before here behind
    rw [(entries _ _ here).detached.scan_between before behind,
      splitTopLevel_undivided (padded.undivided entries),padded.visible entries]
    exact .cons padded .nil
  | comma before here behind ending =>
    have padded := Padded.padded before here behind
    rw [(entries _ _ here).detached.scan_comma before behind,
      splitTopLevel_comma (padded.undivided entries),padded.visible entries,
      scan_of_unquoted ending.noQuote,splitTopLevel_undivided (solo_of_plain ending.plain).undivided,
      isBlankPart_blanks ending]
    exact .cons padded .nil
  | more before here behind _ ih =>
    have padded := Padded.padded before here behind
    rw [(entries _ _ here).detached.scan_comma before behind,
      splitTopLevel_comma (padded.undivided entries),padded.visible entries]
    exact .cons padded ih

end

theorem Name.part {name s : List Char} (named : Name name s) : Part s := by
  obtain ⟨identifier⟩ := named
  exact part_of_plain (tight_of_solid (solid_of_isIdentifier identifier))
    (plain_of_isIdentifier identifier)

theorem Group.part {group : List (List Char)} {s : List Char} (laid : Group Blanks group s) :
    Part s := by
  cases laid with
  | one identifier => exact (Name.name identifier).part
  | list listed =>
    have parts : ∀ name s, Name name s → Part s := fun _ _ => Name.part
    exact part_of_enclosed (by simp) (by simp) (listed.detached parts) (listed.level parts)

/-- Names and the lists of them are scanned as code. -/
theorem Listed.scan_unquoted (entries : ∀ x s, entry x s → ∀ c ∈ s, isQuote c = false) {xs : List α}
    {t : List Char} (listed : Listed Blanks entry xs t) : scan t = codeCells t :=
  scan_of_unquoted (listed.forall (fun _ plain => plain.quote) (by decide) entries)

theorem names_of_padded {names : List (List Char)} {parts : List (List Cell)}
    (padded : List.Forall₂ (Padded Name) names parts) :
    (parts.map fun part => text (trimCells part)) = names ∧
      names.all Text.isIdentifier = true := by
  induction padded with
  | nil => exact ⟨rfl,rfl⟩
  | cons here _ ih =>
    obtain ⟨before,named,behind⟩ := here
    have trimmed := named.part.trimCells before behind
    obtain ⟨identifier⟩ := named
    rw [List.map_cons,trimmed,scan,text_scanFrom,ih.1,List.all_cons,identifier,ih.2]
    exact ⟨rfl,rfl⟩

theorem operandNames?_of_group {group : List (List Char)} {a s b : List Char} (before : Blanks a)
    (laid : Group Blanks group s) (behind : Blanks b) :
    operandNames? (codeCells (a ++ (s ++ b))) = some group := by
  have trimmed := trimCells_tight before laid.tight behind
  cases laid with
  | one identifier => exact operandNames?_name identifier trimmed
  | @list names t listed =>
    have noName : Text.isIdentifier ('[' :: (t ++ [']'])) = false := rfl
    have body : listBody? (codeCells ('[' :: (t ++ [']']))) = some (codeCells t) := by
      simp [listBody?,codeCells]
    have padded := listed.splitTopLevel fun _ _ => Name.part
    rw [listed.scan_unquoted fun _ _ named c inside => (named.plain c inside).quote] at padded
    obtain ⟨texts,names⟩ := names_of_padded padded
    simp only [operandNames?,trimmed,text_codeCells,noName,body,texts,names,if_true]
    rfl

theorem operandNames?_of_padded {group : List (List Char)} {part : List Cell}
    (padded : Padded (Group Blanks) group part) : operandNames? part = some group := by
  obtain ⟨before,laid,behind⟩ := padded
  rw [scan_of_unquoted fun c inside => (laid.unmarked c inside).1,← codeCells_append,
    ← codeCells_append]
  exact operandNames?_of_group before laid behind

end PipelineAtlas.Airflow

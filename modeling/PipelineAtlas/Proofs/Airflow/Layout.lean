import PipelineAtlas.Proofs.Airflow.Place
import PipelineAtlas.Proofs.Airflow.Spelled
import PipelineAtlas.Proofs.Script.Spacing

/-! Layouts of dependencies. A dependency can be laid out with gaps between its tokens, in parentheses and
behind the target of an assignment. What is called stands right in front of its parenthesis. -/
namespace PipelineAtlas.Airflow

open Script

section

variable (gap : List Char → Prop)

/-- Entries with commas between them. A comma may stand behind the last one. -/
inductive Listed {α : Type} (entry : α → List Char → Prop) : List α → List Char → Prop
  | last {x : α} {a s b : List Char} (before : gap a) (here : entry x s) (behind : gap b) :
      Listed entry [x] (a ++ (s ++ b))
  | comma {x : α} {a s b c : List Char} (before : gap a) (here : entry x s) (behind : gap b)
      (ending : gap c) : Listed entry [x] (a ++ (s ++ (b ++ ',' :: c)))
  | more {x : α} {xs : List α} {a s b t : List Char} (before : gap a) (here : entry x s)
      (behind : gap b) (later : Listed entry xs t) :
      Listed entry (x :: xs) (a ++ (s ++ (b ++ ',' :: t)))

inductive Name : List Char → List Char → Prop
  | name {name : List Char} (identifier : Text.isIdentifier name = true) : Name name name

/-- A variable, or variables in square brackets. -/
inductive Group : List (List Char) → List Char → Prop
  | one {name : List Char} (identifier : Text.isIdentifier name = true) : Group [name] name
  | list {names : List (List Char)} {t : List Char} (listed : Listed gap Name names t) :
      Group names ('[' :: (t ++ [']']))

inductive Marked : List (List Char) → List (Shift × List (List Char)) → List Char → Prop
  | last {group : List (List Char)} {s : List Char} (laid : Group gap group s) : Marked group [] s
  | mark {group next : List (List Char)} {rest : List (Shift × List (List Char))}
      {s a b t : List Char} {shift : Shift} (laid : Group gap group s) (before : gap a)
      (behind : gap b) (later : Marked next rest t) :
      Marked group ((shift,next) :: rest) (s ++ (a ++ (shift.mark ++ (b ++ t))))

inductive Bare : Dependency → List Char → Prop
  | marks {first : List (List Char)} {step : Shift × List (List Char)}
      {rest : List (Shift × List (List Char))} {s : List Char}
      (marked : Marked gap first (step :: rest) s) : Bare (.groups first (step :: rest)) s
  | chain {groups : List (List (List Char))} {t : List Char}
      (listed : Listed gap (Group gap) groups t) :
      Bare (.chained groups) ("chain".toList ++ '(' :: (t ++ [')']))
  | call {task : List Char} {shift : Shift} {others : List (List Char)} {a s b : List Char}
      (identifier : Text.isIdentifier task = true) (before : gap a) (laid : Group gap others s)
      (behind : gap b) : Bare (.call task shift others)
        (task ++ (linkingMethod shift ++ '(' :: (a ++ (s ++ (b ++ [')'])))))

inductive Parenthesized (dep : Dependency) : List Char → Prop
  | bare {s : List Char} (bare : Bare gap dep s) : Parenthesized dep s
  | parens {a s b : List Char} (before : gap a) (inside : Parenthesized dep s) (behind : gap b) :
      Parenthesized dep ('(' :: (a ++ (s ++ (b ++ [')']))))

/-- A dependency as a statement, which may assign it to a name. -/
inductive Layout (dep : Dependency) : List Char → Prop
  | alone {s : List Char} (enclosed : Parenthesized gap dep s) : Layout dep s
  | assigned {target a b s : List Char} (starts : startsName target = true)
      (path : ∀ c ∈ target, Text.isWord c = true ∨ c = '.') (before : gap a) (behind : gap b)
      (enclosed : Parenthesized gap dep s) : Layout dep (target ++ (a ++ '=' :: (b ++ s)))

end

variable {gap : List Char → Prop}

theorem Group.tight {group : List (List Char)} {s : List Char} (laid : Group gap group s) :
    Tight s := by
  cases laid with
  | one identifier => exact tight_of_solid (solid_of_isIdentifier identifier)
  | list =>
    have first : Tight ['['] := tight_of_solid ⟨by simp,by decide⟩
    exact first.around _ (tight_of_solid ⟨by simp,by decide⟩)

theorem Marked.tight {group : List (List Char)} {rest : List (Shift × List (List Char))}
    {s : List Char} (marked : Marked gap group rest s) : Tight s := by
  induction marked with
  | last laid => exact laid.tight
  | @mark _ _ _ _ a b _ shift laid _ _ _ ih =>
    have whole := laid.tight.around (a ++ (shift.mark ++ b)) ih
    simpa using whole

theorem Bare.tight {dep : Dependency} {s : List Char} (bare : Bare gap dep s) : Tight s := by
  have closing : Tight [')'] := tight_of_solid ⟨by simp,by decide⟩
  cases bare with
  | marks marked => exact marked.tight
  | @chain _ t _ =>
    have word : Tight "chain".toList := tight_of_solid ⟨by simp,by decide⟩
    exact word.around ('(' :: t) closing
  | @call task shift _ a s b identifier _ _ _ =>
    have word := tight_of_solid (solid_of_isIdentifier identifier)
    simpa using word.around (linkingMethod shift ++ '(' :: (a ++ (s ++ b))) closing

theorem Parenthesized.tight {dep : Dependency} {s : List Char} (enclosed : Parenthesized gap dep s) :
    Tight s := by
  cases enclosed with
  | bare bare => exact bare.tight
  | @parens a s b _ _ _ =>
    have opening : Tight ['('] := tight_of_solid ⟨by simp,by decide⟩
    simpa using opening.around (a ++ (s ++ b)) (tight_of_solid ⟨by simp,by decide⟩)

theorem Listed.joinLines {α : Type} {entry entry' : α → List Char → Prop}
    (entries : ∀ x s, entry x s → Tight s ∧ entry' x (Script.joinLines s)) {xs : List α}
    {t : List Char} (listed : Listed Spacing entry xs t) :
    Listed Blanks entry' xs (Script.joinLines t) := by
  have comma : Solid [','] := ⟨by simp,by decide⟩
  induction listed with
  | last before here behind =>
    obtain ⟨tight,here⟩ := entries _ _ here
    rw [joinLines_tight tight]
    exact .last (blanks_joinLines before) here (blanks_joinLines behind)
  | comma before here behind ending =>
    obtain ⟨tight,here⟩ := entries _ _ here
    rw [joinLines_tight tight,joinLines_at comma]
    exact .comma (blanks_joinLines before) here (blanks_joinLines behind) (blanks_joinLines ending)
  | more before here behind _ ih =>
    obtain ⟨tight,here⟩ := entries _ _ here
    rw [joinLines_tight tight,joinLines_at comma]
    exact .more (blanks_joinLines before) here (blanks_joinLines behind) ih

theorem Group.joinLines {group : List (List Char)} {s : List Char} (laid : Group Spacing group s) :
    Group Blanks group (Script.joinLines s) := by
  cases laid with
  | one identifier =>
    rw [joinLines_solid (solid_of_isIdentifier identifier)]
    exact .one identifier
  | list listed =>
    rw [joinLines_between ⟨by simp,by decide⟩ ⟨by simp,by decide⟩]
    refine .list (listed.joinLines fun _ _ named => ?_)
    obtain ⟨identifier⟩ := named
    have solid := solid_of_isIdentifier identifier
    rw [joinLines_solid solid]
    exact ⟨tight_of_solid solid,.name identifier⟩

theorem Marked.joinLines {group : List (List Char)} {rest : List (Shift × List (List Char))}
    {s : List Char} (marked : Marked Spacing group rest s) :
    Marked Blanks group rest (Script.joinLines s) := by
  induction marked with
  | last laid => exact .last laid.joinLines
  | @mark _ _ _ s a b t shift laid before behind later ih =>
    have first := joinLines_tight laid.tight [] (a ++ (shift.mark ++ (b ++ t)))
    have last := joinLines_tight later.tight b []
    simp only [List.append_nil] at last
    rw [joinLines_around (solid_mark shift),last] at first
    simp only [Script.joinLines,List.nil_append,List.append_nil] at first
    rw [first]
    exact .mark laid.joinLines (blanks_joinLines before) (blanks_joinLines behind) ih

theorem Bare.joinLines {dep : Dependency} {s : List Char} (bare : Bare Spacing dep s) :
    Bare Blanks dep (Script.joinLines s) := by
  cases bare with
  | marks marked => exact .marks marked.joinLines
  | @chain _ t listed =>
    have opening : Solid "chain(".toList := ⟨by simp,by decide⟩
    have closing : Solid [')'] := ⟨by simp,by decide⟩
    have first := joinLines_around opening [] (t ++ [')'])
    have last := joinLines_around closing t []
    rw [List.append_nil] at last
    rw [last] at first
    have whole : Script.joinLines ("chain".toList ++ '(' :: (t ++ [')'])) =
        "chain".toList ++ '(' :: (Script.joinLines t ++ [')']) := by
      simpa [Script.joinLines] using first
    rw [whole]
    exact .chain (listed.joinLines fun _ _ laid => ⟨laid.tight,laid.joinLines⟩)
  | @call task shift _ a s b identifier before laid behind =>
    have method : Solid (linkingMethod shift ++ ['(']) := by cases shift <;> exact ⟨by decide,by decide⟩
    have closing : Solid [')'] := ⟨by simp,by decide⟩
    have called : Solid (task ++ (linkingMethod shift ++ ['('])) := by
      have solid := solid_of_isIdentifier identifier
      exact ⟨by simp [solid.1],List.forall_mem_append.mpr ⟨solid.2,method.2⟩⟩
    have first := joinLines_around called [] (a ++ (s ++ (b ++ [')'])))
    have last := joinLines_around closing b []
    rw [List.append_nil] at last
    rw [joinLines_tight laid.tight,last] at first
    have whole : Script.joinLines
          (task ++ (linkingMethod shift ++ '(' :: (a ++ (s ++ (b ++ [')']))))) =
        task ++ (linkingMethod shift ++ '(' ::
          (Script.joinLines a ++ (Script.joinLines s ++ (Script.joinLines b ++ [')'])))) := by
      simpa [Script.joinLines] using first
    rw [whole]
    exact .call identifier (blanks_joinLines before) laid.joinLines (blanks_joinLines behind)

theorem Parenthesized.joinLines {dep : Dependency} {s : List Char} (enclosed : Parenthesized Spacing dep s) :
    Parenthesized Blanks dep (Script.joinLines s) := by
  induction enclosed with
  | bare bare => exact .bare bare.joinLines
  | @parens a s b before inside behind ih =>
    have whole := joinLines_between (o := '(') (c := ')') ⟨by simp,by decide⟩ ⟨by simp,by decide⟩
      (a ++ (s ++ b))
    rw [joinLines_tight inside.tight] at whole
    simp only [List.append_assoc] at whole
    rw [whole]
    exact .parens (blanks_joinLines before) ih (blanks_joinLines behind)

theorem solid_of_target {target : List Char} (starts : startsName target = true)
    (path : ∀ c ∈ target, Text.isWord c = true ∨ c = '.') : Solid target := by
  constructor
  · rintro rfl
    exact absurd starts (by decide)
  · intro c inside
    rcases path c inside with word | rfl
    · refine ⟨?_,Text.isBlank_of_isWord word⟩
      rintro rfl
      exact absurd word (by decide)
    · decide

theorem Layout.joinLines {dep : Dependency} {s : List Char} (layout : Layout Spacing dep s) :
    Layout Blanks dep (Script.joinLines s) := by
  cases layout with
  | alone enclosed => exact .alone enclosed.joinLines
  | @assigned target a b s starts path before behind enclosed =>
    have first := joinLines_around (solid_of_target starts path) [] (a ++ '=' :: (b ++ s))
    have equals : Solid ['='] := ⟨by simp,by decide⟩
    have last := joinLines_tight enclosed.tight b []
    simp only [List.append_nil] at last
    rw [joinLines_at equals,last] at first
    simp only [Script.joinLines,List.nil_append,List.append_nil] at first
    rw [first]
    exact .assigned starts path (blanks_joinLines before) (blanks_joinLines behind) enclosed.joinLines

end PipelineAtlas.Airflow

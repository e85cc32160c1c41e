import PipelineAtlas.Proofs.Airflow.LayoutReading
import PipelineAtlas.Proofs.Script.ValueText

/-! How values are written. A value has one source, and layouts of it with other blanks and with commas
behind the last entries. -/
namespace PipelineAtlas.Airflow

open Script

def sourceChar (c : Char) : List Char := if c = '\t' then ['\\','t'] else escapeChar c

theorem sourceChar_cases : Escapes sourceChar := by
  intro c
  unfold sourceChar
  split
  next tab => exact .inl ⟨'t',rfl,by decide,by simp [tab,escapeMeaning]⟩
  next => exact escapeChar_cases c

def stringSource (s : List Char) : List Char := literalText '\'' false (s.flatMap sourceChar)

def separated (entries : List (List Char)) : List Char := List.intercalate ", ".toList entries

mutual

/-- A value as it is written in a script. -/
def valueSource : Value → List Char
  | .string s => stringSource s.toList
  | .bool b => if b then "True".toList else "False".toList
  | .none => "None".toList
  | .int n => (toString n).toList
  | .name text => text.toList
  | .list items => '[' :: (separated (itemSources items) ++ [']'])
  | .call function arguments =>
    function.toList ++ '(' :: (separated (argumentSources arguments) ++ [')'])
  | .other text => text.toList

def itemSources : List Value → List (List Char)
  | [] => []
  | v :: vs => valueSource v :: itemSources vs

def argumentSource : Argument Value → List Char
  | ⟨none,v⟩ => valueSource v
  | ⟨some key,v⟩ => key.toList ++ '=' :: valueSource v

def argumentSources : List (Argument Value) → List (List Char)
  | [] => []
  | a :: as => argumentSource a :: argumentSources as

end

theorem itemSources_eq (vs : List Value) : itemSources vs = vs.map valueSource := by
  induction vs with
  | nil => rfl
  | cons v vs ih => rw [itemSources,ih,List.map_cons]

theorem argumentSources_eq (as : List (Argument Value)) : argumentSources as = as.map argumentSource := by
  induction as with
  | nil => rfl
  | cons a as ih => rw [argumentSources,ih,List.map_cons]

/-- A value without parts. A name is none if it reads as a keyword or could read as a number. -/
inductive Leaf : Value → Prop
  | string (s : String) : Leaf (.string s)
  | bool (b : Bool) : Leaf (.bool b)
  | none : Leaf .none
  | int {n : Int} (lower : -0x8000000000000000 ≤ n) (upper : n ≤ 0x7FFFFFFFFFFFFFFF) : Leaf (.int n)
  | name {text : String} (dotted : isDottedName text.toList = true)
      (noKeyword : text ∉ ["True","False","None"])
      (noNumber : ¬ (Text.isIdentifier text.toList = true ∧
        ∀ c ∈ text.toList, c = '_' ∨ c.isDigit = true)) : Leaf (.name text)

/-- A value that can be written down and read back. -/
inductive Writable : Value → Prop
  | leaf {v : Value} (leaf : Leaf v) : Writable v
  | list {vs : List Value} (items : ∀ v ∈ vs, Writable v) : Writable (.list vs)
  | call {function : String} {as : List (Argument Value)}
      (dotted : isDottedName function.toList = true)
      (keys : ∀ a ∈ as, ∀ key ∈ a.key, Text.isIdentifier key.toList = true)
      (values : ∀ a ∈ as, Writable a.value) : Writable (.call function as)

/-- What brackets enclose: entries with commas between them, or none. A comma may stand at the end. -/
inductive Entries {α : Type} (entry : α → List Char → Prop) : List α → List Char → Prop
  | none {t : List Char} (blanks : Blanks t) : Entries entry [] t
  | comma {a b : List Char} (before : Blanks a) (behind : Blanks b) : Entries entry [] (a ++ ',' :: b)
  | some {xs : List α} {t : List Char} (listed : Listed Blanks entry xs t) : Entries entry xs t

inductive ArgumentLaid (laid : Value → List Char → Prop) : Argument Value → List Char → Prop
  | positional {v : Value} {s : List Char} (here : laid v s) : ArgumentLaid laid ⟨none,v⟩ s
  | keyed {key : String} {v : Value} {a b s : List Char}
      (identifier : Text.isIdentifier key.toList = true) (before : Blanks a) (behind : Blanks b)
      (here : laid v s) : ArgumentLaid laid ⟨some key,v⟩ (key.toList ++ (a ++ '=' :: (b ++ s)))

/-- A value laid out with any blanks around commas and equals signs. -/
inductive Laid : Value → List Char → Prop
  | leaf {v : Value} (leaf : Leaf v) : Laid v (valueSource v)
  | list {vs : List Value} {t : List Char} (items : Entries Laid vs t) :
      Laid (.list vs) ('[' :: (t ++ [']']))
  | call {function : String} {as : List (Argument Value)} {t : List Char}
      (dotted : isDottedName function.toList = true) (arguments : Entries (ArgumentLaid Laid) as t) :
      Laid (.call function as) (function.toList ++ '(' :: (t ++ [')']))

section

variable {α : Type} {entry : α → List Char → Prop}

theorem listed_separated {source : α → List Char} {x : α} {xs : List α}
    (each : ∀ y ∈ x :: xs, entry y (source y)) {a : List Char} (before : Blanks a) :
    Listed Blanks entry (x :: xs) (a ++ separated ((x :: xs).map source)) := by
  have nothing : Blanks [] := by decide
  induction xs generalizing x a with
  | nil =>
    have whole := Listed.last before (each x (by simp)) nothing
    simpa [separated] using whole
  | cons y xs ih =>
    have space : Blanks [' '] := by decide
    have later := ih (fun z inside => each z (List.mem_cons_of_mem x inside)) space
    have whole := Listed.more before (each x (by simp)) nothing later
    simpa [separated,List.intercalate] using whole

theorem entries_separated {source : α → List Char} {xs : List α}
    (each : ∀ x ∈ xs, entry x (source x)) : Entries entry xs (separated (xs.map source)) := by
  cases xs with
  | nil => exact .none (by simp [Blanks,separated])
  | cons x xs => exact .some (listed_separated each (a := []) (by decide))

end

theorem Writable.laid {v : Value} (writable : Writable v) : Laid v (valueSource v) := by
  induction writable with
  | leaf leaf => exact .leaf leaf
  | list _ ih =>
    rw [valueSource,itemSources_eq]
    exact .list (entries_separated ih)
  | @call function as dotted keys _ ih =>
    rw [valueSource,argumentSources_eq]
    refine .call dotted (entries_separated fun a inside => ?_)
    have identifier := keys a inside
    have laid := ih a inside
    obtain ⟨key,v⟩ := a
    cases key with
    | none => exact .positional laid
    | some key =>
      have nothing : Blanks [] := by decide
      exact .keyed (identifier key rfl) nothing nothing laid

section

variable {α : Type} {entry : α → List Char → Prop} {xs : List α} {t : List Char}

theorem Listed.bounded {gap : List Char → Prop} (listed : Listed gap entry xs t) {n : Nat}
    (enough : t.length ≤ n) : Listed gap (fun x s => entry x s ∧ s.length ≤ n) xs t := by
  induction listed with
  | last before here behind =>
    simp only [List.length_append] at enough
    exact .last before ⟨here,by omega⟩ behind
  | comma before here behind ending =>
    simp only [List.length_append] at enough
    exact .comma before ⟨here,by omega⟩ behind ending
  | more before here behind _ ih =>
    simp only [List.length_append,List.length_cons] at enough
    exact .more before ⟨here,by omega⟩ behind (ih (by omega))

namespace Entries

theorem bounded (entries : Entries entry xs t) :
    Entries (fun x s => entry x s ∧ s.length ≤ t.length) xs t := by
  cases entries with
  | none blanks => exact .none blanks
  | comma before behind => exact .comma before behind
  | some listed => exact .some (listed.bounded (Nat.le_refl _))

variable (parts : ∀ x s, entry x s → Part s) (entries : Entries entry xs t)

include parts entries

theorem detached : Detached t := by
  cases entries with
  | none blanks => exact detached_of_unquoted blanks.noQuote
  | comma before behind =>
    have later := (detached_of_unquoted behind.noQuote).behind_unquoted (a := [',']) (by decide)
    exact later.behind_unquoted before.noQuote
  | some listed => exact listed.detached parts

theorem level : Level (scan t) := by
  cases entries with
  | none blanks =>
    rw [scan_of_unquoted blanks.noQuote]
    exact blanks.balanced.level
  | comma before behind =>
    rw [scan_lone_comma before behind,← List.singleton_append]
    exact before.balanced.level.append (balanced_comma.level.append behind.balanced.level)
  | some listed => exact listed.level parts

theorem splitTopLevel : List.Forall₂ (Padded entry) xs (Script.splitTopLevel ',' (scan t)) := by
  cases entries with
  | none blanks =>
    rw [scan_of_unquoted blanks.noQuote,splitTopLevel_undivided (solo_of_plain blanks.plain).undivided,
      isBlankPart_blanks blanks]
    exact .nil
  | comma before behind =>
    rw [scan_lone_comma before behind,splitTopLevel_comma (solo_of_plain before.plain).undivided,
      isBlankPart_blanks before,splitTopLevel_undivided (solo_of_plain behind.plain).undivided,
      isBlankPart_blanks behind]
    exact .nil
  | some listed => exact listed.splitTopLevel parts

/-- Entries that are read back one by one are read back as a whole. -/
theorem map_splitTopLevel {read : List Cell → α}
    (reads : ∀ x part, Padded entry x part → read part = x) :
    (Script.splitTopLevel ',' (scan t)).map read = xs := by
  have padded := entries.splitTopLevel parts
  clear entries
  generalize Script.splitTopLevel ',' (scan t) = cells at padded
  induction padded with
  | nil => rfl
  | cons here _ ih => rw [List.map_cons,reads _ _ here,ih]

end Entries

end

/-- A part that is not taken for a key with a value, nor for a comparison behind a key. -/
structure Shape (t : List Char) : Prop extends Part t where
  noEquals : ∀ c ∈ t.head?, c ≠ '='
  unkeyed : keyParts? (scan t) = none

theorem shape_of_inked {t : List Char} (some : t ≠ []) (inked : ∀ c ∈ t, Inked c) : Shape t where
  toPart := by
    refine part_of_plain (tight_of_solid ⟨some,fun c inside => ?_⟩) fun c inside => (inked c inside).plain
    exact ⟨(inked c inside).ne (by decide) (by decide),(inked c inside).visible⟩
  noEquals c first := (inked c (List.mem_of_mem_head? first)).ne (by decide) (by decide)
  unkeyed := by
    rw [scan_of_inked inked]
    refine keyParts?_of_noEquals fun x inside => ?_
    obtain ⟨c,member,rfl⟩ := List.mem_map.mp inside
    exact (inked c member).ne (by decide) (by decide)

theorem shape_stringSource (s : List Char) : Shape (stringSource s) where
  toPart := part_of_escapes sourceChar_cases s
  noEquals := by simp [stringSource,literalText,delimiter]
  unkeyed := by
    have cells : scan (stringSource s) = [⟨'\'',.literal⟩] ++
        literalCells (s.flatMap sourceChar ++ ['\'']) := scan_of_escapes sourceChar_cases s
    rw [cells]
    exact keyParts?_of_foreign (by simp) (List.mem_singleton_self _) (by decide) (by decide) _

theorem shape_of_brackets {name : List Char} (inked : ∀ c ∈ name, Inked c) {o c : Char}
    (opens : o ∈ ['(','[']) (closes : c ∈ [')',']']) {t : List Char} (detached : Detached t)
    (level : Level (scan t)) : Shape (name ++ o :: (t ++ [c])) := by
  have all : ∀ d ∈ ['(','['], d ∈ ['(','[','{'] ∧ Text.isAsciiWord d = false ∧
      Text.isBlank d = false ∧ isQuote d = false ∧ d ≠ '=' := by decide
  obtain ⟨bracket,foreign,visible,noQuote,noEquals⟩ := all o opens
  have bracket' : c ∈ [')',']','}'] := List.mem_append_left ['}'] closes
  refine ⟨(part_of_enclosed bracket bracket' detached level).behind_plain
    (fun d inside => (inked d inside).plain) (fun d first => ?_),fun d first => ?_,?_⟩
  · exact (inked d (List.mem_of_mem_head? first)).visible
  · cases name with
    | nil =>
      obtain rfl : o = d := by simpa using first
      exact noEquals
    | cons e name =>
      obtain rfl : e = d := by simpa using first
      exact (inked e List.mem_cons_self).ne (by decide) (by decide)
  · have unquoted : ∀ d ∈ name ++ [o], isQuote d = false := List.forall_mem_append.mpr
      ⟨fun d inside => (inked d inside).plain.quote,by simpa using noQuote⟩
    rw [List.append_cons,scan_unquoted unquoted]
    refine keyParts?_of_foreign (x := ⟨o,.code⟩) (fun x inside => ?_) (by simp [codeCells]) foreign
      visible _
    obtain ⟨d,member,rfl⟩ := List.mem_map.mp inside
    rcases List.mem_append.mp member with before | here
    · exact (inked d before).ne (by decide) (by decide)
    · obtain rfl := List.mem_singleton.mp here
      exact noEquals

theorem Leaf.shape {v : Value} (leaf : Leaf v) : Shape (valueSource v) := by
  cases leaf with
  | string s => exact shape_stringSource s.toList
  | bool b => cases b <;> exact shape_of_inked (by decide) (fun c inside => .inl (by revert c; decide))
  | none => exact shape_of_inked (by decide) (fun c inside => .inl (by revert c; decide))
  | int lower upper =>
    refine shape_of_inked (fun nothing => ?_) (inked_toString lower upper)
    have read := (integer?_toString lower upper).1
    have empty : integer? [] = Option.none := by decide
    rw [valueSource] at nothing
    rw [nothing,empty] at read
    cases read
  | name dotted => exact shape_of_inked (dotted_chars dotted).1 (inked_of_dotted dotted)

theorem ArgumentLaid.bounded {laid : Value → List Char → Prop} {a : Argument Value} {s : List Char}
    (here : ArgumentLaid laid a s) {n : Nat} (enough : s.length ≤ n) :
    ArgumentLaid (fun v s => laid v s ∧ s.length ≤ n) a s := by
  cases here with
  | positional here => exact .positional ⟨here,enough⟩
  | keyed identifier before behind here =>
    simp only [List.length_append,List.length_cons] at enough
    exact .keyed identifier before behind ⟨here,by omega⟩

theorem ArgumentLaid.part {laid : Value → List Char → Prop} (shapes : ∀ v s, laid v s → Shape s)
    {a : Argument Value} {s : List Char} (here : ArgumentLaid laid a s) : Part s := by
  cases here with
  | positional here => exact (shapes _ _ here).toPart
  | @keyed key v a b s identifier before behind here =>
    have equals : Plain '=' := plain_of_apart (by decide)
    have plain : ∀ c ∈ key.toList ++ (a ++ '=' :: b), Plain c := by
      simp only [List.forall_mem_append,List.forall_mem_cons]
      exact ⟨plain_of_isIdentifier identifier,before.plain,equals,behind.plain⟩
    obtain ⟨some,word⟩ := Text.word_of_isIdentifier identifier
    have whole := (shapes v s here).toPart.behind_plain plain fun c first => by
      rw [List.head?_append_of_ne_nil _ some] at first
      exact Text.isBlank_of_isAsciiWord (word c (List.mem_of_mem_head? first))
    simpa using whole

theorem Laid.shape {v : Value} {t : List Char} (laid : Laid v t) : Shape t := by
  -- entries are laid out in less text, so the induction is on its length
  induction size : t.length using Nat.strongRecOn generalizing v t with
  | _ size ih =>
  cases laid with
  | leaf leaf => exact leaf.shape
  | @list vs t items =>
    have parts : ∀ v s, Laid v s ∧ s.length ≤ t.length → Part s := by
      rintro v s ⟨laid,less⟩
      exact (ih s.length (by simp at size; omega) laid rfl).toPart
    have bounded := items.bounded
    have nothing : ∀ c ∈ ([] : List Char), Inked c := by simp
    exact shape_of_brackets nothing (by simp) (by simp) (bounded.detached parts) (bounded.level parts)
  | @call function as t dotted arguments =>
    have shapes : ∀ v s, Laid v s ∧ s.length ≤ t.length → Shape s := by
      rintro v s ⟨laid,less⟩
      exact ih s.length (by simp at size; omega) laid rfl
    have parts : ∀ a s, ArgumentLaid Laid a s ∧ s.length ≤ t.length → Part s := by
      rintro a s ⟨laid,less⟩
      exact (laid.bounded less).part shapes
    have bounded := arguments.bounded
    exact shape_of_brackets (inked_of_dotted dotted) (by simp) (by simp) (bounded.detached parts)
      (bounded.level parts)

end PipelineAtlas.Airflow

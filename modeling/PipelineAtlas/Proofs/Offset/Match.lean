import PipelineAtlas.Proofs.Airflow.OperatorLine
import PipelineAtlas.Proofs.Airflow.SightCall
import PipelineAtlas.Proofs.Offset.View

/-! Calls found in the view of the code alone. They are the calls of the source, and an offset taken from
one of them is that of the same place in the source. -/
namespace PipelineAtlas.Offset

open Airflow Script
open String (utf8Len)

/-- What code shows of cells, as a scan of that view sees it. -/
def veil (cells : List Cell) : List Cell := codeCells (codeText cells)

theorem text_veil (cells : List Cell) : text (veil cells) = codeText cells :=
  text_codeCells (codeText cells)

theorem veil_cons (x : Cell) (cells : List Cell) : ∃ n, (n = 0 ∨ x.shown = ' ') ∧
    veil (x :: cells) = codeCell x.shown :: (List.replicate n space ++ veil cells) := by
  have split : veil (x :: cells) = codeCells x.code ++ veil cells := by
    rw [veil,codeText,List.flatMap_cons,codeCells_append]
    rfl
  rw [split]
  by_cases code : x.role = .code
  · exact ⟨0,.inl rfl,by simp [Cell.code,Cell.shown,code,codeCells,codeCell]⟩
  by_cases feed : x.char = '\n'
  · exact ⟨0,.inl rfl,by simp [Cell.code,Cell.shown,code,feed,blanked,codeCells,codeCell]⟩
  · obtain ⟨n,size⟩ := Nat.exists_eq_add_one_of_ne_zero x.char.utf8Size_pos.ne'
    refine ⟨n,.inr (by simp [Cell.shown,code,feed]),?_⟩
    simp [Cell.code,Cell.shown,code,feed,blanked,codeCells,codeCell,space,size,List.replicate_succ]

theorem veil_of_visible {x : Cell} (visible : x.shown ≠ ' ') (stays : x.shown ≠ '\n')
    (cells : List Cell) : veil (x :: cells) = x :: veil cells := by
  have code := Cell.role_of_shown visible stays
  obtain ⟨n,none | blank,seen⟩ := veil_cons x cells
  · rw [seen,none]
    obtain ⟨c,rfl⟩ : ∃ c, x = codeCell c := ⟨x.char,by rw [codeCell,← code]⟩
    rfl
  · exact absurd blank visible

theorem char_codeCell_shown (x : Cell) : (codeCell x.shown).char = '\n' ↔ x.char = '\n' := by
  by_cases feed : x.char = '\n'
  · simp [codeCell,Cell.shown,feed]
  · unfold Cell.shown
    split
    next => rfl
    next => simp [codeCell,feed]

section Tests

variable {p : Char → Bool}

theorem dropWhile_veil (p : Char → Bool) (cells : List Cell) :
    (veil cells).dropWhile (fun x => p x.shown) = veil (cells.dropWhile fun x => p x.shown) := by
  induction cells with
  | nil => rfl
  | cons x cells ih =>
    obtain ⟨n,blanks,seen⟩ := veil_cons x cells
    cases passes : p x.shown with
    | false =>
      rw [List.dropWhile_cons_of_neg (by simp [passes]),seen,
        List.dropWhile_cons_of_neg (by simp [shown_codeCell,passes])]
    | true =>
      rw [List.dropWhile_cons_of_pos (by simp [passes]),seen,
        List.dropWhile_cons_of_pos (by simp [shown_codeCell,passes]),← ih]
      rcases blanks with rfl | blank
      · rfl
      · refine List.dropWhile_append_of_pos fun y inside => ?_
        rw [List.eq_of_mem_replicate inside,← passes,blank]
        rfl

theorem takeWhile_veil (apart : p ' ' = false) (stops : p '\n' = false) (cells : List Cell) :
    (veil cells).takeWhile (fun x => p x.shown) = cells.takeWhile fun x => p x.shown := by
  induction cells with
  | nil => rfl
  | cons x cells ih =>
    cases passes : p x.shown with
    | false =>
      obtain ⟨n,-,seen⟩ := veil_cons x cells
      rw [seen,List.takeWhile_cons_of_neg (by simp [shown_codeCell,passes]),
        List.takeWhile_cons_of_neg (by simp [passes])]
    | true =>
      have visible : x.shown ≠ ' ' := fun blank => by simp [blank,apart] at passes
      have stays : x.shown ≠ '\n' := fun feed => by simp [feed,stops] at passes
      rw [veil_of_visible visible stays,List.takeWhile_cons_of_pos (by simp [passes]),
        List.takeWhile_cons_of_pos (by simp [passes]),ih]

end Tests

theorem skipSpaces_veil (cells : List Cell) : skipSpaces (veil cells) = veil (skipSpaces cells) :=
  dropWhile_veil (fun c => c == ' ' || c == '\t') cells

theorem openingAt?_veil (cells : List Cell) :
    openingAt? (veil cells) = (openingAt? cells).map veil := by
  unfold openingAt?
  rw [skipSpaces_veil]
  cases skipSpaces cells with
  | nil => rfl
  | cons x rest =>
    obtain ⟨n,-,seen⟩ := veil_cons x rest
    rw [seen]
    simp only [shown_codeCell]
    rw [← seen,apply_ite (Option.map veil)]
    rfl

theorem name_veil {name : List Char} (visible : ∀ c ∈ name, c ≠ ' ' ∧ c ≠ '\n') (cells : List Cell) :
    (shownText ((veil cells).take name.length) = name ↔ shownText (cells.take name.length) = name) ∧
      (shownText (cells.take name.length) = name →
        (veil cells).drop name.length = veil (cells.drop name.length)) := by
  induction name generalizing cells with
  | nil => exact ⟨Iff.rfl,fun _ => rfl⟩
  | cons c name ih =>
    cases cells with
    | nil => exact ⟨Iff.rfl,fun _ => rfl⟩
    | cons x cells =>
      obtain ⟨first,later⟩ := List.forall_mem_cons.mp visible
      by_cases here : x.shown = c
      · obtain ⟨same,behind⟩ := ih later cells
        rw [veil_of_visible (here ▸ first.1) (here ▸ first.2)]
        simp only [shownText] at same behind
        simpa [shownText,here] using And.intro same behind
      · obtain ⟨n,-,seen⟩ := veil_cons x cells
        rw [seen]
        simp [shownText,shown_codeCell,here]

theorem declarationHere?_veil (inWord : Bool) (cells : List Cell) :
    declarationHere? inWord (veil cells) = (declarationHere? inWord cells).map veil := by
  have visible : ∀ c ∈ declarationName, c ≠ ' ' ∧ c ≠ '\n' := by decide
  obtain ⟨same,behind⟩ := name_veil visible cells
  by_cases named : inWord = false ∧ shownText (cells.take declarationName.length) = declarationName
  · rw [declarationHere?,declarationHere?,if_pos (by simpa [same] using named),
      if_pos (by simpa using named),behind named.2,openingAt?_veil]
  · rw [declarationHere?,declarationHere?,if_neg (by simpa [same] using named),
      if_neg (by simpa using named)]
    rfl

theorem declarationFrom_blanks (n line : Nat) (cells : List Cell) :
    declarationFrom false line (List.replicate n space ++ cells) =
      declarationFrom false line cells := by
  induction n with
  | zero => rfl
  | succ n ih =>
    have stays : space.char ≠ '\n' := by decide
    have word : Text.isWord space.shown = false := by decide
    rw [List.replicate_succ,List.cons_append,declarationFrom_cons,declarationHere?_hidden (.inl rfl),
      word,if_neg stays]
    exact ih

def veiled (found : Nat × List Cell) : Nat × List Cell := (found.1,veil found.2)

theorem declarationFrom_veil (inWord : Bool) (line : Nat) (cells : List Cell) :
    declarationFrom inWord line (veil cells) = (declarationFrom inWord line cells).map veiled := by
  induction cells generalizing inWord line with
  | nil => rfl
  | cons x cells ih =>
    obtain ⟨n,blanks,seen⟩ := veil_cons x cells
    have here := declarationHere?_veil inWord (x :: cells)
    rw [seen] at here ⊢
    rw [declarationFrom_cons,declarationFrom_cons,here]
    simp only [shown_codeCell,char_codeCell_shown]
    cases declarationHere? inWord (x :: cells) with
    | some call => rfl
    | none =>
      simp only [Option.map_none,← ih]
      rcases blanks with rfl | blank
      · rfl
      · have word : Text.isWord ' ' = false := by decide
        rw [blank,word,declarationFrom_blanks]

theorem declaration?_veil (cells : List Cell) :
    declaration? (veil cells) = (declaration? cells).map veiled := declarationFrom_veil false 1 cells

theorem count_of_shown {cells : List Cell} (oneLine : ∀ x ∈ cells, x.shown ≠ '\n') :
    (text cells).count '\n' = 0 := by
  rw [List.count_eq_zero]
  intro inside
  obtain ⟨x,member,feed⟩ := List.mem_map.mp inside
  exact oneLine x member (Cell.shown_feed feed)

theorem shown_of_gap {gap : List Cell} (isGap : Gap gap) : ∀ x ∈ gap, x.shown ≠ '\n' := by
  intro x inside feed
  have space := isGap x inside
  simp [isSpace,feed] at space

/-- The parenthesis of a declaration is code, and its line is that of the declaration. -/
theorem declarationFrom_split {cells call : List Cell} {inWord : Bool} {first line : Nat}
    (declared : declarationFrom inWord first cells = some (line,call)) :
    ∃ front inside, cells = front ++ call ∧ call = codeCell '(' :: inside ∧
      line = first + (text front).count '\n' := by
  induction cells generalizing inWord first with
  | nil => cases declared
  | cons x rest ih =>
    rw [declarationFrom_cons] at declared
    split at declared
    next call' here =>
      obtain ⟨rfl,rfl⟩ := Prod.mk.inj (Option.some.inj declared)
      obtain ⟨named,opened⟩ := Option.ite_none_right_eq_some.mp here
      simp only [Bool.and_eq_true,beq_iff_eq] at named
      obtain ⟨gap,inside,behind,isGap,rfl⟩ := openingAt?_split opened
      refine ⟨(x :: rest).take declarationName.length ++ gap,inside,?_,rfl,?_⟩
      · rw [List.append_assoc,← behind,List.take_append_drop]
      · rw [count_of_shown]
        · rfl
        · refine List.forall_mem_append.mpr ⟨fun y inside feed => ?_,shown_of_gap isGap⟩
          have shown : y.shown ∈ declarationName := named.2 ▸ List.mem_map_of_mem inside
          rw [feed] at shown
          exact absurd shown (by decide)
    next =>
      obtain ⟨front,inside,rfl,rfl,rfl⟩ := ih declared
      refine ⟨x :: front,inside,rfl,rfl,?_⟩
      by_cases feed : x.char = '\n'
      · rw [if_pos feed,text_cons,feed,List.count_cons_self]
        omega
      · rw [if_neg feed,text_cons,List.count_cons_of_ne feed]

theorem lineStartsFrom_blanks (n line : Nat) (cells : List Cell) :
    lineStartsFrom line (List.replicate n space ++ cells) = lineStartsFrom line cells := by
  induction n with
  | zero => rfl
  | succ n ih =>
    rw [List.replicate_succ,List.cons_append,lineStartsFrom,if_neg (by decide),ih]

theorem lineStartsFrom_veil (line : Nat) (cells : List Cell) :
    lineStartsFrom line (veil cells) = (lineStartsFrom line cells).map veiled := by
  induction cells generalizing line with
  | nil => rfl
  | cons x cells ih =>
    obtain ⟨n,blanks,seen⟩ := veil_cons x cells
    rw [seen,lineStartsFrom,lineStartsFrom]
    simp only [char_codeCell_shown]
    split
    next feed =>
      obtain rfl : n = 0 := blanks.resolve_right (by simp [Cell.shown_feed feed])
      rw [List.replicate_zero,List.nil_append,ih]
      rfl
    next => rw [lineStartsFrom_blanks,ih]

theorem lineStarts_veil (cells : List Cell) :
    lineStarts (veil cells) = (lineStarts cells).map veiled :=
  congrArg (_ :: ·) (lineStartsFrom_veil 1 cells)

def veiledCall (c : OperatorCall) : OperatorCall := { c with call := veil c.call }

theorem operatorCall?_veil (line : Nat) (cells : List Cell) :
    operatorCall? line (veil cells) = (operatorCall? line cells).map veiledCall := by
  unfold operatorCall?
  simp only [skipSpaces_veil,takeWhile_veil (p := Text.isWord) (by decide) (by decide),
    dropWhile_veil Text.isWord]
  generalize (skipSpaces cells).takeWhile (fun x => Text.isWord x.shown) = target
  cases skipSpaces ((skipSpaces cells).dropWhile fun x => Text.isWord x.shown) with
  | nil => rfl
  | cons equals rest =>
    by_cases sign : equals.shown = '='
    · rw [veil_of_visible (by simp [sign]) (by simp [sign])]
      let inPath : Char → Bool := fun c => Text.isWord c || c == '.'
      simp only [skipSpaces_veil,takeWhile_veil (p := inPath) (by decide) (by decide),
        dropWhile_veil inPath,openingAt?_veil,inPath]
      cases openingAt? ((skipSpaces rest).dropWhile fun x => Text.isWord x.shown || x.shown == '.') with
      | none => rfl
      | some call =>
        simp only [Option.map_some]
        split <;> rfl
    · obtain ⟨n,-,seen⟩ := veil_cons equals rest
      have other : (equals.shown == '=') = false := by simpa using sign
      rw [seen]
      simp only [shown_codeCell,other,Bool.false_and,Bool.false_eq_true,if_false]
      split <;> split <;> rfl

/-- The offset at which the last cells of a text begin. -/
def place (whole : List Char) (cells : List Cell) : Nat := utf8Len whole - utf8Len (text cells)

def declarationStop? (code : List Char) : Option Nat :=
  (declaration? (codeCells code)).map fun (_,call) => place code call + 1

/-- An operator call, with the offset of its line and the one behind its parenthesis. -/
structure OperatorMatch where
  start : Nat
  stop : Nat
  target : String
  operator : String
deriving DecidableEq, Repr

def operatorMatches (code : List Char) : List OperatorMatch :=
  (lineStarts (codeCells code)).filterMap fun (line,rest) =>
    (operatorCall? line rest).map fun c => ⟨place code rest,place code c.call + 1,c.target,c.operator⟩

theorem place_veil (front rest : List Cell) :
    place (codeText (front ++ rest)) (veil rest) = utf8Len (text front) := by
  rw [place,text_veil,codeText_append,String.utf8Len_append,Nat.add_sub_cancel]
  exact keeps_code.utf8Len_flatMap front

theorem declarationStop?_of_declared {cells call : List Cell} {line : Nat}
    (declared : declaration? cells = some (line,call)) :
    ∃ front inside, cells = front ++ codeCell '(' :: inside ∧ call = codeCell '(' :: inside ∧
      line = (text front).count '\n' + 1 ∧
      declarationStop? (codeText cells) = some (utf8Len (text front) + 1) := by
  obtain ⟨front,inside,rfl,rfl,rfl⟩ := declarationFrom_split declared
  have seen := declaration?_veil (front ++ codeCell '(' :: inside)
  rw [declared,Option.map_some] at seen
  refine ⟨front,inside,rfl,rfl,Nat.add_comm _ _,?_⟩
  rw [declarationStop?,← veil,seen,Option.map_some]
  exact congrArg (fun i => some (i + 1)) (place_veil front _)

theorem declarationStop?_of_undeclared {cells : List Cell} (undeclared : declaration? cells = none) :
    declarationStop? (codeText cells) = none := by
  rw [declarationStop?,← veil,declaration?_veil,undeclared]
  rfl

/-- A match and the call it stands for, on a line of the source behind what is in front of it. -/
structure Stands (cells front lead inside : List Cell) (m : OperatorMatch) (c : OperatorCall) :
    Prop where
  whole : cells = front ++ (lead ++ codeCell '(' :: inside)
  call : c.call = codeCell '(' :: inside
  begins : FeedLast front
  oneLine : (text lead).count '\n' = 0
  line : c.line = (text front).count '\n' + 1
  start : m.start = utf8Len (text front)
  stop : m.stop = utf8Len (text (front ++ lead)) + 1
  target : m.target = c.target
  operator : m.operator = c.operator

theorem shown_of_codeCells {s : List Char} (oneLine : '\n' ∉ s) :
    ∀ x ∈ codeCells s, x.shown ≠ '\n' := by
  intro x inside feed
  obtain ⟨c,member,rfl⟩ := List.mem_map.mp inside
  exact oneLine (feed ▸ member)

theorem assigns_split {cells call : List Cell} {target path : List Char}
    (assigns : Assigns cells target path call) : ∃ lead inside, cells = lead ++ call ∧
      call = codeCell '(' :: inside ∧ (text lead).count '\n' = 0 := by
  cases assigns with
  | @call indent left right between inside _ _ before starts word gap gap' isPath inPath gap'' =>
  have noFeed : '\n' ∉ target := fun feed => absurd (word _ feed) (by decide)
  have noFeed' : '\n' ∉ path := fun feed => absurd (inPath _ feed) (by decide)
  refine ⟨indent ++ (codeCells target ++ (left ++ codeCell '=' :: (right ++ (codeCells path ++
    between)))),inside,by simp,rfl,count_of_shown ?_⟩
  simp only [List.forall_mem_append,List.forall_mem_cons]
  exact ⟨shown_of_gap before,shown_of_codeCells noFeed,shown_of_gap gap,by decide,shown_of_gap gap',
    shown_of_codeCells noFeed',shown_of_gap gap''⟩

/-- The matches on the view of the code are the operator calls of the source in their order. -/
theorem operatorMatches_stand (cells : List Cell) :
    List.Forall₂ (fun m c => ∃ front lead inside, Stands cells front lead inside m c)
      (operatorMatches (codeText cells)) (operatorCalls cells) := by
  have lines : List.Forall₂ (fun a b => a = b ∧ a ∈ lineStarts cells) (lineStarts cells)
      (lineStarts cells) := List.forall₂_same.mpr fun _ start => ⟨rfl,start⟩
  rw [operatorMatches,← veil,lineStarts_veil,List.filterMap_map,operatorCalls]
  refine List.rel_filterMap ?_ lines
  rintro ⟨line,rest⟩ _ ⟨rfl,start⟩
  simp only [Function.comp_apply,veiled,operatorCall?_veil,Option.map_map]
  cases read : operatorCall? line rest with
  | none => exact .none
  | some c =>
    obtain ⟨front,rfl,begins,counted⟩ := mem_lineStarts.mp start
    obtain ⟨assigns,rfl⟩ := operatorCall?_sound read
    obtain ⟨lead,inside,rfl,call,oneLine⟩ := assigns_split assigns
    refine .some ⟨front,lead,inside,?_⟩
    have begin := place_veil front (lead ++ c.call)
    have opening := place_veil (front ++ lead) c.call
    rw [List.append_assoc] at opening
    exact {
      whole := by rw [call]
      call := call
      begins := begins
      oneLine := oneLine
      line := counted.trans (Nat.add_comm _ _)
      start := begin
      stop := congrArg (· + 1) opening
      target := rfl
      operator := rfl }

theorem exists_of_mem_operatorMatches {cells : List Cell} {m : OperatorMatch}
    (member : m ∈ operatorMatches (codeText cells)) :
    ∃ front lead inside c, Stands cells front lead inside m c := by
  have stands : List.Forall₂ (fun m _ => (∃ front lead inside c, Stands cells front lead inside m c) ∧
      True) (operatorMatches (codeText cells)) (operatorCalls cells) :=
    (operatorMatches_stand cells).imp fun _ c ⟨front,lead,inside,found⟩ =>
      ⟨⟨front,lead,inside,c,found⟩,trivial⟩
  exact ((List.forall₂_and_left _ _).mp stands).1 m member

end PipelineAtlas.Offset

import Mathlib.Data.List.TakeWhile
import PipelineAtlas.Airflow.Call
import PipelineAtlas.Proofs.Script.Standing

/-! Lines that assign an operator to a variable, spelled out. The reader of operator calls finds these
lines, all of them and no others, whether statements begin on them or not. -/
namespace PipelineAtlas.Airflow

open Script

/-- Spaces, tabs and hidden characters. -/
def Gap (cells : List Cell) : Prop := ∀ x ∈ cells, isSpace x = true

/-- Cells that begin with the assignment of a call: the target, the path of the operator and the cells
from the parenthesis on. -/
inductive Assigns : List Cell → List Char → List Char → List Cell → Prop
  | call {indent left right between inside : List Cell} {target path : List Char}
      (before : Gap indent) (starts : startsName target = true)
      (word : ∀ c ∈ target, Text.isWord c = true) (gap : Gap left) (gap' : Gap right)
      (isPath : isOperatorPath path = true) (inPath : ∀ c ∈ path, Text.isWord c = true ∨ c = '.')
      (gap'' : Gap between) :
      Assigns (indent ++ (codeCells target ++ (left ++ codeCell '=' :: (right ++ (codeCells path ++
        (between ++ codeCell '(' :: inside)))))) target path (codeCell '(' :: inside)

theorem shown_codeCell (c : Char) : (codeCell c).shown = c := rfl

theorem shownText_codeCells (s : List Char) : shownText (codeCells s) = s := by
  simp [shownText,codeCells,Cell.shown,Function.comp_def]

theorem span_append {p : α → Bool} {a b : List α} (all : ∀ x ∈ a, p x = true)
    (stops : ∀ x ∈ b.head?, p x = false) :
    (a ++ b).takeWhile p = a ∧ (a ++ b).dropWhile p = b := by
  rw [List.takeWhile_append_of_pos all,List.dropWhile_append_of_pos all,dropWhile_of_head stops]
  refine ⟨?_,rfl⟩
  cases b with
  | nil => simp
  | cons x b => simp [stops x rfl]

theorem eq_codeCell {x : Cell} (visible : Text.isBlank x.shown = false) : x = codeCell x.shown := by
  obtain ⟨noSpace,noFeed,-⟩ := visible_ne visible
  have code := Cell.role_of_shown noSpace noFeed
  obtain ⟨c,role⟩ := x
  obtain rfl : role = .code := code
  rfl

theorem eq_codeCells_shownText {cells : List Cell}
    (visible : ∀ x ∈ cells, Text.isBlank x.shown = false) : cells = codeCells (shownText cells) := by
  induction cells with
  | nil => rfl
  | cons x cells ih =>
    obtain ⟨first,later⟩ := List.forall_mem_cons.mp visible
    exact congr (congrArg _ (eq_codeCell first)) (ih later)

theorem isSpace_codeCell {c : Char} (visible : Text.isBlank c = false) :
    isSpace (codeCell c) = false := by
  have noTab : c ≠ '\t' := by
    rintro rfl
    exact absurd visible (by decide)
  simp [isSpace,shown_codeCell,(visible_ne visible).1,noTab]

theorem isBlank_of_startsName {s : List Char} (starts : startsName s = true) :
    ∃ c rest, s = c :: rest ∧ Text.isBlank c = false := by
  cases s with
  | nil => simp [startsName] at starts
  | cons c rest =>
    refine ⟨c,rest,rfl,Text.isBlank_of_isAsciiWord (Text.isAsciiWord_of_isAsciiStart ?_)⟩
    simpa [startsName] using starts

theorem isWord_of_isSpace {x : Cell} (space : isSpace x = true) : Text.isWord x.shown = false := by
  simp only [isSpace,Bool.or_eq_true,beq_iff_eq] at space
  rcases space with same | same <;>
    · rw [same]
      decide

theorem skipSpaces_gap {gap : List Cell} {c : Char} (isGap : Gap gap)
    (visible : Text.isBlank c = false) (rest : List Cell) :
    skipSpaces (gap ++ codeCell c :: rest) = codeCell c :: rest := by
  refine (span_append isGap ?_).2
  rintro x ⟨⟩
  exact isSpace_codeCell visible

theorem openingAt?_gap {gap : List Cell} (isGap : Gap gap) (inside : List Cell) :
    openingAt? (gap ++ codeCell '(' :: inside) = some (codeCell '(' :: inside) := by
  unfold openingAt?
  rw [skipSpaces_gap isGap (by decide)]
  rfl

theorem skipSpaces_split (cells : List Cell) : ∃ gap, cells = gap ++ skipSpaces cells ∧ Gap gap :=
  ⟨cells.takeWhile isSpace,List.takeWhile_append_dropWhile.symm,
    fun _ inside => List.mem_takeWhile_imp inside⟩

theorem openingAt?_split {cells call : List Cell} (found : openingAt? cells = some call) :
    ∃ gap inside, cells = gap ++ call ∧ Gap gap ∧ call = codeCell '(' :: inside := by
  obtain ⟨gap,split,isGap⟩ := skipSpaces_split cells
  unfold openingAt? at found
  split at found
  next x rest behind =>
    split at found
    next opens =>
      obtain rfl := Option.some.inj found
      have here : x = codeCell '(' := by
        rw [← opens]
        exact eq_codeCell (by rw [opens]; decide)
      exact ⟨gap,rest,by rw [← behind]; exact split,isGap,by rw [here]⟩
    next => simp at found
  next => simp at found

theorem stops_of_gap {gap rest : List Cell} {c : Char} (isGap : Gap gap)
    (noWord : Text.isWord c = false) (noDot : c ≠ '.') :
    ∀ x ∈ (gap ++ codeCell c :: rest).head?, Text.isWord x.shown = false ∧ x.shown ≠ '.' := by
  intro x first
  cases gap with
  | nil =>
    obtain rfl : codeCell c = x := Option.some.inj first
    exact ⟨noWord,noDot⟩
  | cons y gap =>
    obtain rfl : y = x := Option.some.inj first
    have space := isGap y List.mem_cons_self
    refine ⟨isWord_of_isSpace space,fun dot => ?_⟩
    simp [isSpace,dot] at space

theorem span_codeCells {p : Char → Bool} {s : List Char} {b : List Cell} (all : ∀ c ∈ s, p c = true)
    (stops : ∀ x ∈ b.head?, p x.shown = false) :
    (codeCells s ++ b).takeWhile (fun x => p x.shown) = codeCells s ∧
      (codeCells s ++ b).dropWhile (fun x => p x.shown) = b := by
  refine span_append (fun x inside => ?_) stops
  obtain ⟨c,held,rfl⟩ := List.mem_map.mp inside
  exact all c held

theorem begins_of_isOperatorPath {path : List Char} (isPath : isOperatorPath path = true)
    (inPath : ∀ c ∈ path, Text.isWord c = true ∨ c = '.') :
    ∃ c rest, path = c :: rest ∧ Text.isBlank c = false := by
  cases path with
  | nil => exact absurd isPath (by decide)
  | cons c rest =>
    refine ⟨c,rest,rfl,?_⟩
    rcases inPath c List.mem_cons_self with word | rfl
    · exact Text.isBlank_of_isWord word
    · decide

theorem operatorCall?_complete {cells call : List Cell} {target path : List Char}
    (assigns : Assigns cells target path call) (line : Nat) : operatorCall? line cells =
      some ⟨String.ofList target,String.ofList path,line,call⟩ := by
  cases assigns with
  | @call indent left right between inside _ _ before starts word gap gap' isPath inPath gap'' =>
  obtain ⟨c,more,rfl,visible⟩ := isBlank_of_startsName starts
  obtain ⟨d,rest,rfl,visiblePath⟩ := begins_of_isOperatorPath isPath inPath
  -- each step of the reader leaves the rest of the line
  let ending := between ++ codeCell '(' :: inside
  let operator := codeCells (d :: rest) ++ ending
  let assigned := codeCell '=' :: (right ++ operator)
  have atTarget : skipSpaces (indent ++ (codeCells (c :: more) ++ (left ++ assigned))) =
      codeCells (c :: more) ++ (left ++ assigned) := skipSpaces_gap before visible _
  obtain ⟨taken,dropped⟩ := span_codeCells (b := left ++ assigned) word
    (fun x first => (stops_of_gap gap (by decide) (by decide) x first).1)
  have atEquals : skipSpaces (left ++ assigned) = assigned := skipSpaces_gap gap (by decide) _
  have atPath : skipSpaces (right ++ operator) = operator := skipSpaces_gap gap' visiblePath _
  obtain ⟨taken',dropped'⟩ := span_codeCells (p := fun c => Text.isWord c || c == '.') (s := d :: rest)
    (b := ending) (by simpa using inPath)
    (fun x first => by simpa using stops_of_gap gap'' (by decide) (by decide) x first)
  unfold operatorCall?
  simp only [operator,assigned,ending] at atTarget taken dropped atEquals atPath taken' dropped'
  simp only [atTarget,taken,dropped,atEquals,atPath,taken',dropped',openingAt?_gap gap'',
    shownText_codeCells,shown_codeCell,starts,isPath]
  rfl

theorem split_takeWhile {p : Char → Bool} (visible : ∀ c, p c = true → Text.isBlank c = false)
    (cells : List Cell) : ∃ s, s = shownText (cells.takeWhile fun x => p x.shown) ∧
      (∀ c ∈ s, p c = true) ∧ cells = codeCells s ++ cells.dropWhile fun x => p x.shown := by
  have passes : ∀ x ∈ cells.takeWhile (fun x => p x.shown), p x.shown = true := fun x inside =>
    List.mem_takeWhile_imp (p := fun x : Cell => p x.shown) inside
  refine ⟨_,rfl,fun c inside => ?_,?_⟩
  · obtain ⟨x,held,rfl⟩ := List.mem_map.mp inside
    exact passes x held
  · rw [← eq_codeCells_shownText fun x inside => visible _ (passes x inside),
      List.takeWhile_append_dropWhile]

/-- What is read as an assignment is spelled as one. -/
theorem operatorCall?_sound {cells : List Cell} {line : Nat} {c : OperatorCall}
    (read : operatorCall? line cells = some c) :
    Assigns cells c.target.toList c.operator.toList c.call ∧ c.line = line := by
  obtain ⟨indent,whole,before⟩ := skipSpaces_split cells
  unfold operatorCall? at read
  dsimp only at read
  obtain ⟨target,targetText,word,atTarget⟩ :=
    split_takeWhile (p := Text.isWord) (fun _ => Text.isBlank_of_isWord) (skipSpaces cells)
  rw [← targetText] at read
  split at read
  next equals rest behind =>
    obtain ⟨left,atLeft,gap⟩ := skipSpaces_split ((skipSpaces cells).dropWhile fun x =>
      Text.isWord x.shown)
    obtain ⟨right,atRight,gap'⟩ := skipSpaces_split rest
    obtain ⟨path,pathText,inPath,atPath⟩ := split_takeWhile (p := fun c => Text.isWord c || c == '.')
      (fun c passes => by
        simp only [Bool.or_eq_true,beq_iff_eq] at passes
        rcases passes with isWord | rfl
        · exact Text.isBlank_of_isWord isWord
        · decide) (skipSpaces rest)
    rw [← pathText] at read
    split at read
    next call opened =>
      obtain ⟨between,inside,atCall,gap'',rfl⟩ := openingAt?_split opened
      split at read
      next spelled =>
        obtain rfl := Option.some.inj read
        simp only [Bool.and_eq_true,beq_iff_eq] at spelled
        obtain ⟨⟨isEquals,starts⟩,isPath⟩ := spelled
        have here : equals = codeCell '=' := by
          rw [← isEquals]
          exact eq_codeCell (by rw [isEquals]; decide)
        have cut : cells = indent ++ (codeCells target ++ (left ++ codeCell '=' :: (right ++
            (codeCells path ++ (between ++ codeCell '(' :: inside))))) := by
          rw [← atCall,← atPath,← atRight,← here,← behind,← atLeft,← atTarget,← whole]
        simp only [String.toList_ofList]
        rw [cut]
        exact ⟨.call before starts word gap gap' isPath (by simpa using inPath) gap'',trivial⟩
      next => simp at read
    next => simp at read
  next => simp at read

/-- A line of a source, with what stands in front of it and all that follows. -/
structure LineAt (cells front rest : List Cell) (line : Nat) : Prop where
  whole : cells = front ++ rest
  begins : FeedLast front
  line : line = 1 + (text front).count '\n'

theorem lineStartsFrom_cons (first : Nat) (x : Cell) (cells : List Cell) :
    lineStartsFrom first (x :: cells) = (if x.char = '\n' then [(first + 1,cells)] else []) ++
      lineStartsFrom (first + (text [x]).count '\n') cells := by
  rw [lineStartsFrom]
  split
  next feed => simp [text,feed]
  next stays => simp [text,stays]

theorem mem_lineStartsFrom {first line : Nat} {cells rest : List Cell} :
    (line,rest) ∈ lineStartsFrom first cells ↔ ∃ front x, cells = front ++ x :: rest ∧
      x.char = '\n' ∧ line = first + (text (front ++ [x])).count '\n' := by
  induction cells generalizing first with
  | nil => simp [lineStartsFrom]
  | cons y cells ih =>
    have count (front : List Cell) : first + (text (y :: front)).count '\n' =
        first + (text [y]).count '\n' + (text front).count '\n' := by
      have split : text (y :: front) = text [y] ++ text front := rfl
      rw [split,List.count_append,Nat.add_assoc]
    rw [lineStartsFrom_cons,List.mem_append,ih]
    constructor
    · rintro (here | ⟨front,x,rfl,feed,counted⟩)
      · split at here
        next feed =>
          obtain ⟨rfl,rfl⟩ := Prod.mk.inj (List.mem_singleton.mp here)
          exact ⟨[],y,rfl,feed,by simp [text,feed]⟩
        next => simp at here
      · exact ⟨y :: front,x,rfl,feed,counted.trans (count (front ++ [x])).symm⟩
    · rintro ⟨front,x,split,feed,counted⟩
      cases front with
      | nil =>
        obtain ⟨rfl,rfl⟩ := List.cons.inj split
        exact .inl (by simp [feed,counted,text])
      | cons z front =>
        obtain ⟨rfl,rfl⟩ := List.cons.inj split
        exact .inr ⟨front,x,rfl,feed,counted.trans (count (front ++ [x]))⟩

theorem mem_lineStarts {line : Nat} {cells rest : List Cell} :
    (line,rest) ∈ lineStarts cells ↔ ∃ front, LineAt cells front rest line := by
  rw [lineStarts,List.mem_cons,mem_lineStartsFrom]
  constructor
  · rintro (first | ⟨front,x,rfl,feed,counted⟩)
    · obtain ⟨rfl,rfl⟩ := Prod.mk.inj first
      exact ⟨[],rfl,by simp [FeedLast],rfl⟩
    · exact ⟨front ++ [x],by simp,by simpa [FeedLast] using feed,counted⟩
  · rintro ⟨front,rfl,begins,counted⟩
    rcases List.eq_nil_or_concat front with rfl | ⟨front,x,rfl⟩
    · exact .inl (by rw [counted]; rfl)
    · rw [List.concat_eq_append] at counted
      exact .inr ⟨front,x,by simp,begins x (by simp),counted⟩

/-- The operator calls of a source are those that its lines assign. -/
theorem mem_operatorCalls {cells : List Cell} {c : OperatorCall} :
    c ∈ operatorCalls cells ↔ ∃ front rest, LineAt cells front rest c.line ∧
      Assigns rest c.target.toList c.operator.toList c.call := by
  rw [operatorCalls,List.mem_filterMap]
  constructor
  · rintro ⟨⟨line,rest⟩,start,read⟩
    obtain ⟨assigns,rfl⟩ := operatorCall?_sound read
    obtain ⟨front,place⟩ := mem_lineStarts.mp start
    exact ⟨front,rest,place,assigns⟩
  · rintro ⟨front,rest,place,assigns⟩
    refine ⟨(c.line,rest),mem_lineStarts.mpr ⟨front,place⟩,?_⟩
    simpa using operatorCall?_complete assigns c.line

end PipelineAtlas.Airflow

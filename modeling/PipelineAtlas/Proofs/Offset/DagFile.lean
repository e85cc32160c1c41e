import PipelineAtlas.Airflow.DagFile
import PipelineAtlas.Proofs.Offset.Match
import PipelineAtlas.Proofs.Offset.Statement

/-! Reading the DAG of an Airflow file by offsets that matches on the view of the code give. Reading never
fails, and gives the DAG of the source. -/
namespace PipelineAtlas.Offset

open Airflow Script
open String (utf8Len)

/-- A reading that ends with an error of the file, or that has failed at an offset. -/
abbrev Checked := ExceptT Error Option

/-- A reading that has not failed. -/
def sound (result : Except Error α) : Checked α := ExceptT.mk (some result)

theorem sound_bind (result : Except Error α) (next : α → Except Error β) :
    (sound result >>= fun a => sound (next a)) = sound (result >>= next) := by
  cases result <;> rfl

theorem pure_eq_sound (a : α) : (pure a : Checked α) = sound (pure a) := rfl

theorem some_bind (a : α) (next : α → Checked β) :
    ((liftM (some a) : Checked α) >>= next) = next a := rfl

theorem foldlM_sound {R : α → β → Prop} {f : σ → α → Checked σ} {g : σ → β → Except Error σ}
    {left : List α} {right : List β} (related : List.Forall₂ R left right)
    (step : ∀ state a b, R a b → f state a = sound (g state b)) (state : σ) :
    left.foldlM f state = sound (right.foldlM g state) := by
  induction related generalizing state with
  | nil => rfl
  | cons here _ ih =>
    rw [List.foldlM_cons,List.foldlM_cons,step state _ _ here,← sound_bind]
    simp only [ih]

def argumentsAt? (clean : List Char) (opening : Nat) : Checked Arguments := do
  match ← callBody? clean opening with
  | .ok (body,_) => readArguments? body
  | .error line => throw (.unterminated line)

theorem flat_uncommented {x : Cell} (comment : x.role = .comment) : Flat x.uncommented := by
  have plain : ∀ c ∈ blanked x.char, opensBracket c = false ∧ closesBracket c = false := by
    intro c inside
    unfold blanked at inside
    split at inside
    · rw [List.mem_singleton.mp inside]
      decide
    · rw [List.eq_of_mem_replicate inside]
      decide
  rw [Cell.uncommented,if_pos comment]
  intro y inside
  obtain ⟨c,member,rfl⟩ := List.mem_map.mp inside
  rw [opens_of_code rfl,closes_of_code rfl]
  exact plain c member

theorem closeFrom_uncommented (depth : Nat) (cells : List Cell) :
    closeFrom depth (cells.flatMap Cell.uncommented) = (closeFrom depth cells).map fun (inside,behind) =>
      (inside.flatMap Cell.uncommented,behind.flatMap Cell.uncommented) := by
  induction cells generalizing depth with
  | nil => rfl
  | cons x cells ih =>
    rw [List.flatMap_cons]
    by_cases comment : x.role = .comment
    · have hidden : x.role ≠ .code := by simp [comment]
      rw [closeFrom_flat (flat_uncommented comment),ih,closeFrom,closes_of_hidden hidden,
        depthAfter_of_hidden hidden]
      simp [Function.comp_def]
    · have stays : x.uncommented = [x] := if_neg comment
      rw [stays,List.singleton_append,closeFrom,closeFrom,ih]
      split
      next => rfl
      next => simp [Function.comp_def,stays]

theorem text_uncommented (cells : List Cell) :
    text (cells.flatMap Cell.uncommented) = cleanText cells := by
  induction cells with
  | nil => rfl
  | cons x cells ih =>
    have here : text x.uncommented = x.clean := by
      unfold Cell.uncommented Cell.clean
      split
      next => exact text_codeCells _
      next => rfl
    rw [List.flatMap_cons,text_append,ih,here,cleanText,cleanText,List.flatMap_cons]

theorem argumentsAt?_eq {front inside : List Cell}
    (settled : Settled true (front ++ codeCell '(' :: inside)) :
    argumentsAt? (cleanText (front ++ codeCell '(' :: inside)) (utf8Len (text front)) =
      sound (match callArguments? (codeCell '(' :: inside) with
        | some args => .ok args
        | none => .error (.unterminated ((text front).count '\n' + 1))) := by
  have whole : cleanText (front ++ codeCell '(' :: inside) =
      cleanText front ++ '(' :: cleanText inside := by
    rw [cleanText_append]
    rfl
  have scanned : scan ('(' :: cleanText inside) =
      codeCell '(' :: inside.flatMap Cell.uncommented := by
    rw [scan_plainChar rfl,(settled.behind rfl).scan_cleanText]
    rfl
  have body := callBody?_eq (cleanText front) (o := '(') rfl (cleanText inside)
  have feeds : (cleanText front).count '\n' = (text front).count '\n' :=
    keeps_clean.count_flatMap front
  have size : utf8Len (cleanText front) = utf8Len (text front) := keeps_clean.utf8Len_flatMap front
  have closed : enclosed? (codeCell '(' :: inside.flatMap Cell.uncommented) =
      (closeFrom 1 inside).map fun (inside,behind) =>
        (inside.flatMap Cell.uncommented,behind.flatMap Cell.uncommented) :=
    closeFrom_uncommented 1 inside
  have closed' : enclosed? (codeCell '(' :: inside) = closeFrom 1 inside := rfl
  rw [scanned,closed,feeds,size,← whole] at body
  rw [argumentsAt?,body,callArguments?,closed',some_bind]
  cases closeFrom 1 inside with
  | none => rfl
  | some parts =>
    simp only [Option.map_some,text_uncommented,readArguments?_eq]
    rfl

theorem lineAt?_clean (front rest : List Cell) :
    lineAt? (cleanText (front ++ rest)) (utf8Len (text front)) =
      some ((text front).count '\n' + 1) := by
  have size : utf8Len (cleanText front) = utf8Len (text front) := keeps_clean.utf8Len_flatMap front
  have feeds : (cleanText front).count '\n' = (text front).count '\n' :=
    keeps_clean.count_flatMap front
  rw [cleanText_append,← size,lineAt?_append,feeds]

def task? (clean : List Char) (m : OperatorMatch) : Checked Task := do
  let line ← lineAt? clean m.start
  if !carriesCommand m.operator then
    throw (.unsupportedOperator m.target m.operator line)
  else
    let args ← argumentsAt? clean (m.stop - 1)
    let id ← sound (stringArgument args "task_id" line)
    let command ← sound (stringArgument args "bash_command" line)
    return ⟨id,command⟩

def register? (clean : List Char) (state : Dag × Variables) (m : OperatorMatch) :
    Checked (Dag × Variables) := do
  let t ← task? clean m
  let (d,h) ← sound ((state.1.addTask t).mapError Error.dag)
  return (d,(m.target,h) :: state.2)

section

variable {cells front lead inside : List Cell} {m : OperatorMatch} {c : OperatorCall}
  (stands : Stands cells front lead inside m c) (settled : Settled true cells)

include stands settled

theorem task?_eq : task? (cleanText cells) m = sound (readTask c) := by
  have line : lineAt? (cleanText cells) m.start = some c.line := by
    rw [stands.start,stands.line,stands.whole,lineAt?_clean]
  have args : argumentsAt? (cleanText cells) (m.stop - 1) =
      sound (match callArguments? c.call with
        | some args => .ok args
        | none => .error (.unterminated c.line)) := by
    have together := stands.whole
    rw [← List.append_assoc] at together
    rw [together] at settled
    have read := argumentsAt?_eq settled
    rw [text_append,List.count_append,stands.oneLine,Nat.add_zero,← stands.line,← stands.call,
      ← text_append] at read
    rw [stands.stop,Nat.add_sub_cancel,together,← stands.call]
    exact read
  rw [task?,readTask,line,some_bind,stands.operator,stands.target]
  split
  next => rfl
  next =>
    rw [args]
    cases callArguments? c.call with
    | none => rfl
    | some args =>
      simp only [pure_eq_sound,sound_bind]
      rfl

theorem register?_eq (state : Dag × Variables) :
    register? (cleanText cells) state m = sound (registerTask state c) := by
  rw [register?,task?_eq stands settled,stands.target,registerTask,← sound_bind]
  congr 1
  funext t
  cases (state.1.addTask t).mapError Error.dag <;> rfl

end

def applyReading (vars : Variables) (d : Dag) (s : Statement) : Reading → Except Error Dag
  | .other => .ok d
  | .unreadable => .error (.unreadableDependency (String.ofList s.text) s.line)
  | .unreadableCall task => do
    let _ ← resolve vars s.line task
    .error (.unreadableDependency (String.ofList s.text) s.line)
  | .dependency dep => dep.apply vars s.line d

theorem applyStatement_eq (vars : Variables) (d : Dag) (s : Statement) :
    applyStatement vars d s = applyReading vars d s (readDependency s.text) := by
  unfold applyStatement
  cases readDependency s.text <;> rfl

def linkStatement? (vars : Variables) (d : Dag) (s : Statement) : Checked Dag := do
  let reading ← reading? s.text
  sound (applyReading vars d s reading)

def readDag? (source : List Char) : Checked Dag := do
  let clean ← hideComments? source
  let code ← hideLiterals? clean
  let some stop := declarationStop? code | throw .noDeclaration
  let line ← lineAt? clean (stop - 1)
  let args ← argumentsAt? clean (stop - 1)
  let d ← sound (readDeclaration args line)
  let (d,vars) ← (operatorMatches code).foldlM (register? clean) (d,[])
  let statements ← statements? code
  let d ← statements.foldlM (linkStatement? vars) d
  sound (d.validate.mapError Error.dag)
  return d

theorem foldlM_linkStatement? {s : List Char} {given : List Statement}
    (given' : ∀ x ∈ given, x ∈ statements (codeText (source s))) (vars : Variables) (d : Dag) :
    given.foldlM (linkStatement? vars) d = sound (given.foldlM (applyStatement vars) d) := by
  have same : List.Forall₂ (fun a b => a = b ∧ ∀ c ∈ b.text, isQuote c = false) given given :=
    List.forall₂_same.mpr fun x inside => ⟨rfl,isQuote_of_statement (given' x inside)⟩
  refine foldlM_sound same ?_ d
  rintro d x _ ⟨rfl,noQuote⟩
  rw [linkStatement?,reading?_eq noQuote,some_bind,applyStatement_eq]

/-- A source is read without fail. -/
theorem readDag?_eq (s : List Char) : readDag? s = sound (readDag s) := by
  have settled : Settled true (source s) := settled_scanFrom true s
  have noQuote : ∀ c ∈ codeText (source s), isQuote c = false := fun c => isQuote_codeText
  rw [readDag?,hideComments?_eq,some_bind,hideLiterals?_eq,some_bind,hideLiterals_hideComments,
    statements?_eq noQuote,readDag]
  cases declared : declaration? (source s) with
  | none =>
    rw [declarationStop?_of_undeclared declared]
    rfl
  | some found =>
  obtain ⟨line,call⟩ := found
  obtain ⟨front,inside,whole,rfl,counted,stop⟩ := declarationStop?_of_declared declared
  have line : lineAt? (cleanText (source s)) (utf8Len (text front)) = some line := by
    rw [whole,lineAt?_clean,counted]
  have args := argumentsAt?_eq (whole ▸ settled)
  rw [← whole,← counted] at args
  rw [stop]
  simp only [Nat.add_sub_cancel,hideComments,line,some_bind,args]
  cases callArguments? (codeCell '(' :: inside) with
  | none => rfl
  | some args =>
  have registered (d : Dag) := foldlM_sound (g := registerTask) (operatorMatches_stand (source s))
    (fun state m c stands => by
      obtain ⟨front,lead,inside,stands⟩ := stands
      exact register?_eq stands settled state) (d,[])
  simp only [registered,foldlM_linkStatement? fun x inside => inside,pure_eq_sound,sound_bind]
  rfl

/-- The offsets of the parentheses behind which arguments are read. -/
def openings (code : List Char) : List Nat :=
  ((declarationStop? code).toList ++ (operatorMatches code).map (·.stop)).map (· - 1)

def starts (code : List Char) : List Nat := (operatorMatches code).map (·.start)

/-- What an offset in a source is good for in the view without comments and in the view of the code
alone. -/
structure SharedOffsets (s clean code : List Char) : Prop where
  made : hideComments? s = some clean ∧ hideLiterals? clean = some code
  length : utf8Len clean = utf8Len s ∧ utf8Len code = utf8Len s
  feed (i : Nat) : (charAt? clean i = some '\n' ↔ charAt? s i = some '\n') ∧
    (charAt? code i = some '\n' ↔ charAt? s i = some '\n')
  /-- A character of code is that of the source or a blank for a byte of what is hidden. -/
  shown (i : Nat) (c : Char) (here : charAt? code i = some c) :
    charAt? s i = some c ∨ c = ' ' ∧ (ByteOf s .comment i ∨ ByteOf s .literal i)
  again : hideComments? clean = some clean
  noQuote : ∀ c ∈ code, isQuote c = false
  boundary (i : Nat) : (Boundary s i → Boundary clean i) ∧ (Boundary clean i → Boundary code i)
  opening : ∀ i ∈ openings code,
    Boundary clean i ∧ charAt? clean i = some '(' ∧ charAt? code i = some '('
  /-- A line may begin with a literal, of which only the line is taken. -/
  start : ∀ i ∈ starts code, Boundary clean i ∧ ∃ c, charAt? code i = some c ∧
    (charAt? clean i = some c ∨ c = ' ' ∧ ByteOf s .literal i)
  line (i n : Nat) : (lineAt? s i = some n → lineAt? clean i = some n) ∧
    (lineAt? clean i = some n → lineAt? code i = some n)
  reads : (readDag? s).run = some (readDag s)

theorem Keeps.charAt?_place {show? : Cell → List Char} (keeps : Keeps show?) (front : List Cell)
    {x : Cell} {c : Char} {more : List Char} (shown : show? x = c :: more) (rest : List Cell) :
    charAt? ((front ++ x :: rest).flatMap show?) (utf8Len (text front)) = some c := by
  rw [List.flatMap_append,List.flatMap_cons,shown,List.cons_append,← keeps.utf8Len_flatMap front,
    charAt?_append]

theorem mem_openings {cells : List Cell} {i : Nat} (member : i ∈ openings (codeText cells)) :
    ∃ front inside, cells = front ++ codeCell '(' :: inside ∧ i = utf8Len (text front) := by
  obtain ⟨stop,taken,rfl⟩ := List.mem_map.mp member
  rcases List.mem_append.mp taken with first | operator
  · have found : declarationStop? (codeText cells) = some stop := Option.mem_toList.mp first
    cases declared : declaration? cells with
    | none => simp [declarationStop?_of_undeclared declared] at found
    | some call =>
      obtain ⟨front,inside,whole,-,-,stop'⟩ := declarationStop?_of_declared declared
      obtain rfl : _ = stop := Option.some.inj (stop'.symm.trans found)
      exact ⟨front,inside,whole,Nat.add_sub_cancel _ _⟩
  · obtain ⟨m,matched,rfl⟩ := List.mem_map.mp operator
    obtain ⟨front,lead,inside,c,stands⟩ := exists_of_mem_operatorMatches matched
    refine ⟨front ++ lead,inside,?_,?_⟩
    · rw [stands.whole,List.append_assoc]
    · rw [stands.stop,Nat.add_sub_cancel]

theorem mem_starts {cells : List Cell} {i : Nat} (member : i ∈ starts (codeText cells)) :
    ∃ front x rest, cells = front ++ x :: rest ∧ i = utf8Len (text front) := by
  obtain ⟨m,matched,rfl⟩ := List.mem_map.mp member
  obtain ⟨front,lead,inside,c,stands⟩ := exists_of_mem_operatorMatches matched
  obtain ⟨x,rest,split⟩ : ∃ x rest, lead ++ codeCell '(' :: inside = x :: rest :=
    List.exists_cons_of_ne_nil (by simp)
  exact ⟨front,x,rest,by rw [stands.whole,split],stands.start⟩

theorem exists_code (x : Cell) : ∃ c more, x.code = c :: more := by
  refine List.exists_cons_of_ne_nil fun none => ?_
  have size := keeps_code.size x
  rw [none] at size
  exact absurd size x.char.utf8Size_pos.ne

/-- The views of a source share their offsets, and reading it by offsets does not fail. -/
theorem offsets_shared (s : List Char) :
    SharedOffsets s (hideComments s) (hideLiterals (hideComments s)) := by
  have cells : text (source s) = s := text_scanFrom true .code s
  have again : text (scan (hideComments s)) = hideComments s := text_scanFrom false .code _
  have view := hideLiterals_hideComments s
  constructor
  case made => exact ⟨hideComments?_eq s,hideLiterals?_eq (hideComments s)⟩
  case length =>
    rw [view]
    exact ⟨(keeps_clean.utf8Len_flatMap (source s)).trans (congrArg utf8Len cells),
      (keeps_code.utf8Len_flatMap (source s)).trans (congrArg utf8Len cells)⟩
  case feed =>
    intro i
    have clean := keeps_clean.charAt?_feed (source s) i
    have code := keeps_code.charAt?_feed (source s) i
    rw [cells] at clean code
    rw [view]
    exact ⟨clean,code⟩
  case shown =>
    intro i c here
    rw [view] at here
    rcases charAt?_codeText here with same | ⟨rfl,role,hidden,inside⟩
    · exact .inl same
    · cases role with
      | code => exact absurd rfl hidden
      | literal => exact .inr ⟨rfl,.inr inside⟩
      | comment => exact .inr ⟨rfl,.inl inside⟩
  case again => rw [hideComments?_eq,hideComments_hideComments]
  case noQuote =>
    rw [view]
    exact fun c => isQuote_codeText
  case boundary =>
    intro i
    refine ⟨fun between => keeps_clean.boundary (by rwa [cells]),fun between => ?_⟩
    rw [← again] at between
    exact keeps_code.boundary between
  case opening =>
    rw [view]
    intro i member
    obtain ⟨front,inside,whole,rfl⟩ := mem_openings member
    have clean := keeps_clean.charAt?_place front (x := codeCell '(') rfl inside
    have code := keeps_code.charAt?_place front (x := codeCell '(') rfl inside
    rw [← whole] at clean code
    exact ⟨boundary_of_charAt? clean,clean,code⟩
  case start =>
    rw [view]
    intro i member
    obtain ⟨front,x,rest,whole,rfl⟩ := mem_starts member
    obtain ⟨c,more,shown⟩ := exists_code x
    have code := keeps_code.charAt?_place front shown rest
    rw [← whole] at code
    have between : Boundary (text (source s)) (utf8Len (text front)) :=
      ⟨text front,text (x :: rest),by rw [whole,text_append],rfl⟩
    exact ⟨keeps_clean.boundary between,c,code,charAt?_hideComments code⟩
  case line =>
    intro i n
    refine ⟨fun at? => keeps_clean.lineAt? (by rwa [cells]),fun at? => ?_⟩
    rw [← again] at at?
    exact keeps_code.lineAt? at?
  case reads => rw [readDag?_eq]; rfl

def literalFirst : List Char :=
  ("with DAG('d', start_date='2024-01-01') as dag:\n" ++
    "'' a = BashOperator(task_id='a', bash_command='true')\n").toList

/-- The start of such a line is a blank of the code that hides the literal. -/
theorem start_at_literal : ¬ ∀ i ∈ starts (hideLiterals (hideComments literalFirst)),
    charAt? (hideComments literalFirst) i =
      charAt? (hideLiterals (hideComments literalFirst)) i := by
  intro same
  have taken : 47 ∈ starts (hideLiterals (hideComments literalFirst)) := by decide +kernel
  have apart : charAt? (hideComments literalFirst) 47 ≠
      charAt? (hideLiterals (hideComments literalFirst)) 47 := by decide +kernel
  exact apart (same 47 taken)

end PipelineAtlas.Offset

import PipelineAtlas.Proofs.Airflow.Inert
import PipelineAtlas.Proofs.Airflow.LineBreak
import PipelineAtlas.Proofs.Offset.Bracket
import PipelineAtlas.Proofs.Offset.Value
import PipelineAtlas.Proofs.Script.Part

/-! Joining the lines of a text into statements and reading them by offsets. Neither fails, and they give
the statements of the text and their readings. -/
namespace PipelineAtlas.Offset

open Script
open String (utf8Len)

/-- Adds what stands between two offsets to the statements, unless it is blank. -/
def pushStatement? (whole : List Char) (start stop : Nat) (out : List Statement) :
    Option (List Statement) :=
  (between? start stop whole).bind fun passage =>
    let body := Text.trimLeft passage
    if (Text.trimRight body).isEmpty then some out
    else (lineAt? whole (start + (utf8Len passage - utf8Len body))).map fun line =>
      out ++ [⟨line,Text.trimRight (joinLines body)⟩]

/-- The open brackets, whether a backslash came last, where the statement at hand starts, and the
statements in front of it. -/
structure LineScan where
  depth : Nat
  continued : Bool
  start : Nat
  out : List Statement

def lineStep (whole : List Char) (s : LineScan) (i : Nat) (c : Char) :
    Option (LineScan ⊕ List Statement) :=
  if c = '\n' ∧ s.depth = 0 ∧ s.continued = false then
    (pushStatement? whole s.start i s.out).map fun out => .inl ⟨0,false,i + 1,out⟩
  else
    some (.inl { s with
      depth := depthPast c s.depth
      continued := if c = '\n' ∨ Text.isBlank c = false then c == '\\' else s.continued })

def statements? (whole : List Char) : Option (List Statement) :=
  each whole (lineStep whole) (fun s => pushStatement? whole s.start (utf8Len whole) s.out)
    ⟨0,false,0,[]⟩

/-- A scan for statements that has come to where a scan by offsets is, behind some text and the
statement begun. -/
structure Follows (front begun : List Char) (s : LineScan) (scan : StatementScan) : Prop where
  start : s.start = utf8Len front
  depth : s.depth = scan.depth
  continued : s.continued = scan.continued
  line : scan.line = (front ++ begun).count '\n' + 1
  split : ∃ indent, begun = indent ++ scan.begun.reverse ∧ (∀ c ∈ indent, Text.isBlank c = true) ∧
    (scan.begun ≠ [] → scan.start = (front ++ indent).count '\n' + 1 ∧
      ∀ c ∈ scan.begun.getLast?, Text.isBlank c = false)

namespace Follows

variable {front begun : List Char} {s : LineScan} {scan : StatementScan}

variable (follows : Follows front begun s scan)

include follows

theorem next (out : List Statement) :
    Follows (front ++ begun ++ ['\n']) [] ⟨0,false,utf8Len (front ++ begun) + 1,out⟩
      (.atLine (scan.line + 1)) where
  start := by rw [utf8Len_concat]; rfl
  depth := rfl
  continued := rfl
  line := by
    rw [List.append_nil,List.count_append,List.count_singleton_self,← follows.line]
    rfl
  split := ⟨[],rfl,by simp,fun some => absurd rfl some⟩

theorem pushStatement? {whole behind : List Char} (same : whole = front ++ (begun ++ behind)) :
    Offset.pushStatement? whole s.start (utf8Len (front ++ begun)) s.out =
      some (s.out ++ scan.finish) := by
  obtain ⟨indent,split,blank,visible⟩ := follows.split
  have passage : between? s.start (utf8Len (front ++ begun)) whole = some begun := by
    rw [follows.start,same,between?_append]
  have body : Text.trimLeft begun = Text.trimLeft scan.begun.reverse := by
    rw [split,Text.trimLeft,List.dropWhile_append_of_pos blank]
    rfl
  rw [Offset.pushStatement?,passage,Option.bind_some]
  by_cases empty : scan.begun = []
  · have none : Text.trimLeft begun = [] := by
      rw [body,empty]
      rfl
    simp [none,StatementScan.finish,empty,Text.trimRight]
  · obtain ⟨start,first⟩ := visible empty
    have front_line : lineAt? whole (s.start + (utf8Len begun - utf8Len scan.begun.reverse)) =
        some scan.start := by
      have size : utf8Len begun - utf8Len scan.begun.reverse = utf8Len indent := by
        rw [split,String.utf8Len_append]
        omega
      rw [follows.start,size,← String.utf8Len_append,same,split,List.append_assoc,← List.append_assoc,
        lineAt?_append,start]
    obtain ⟨c,rest,turned⟩ := List.exists_cons_of_ne_nil (List.reverse_ne_nil_iff.mpr empty)
    have visible : Text.isBlank c = false := first c (by rw [← List.head?_reverse,turned]; rfl)
    have kept : Text.trimLeft begun = scan.begun.reverse := by
      rw [body,turned,Text.trimLeft,List.dropWhile_cons_of_neg (by simp [visible])]
    have inked : (Text.trimRight scan.begun.reverse).isEmpty = false := by
      rw [turned,isEmpty_trimRight]
      simp [visible]
    simp only [kept,inked,Bool.false_eq_true,if_false,front_line,Option.map_some,
      StatementScan.finish_begun empty]

theorem push (c : Char) :
    Follows front (begun ++ [c])
      { s with
        depth := depthPast c s.depth
        continued := if c = '\n' ∨ Text.isBlank c = false then c == '\\' else s.continued }
      (scan.push c) where
  start := follows.start
  depth := by
    rw [follows.depth,depthPast,opensBracket,closesBracket,StatementScan.push]
    simp [or_assoc]
  continued := by rw [follows.continued]; rfl
  line := by
    rw [StatementScan.push,follows.line]
    by_cases feed : c = '\n'
    · simp [feed,Nat.add_assoc]
    · simp [feed]
  split := by
    obtain ⟨indent,split,blank,visible⟩ := follows.split
    rcases scan.begun_push c with ⟨empty,before,isBlank⟩ | longer
    · refine ⟨begun ++ [c],by simp [empty],?_,fun some => absurd empty some⟩
      rw [split,before,List.reverse_nil,List.append_nil]
      exact List.forall_mem_append.mpr ⟨blank,List.forall_mem_singleton.mpr isBlank⟩
    · refine ⟨indent,by rw [longer,List.reverse_cons,split,List.append_assoc],blank,fun _ => ?_⟩
      cases before : scan.begun with
      | nil =>
        have first : Text.isBlank c = false := by simpa [StatementScan.push,before] using longer
        refine ⟨?_,by simpa [longer,before] using first⟩
        rw [StatementScan.push,before,List.isEmpty_nil,if_pos rfl,follows.line,split,before,
          List.reverse_nil,List.append_nil]
      | cons d rest =>
        obtain ⟨start,first⟩ := visible (by simp [before])
        refine ⟨by simp [StatementScan.push,before,start],fun e last => first e ?_⟩
        rwa [longer,before,List.getLast?_cons_cons,← before] at last

end Follows

theorem overCells_lineStep {front begun rest : List Char} {s : LineScan} {scan : StatementScan}
    (follows : Follows front begun s scan) {whole : List Char}
    (same : whole = front ++ (begun ++ rest)) :
    overCells (lineStep whole) (fun s => pushStatement? whole s.start (utf8Len whole) s.out) s
        (utf8Len (front ++ begun)) (codeCells rest) =
      some (s.out ++ statementsFrom scan rest) := by
  induction rest generalizing front begun s scan with
  | nil =>
    have finished := follows.pushStatement? same
    have size : utf8Len whole = utf8Len (front ++ begun) := by rw [same,List.append_nil]
    rw [← size] at finished
    exact finished
  | cons c rest ih =>
    have cells : codeCells (c :: rest) = ⟨c,.code⟩ :: codeCells rest := rfl
    rw [cells,overCells,if_pos rfl,statementsFrom]
    have atEnd : (c = '\n' ∧ s.depth = 0 ∧ s.continued = false) ↔ scan.endsAt c = true := by
      rw [StatementScan.endsAt,follows.depth,follows.continued]
      simp [and_assoc]
    by_cases ends : scan.endsAt c = true
    · obtain ⟨rfl,-⟩ := atEnd.mpr ends
      have more := ih (follows.next (s.out ++ scan.finish)) (by simp [same])
      rw [List.append_nil,utf8Len_concat] at more
      rw [lineStep,if_pos (atEnd.mpr ends),follows.pushStatement? same,Option.map_some,
        Option.bind_some,Sum.elim_inl,if_pos ends,← List.append_assoc]
      exact more
    · have more := ih (follows.push c) (by simp [same])
      rw [← List.append_assoc,utf8Len_concat] at more
      rw [lineStep,if_neg (atEnd.not.mpr ends),Option.bind_some,Sum.elim_inl,if_neg ends]
      exact more

/-- The statements of a text without quotes are made without fail. -/
theorem statements?_eq {s : List Char} (noQuote : ∀ c ∈ s, isQuote c = false) :
    statements? s = some (statements s) := by
  have start : Follows [] [] ⟨0,false,0,[]⟩ (.atLine 1) :=
    ⟨rfl,rfl,rfl,rfl,[],rfl,by simp,fun some => absurd rfl some⟩
  rw [statements?,each_eq,scan_of_unquoted noQuote]
  exact overCells_lineStep start rfl

open Airflow

def Bare (cells : List Cell) : Prop := ∀ x ∈ cells, x.role = .code ∧ isQuote x.char = false

namespace Bare

variable {cells part : List Cell}

theorem cells_eq (bare : Bare cells) : cells = codeCells (text cells) :=
  eq_codeCells fun x inside => (bare x inside).1

theorem settled (bare : Bare cells) : Settled false cells := by
  have noQuote : ∀ c ∈ text cells, isQuote c = false := by
    intro c inside
    obtain ⟨x,member,rfl⟩ := List.mem_map.mp inside
    exact (bare x member).2
  exact (scan_of_unquoted noQuote).trans bare.cells_eq.symm

theorem scan_text (bare : Bare cells) : scan (text cells) = cells := bare.settled

theorem sub (bare : Bare cells) (inside : part ⊆ cells) : Bare part :=
  fun x member => bare x (inside member)

end Bare

theorem bare_scan {s : List Char} (noQuote : ∀ c ∈ s, isQuote c = false) : Bare (scan s) := by
  rw [scan_of_unquoted noQuote]
  intro x inside
  obtain ⟨c,member,rfl⟩ := List.mem_map.mp inside
  exact ⟨rfl,noQuote c member⟩

theorem Bare.unwrap {cells : List Cell} (bare : Bare cells) : Bare (Script.unwrap cells) := by
  obtain ⟨a,b,whole,-⟩ := unwrap_split cells
  refine bare.sub fun x inside => ?_
  rw [whole]
  simp [inside]

def names? (operand : List Char) : Option (Option (List (List Char))) :=
  let operand := Text.trim operand
  if Text.isIdentifier operand then some (some [operand])
  else
    match listed? operand with
    | some inside => (splitTopLevel? inside ',').map fun parts =>
      let names := parts.map Text.trim
      if names.all Text.isIdentifier then some names else none
    | none => some none

theorem names?_eq {operand : List Cell} (bare : Bare operand) :
    names? (text operand) = some (operandNames? operand) := by
  unfold names? operandNames?
  simp only [← text_trimCells,listed?_eq]
  split
  next => rfl
  next =>
    cases body : listBody? (trimCells operand) with
    | none => rfl
    | some inside =>
      have settled := bare.settled.trimCells.listBody? body
      have scanned : scan (text inside) = inside := settled
      simp only [Option.map_some,splitTopLevel?_eq comma_flat,scanned,List.map_map,
        Function.comp_def,text_trimCells]

def step? (step : Shift × List Char) : Option (Option (Shift × List (List Char))) :=
  (names? step.2).map (Option.map fun names => (step.1,names))

def groups? (first : List Char) (rest : List (Shift × List Char)) : Option (Option Dependency) := do
  let first ← names? first
  let rest ← rest.mapM step?
  return first.bind fun first => (rest.mapM id).bind fun rest => some (.groups first rest)

def stepText (step : Shift × List Cell) : Shift × List Char := (step.1,text step.2)

theorem groups?_eq {first : List Cell} {rest : List (Shift × List Cell)} (bare : Bare first)
    (others : ∀ step ∈ rest, Bare step.2) :
    groups? (text first) (rest.map stepText) = some (readGroups first rest) := by
  have each : (rest.map stepText).mapM step? = some (rest.map groupOf?) :=
    mapM_of_forall fun step member => by rw [step?,stepText,names?_eq (others step member)]; rfl
  rw [groups?,names?_eq bare,each,readGroups_eq]
  simp only [Option.bind_eq_bind,Option.bind_some,Option.pure_def,List.mapM_map]
  rfl

def linked? (e : List Char) : Option (List Char × Shift × List Char) :=
  (setCall? (codeCells e)).map fun (task,shift,body) => (task,shift,text body)

def chained? (e : List Char) : Option (List Char) := (chainCall? (codeCells e)).map text

def reading? (statement : List Char) : Option Reading :=
  (unwrap? (expression statement)).bind fun e =>
  match linked? e with
  | some (task,shift,body) => (names? body).map fun others =>
    match others with
    | some others => .dependency (.call task shift others)
    | none => .unreadableCall task
  | none =>
  match chained? e with
  | some body => (splitTopLevel? body ',').bind fun parts =>
    match parts with
    | [] => some (.dependency (.groups [] []))
    | first :: rest => (groups? first (rest.map fun part => (.forward,part))).map Reading.ofOption
  | none => (shiftChain? e).bind fun (operands,shifts) =>
    match operands with
    | first :: rest =>
      if shifts.isEmpty then some .other
      else (groups? first (shifts.zip rest)).map Reading.ofOption
    | [] => some .other

theorem bodyOf?_sub {opening : String} {cells body : List Cell}
    (found : bodyOf? opening cells = some body) : body ⊆ cells := by
  obtain ⟨-,inner⟩ := Option.ite_none_right_eq_some.mp found
  obtain ⟨-,same⟩ := Option.ite_none_right_eq_some.mp inner
  obtain rfl := Option.some.inj same
  exact List.Subset.trans (List.dropLast_subset _) (List.drop_subset _ _)

theorem setCall?_sub {cells body : List Cell} {task : List Char} {s : Shift}
    (found : setCall? cells = some (task,s,body)) : body ⊆ cells := by
  obtain ⟨-,inner⟩ := Option.ite_none_right_eq_some.mp found
  have held : ∃ opening, bodyOf? opening (cells.dropWhile fun x => Text.isWord x.char) = some body := by
    rcases (Option.orElse_eq_some _ _ _).mp inner with down | ⟨-,up⟩
    · obtain ⟨_,found,same⟩ := Option.map_eq_some_iff.mp down
      cases same
      exact ⟨_,found⟩
    · obtain ⟨_,found,same⟩ := Option.map_eq_some_iff.mp up
      cases same
      exact ⟨_,found⟩
  obtain ⟨opening,found⟩ := held
  exact List.Subset.trans (bodyOf?_sub found) (List.dropWhile_subset _)

theorem chainCall?_sub {cells body : List Cell} (found : chainCall? cells = some body) :
    body ⊆ cells := by
  obtain ⟨-,inner⟩ := Option.ite_none_right_eq_some.mp found
  exact List.Subset.trans (bodyOf?_sub inner) (List.dropWhile_subset _)

theorem splitFrom_sub {separator : Char} {depth : Nat} {begun cells part : List Cell}
    (member : part ∈ splitFrom separator depth begun cells) : part ⊆ begun ++ cells := by
  induction cells generalizing depth begun with
  | nil =>
    obtain rfl := List.mem_singleton.mp member
    simp
  | cons x cells ih =>
    rw [splitFrom] at member
    split at member
    next =>
      rcases List.mem_cons.mp member with rfl | later
      · exact fun y inside => List.mem_append_left _ (List.mem_reverse.mp inside)
      · have held := ih later
        exact fun y inside => List.mem_append_right _ (List.mem_cons_of_mem x (held inside))
    next =>
      have held := ih member
      exact fun y inside => List.perm_middle.symm.subset (held inside)

theorem splitTopLevel_sub {separator : Char} {cells part : List Cell}
    (member : part ∈ splitTopLevel separator cells) : part ⊆ cells :=
  splitFrom_sub (List.mem_filter.mp member).1

theorem shiftChainFrom_sub (depth : Nat) (cells : List Cell) :
    (shiftChainFrom depth cells).first ⊆ cells ∧
      ∀ step ∈ (shiftChainFrom depth cells).rest, step.2 ⊆ cells := by
  fun_induction shiftChainFrom depth cells with
  | case1 => simp
  | case2 => simp
  | case3 depth x y rest s _ ih =>
    obtain ⟨first,others⟩ := ih
    have wider : rest ⊆ x :: y :: rest := fun z inside => by simp [inside]
    refine ⟨List.nil_subset _,List.forall_mem_cons.mpr
      ⟨List.Subset.trans first wider,fun step member => ?_⟩⟩
    exact List.Subset.trans (others step member) wider
  | case4 depth x y rest _ ih =>
    obtain ⟨first,others⟩ := ih
    refine ⟨List.cons_subset_cons x first,fun step member => ?_⟩
    exact List.Subset.trans (others step member) (List.subset_cons_self x (y :: rest))

theorem reading?_eq {statement : List Char} (noQuote : ∀ c ∈ statement, isQuote c = false) :
    reading? statement = some (readDependency statement) := by
  have bare : Bare (unwrap (scan (expression statement))) :=
    (bare_scan fun c inside => noQuote c (mem_expression inside)).unwrap
  rw [reading?,unwrap?_eq,Option.bind_some,readDependency]
  generalize unwrap (scan (expression statement)) = cells at bare
  simp only [linked?,chained?,← bare.cells_eq]
  cases call : setCall? cells with
  | some found =>
    obtain ⟨task,shift,body⟩ := found
    have named := names?_eq (bare.sub (setCall?_sub call))
    cases others : operandNames? body with
    | none => simp only [Option.map_some,named,others]
    | some names => simp only [Option.map_some,named,others]
  | none =>
  cases arguments : chainCall? cells with
  | some body =>
    have inner := bare.sub (chainCall?_sub arguments)
    have parts (part : List Cell) (member : part ∈ splitTopLevel ',' body) : Bare part :=
      inner.sub (splitTopLevel_sub member)
    simp only [Option.map_none,Option.map_some,splitTopLevel?_eq comma_flat,inner.scan_text,
      Option.bind_some]
    cases split : splitTopLevel ',' body with
    | nil => rfl
    | cons first rest =>
      rw [split] at parts
      obtain ⟨bareFirst,bareRest⟩ := List.forall_mem_cons.mp parts
      have bareSteps : ∀ step ∈ rest.map fun part => (Shift.forward,part), Bare step.2 :=
        List.forall_mem_map.mpr bareRest
      have read := groups?_eq bareFirst bareSteps
      rw [List.map_map] at read
      simp only [List.map_cons,List.map_map]
      exact congrArg (Option.map Reading.ofOption) read
  | none =>
    obtain ⟨first,others⟩ := shiftChainFrom_sub 0 cells
    have read := groups?_eq (bare.sub first) fun step member => bare.sub (others step member)
    simp only [Option.map_none,shiftChain?_eq,bare.scan_text,Option.bind_some,chainParts,
      List.nil_append,List.isEmpty_map,List.zip_map']
    split
    next => rfl
    next => exact congrArg (Option.map Reading.ofOption) read

end PipelineAtlas.Offset

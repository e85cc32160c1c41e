import PipelineAtlas.Script.Statement

/-! A statement that stands on a line of its own. -/
namespace PipelineAtlas.Script

def depthOver (depth : Nat) (s : List Char) : Nat :=
  s.foldl (fun depth c =>
    if c = '(' ∨ c = '[' ∨ c = '{' then depth + 1
    else if c = ')' ∨ c = ']' ∨ c = '}' then depth - 1
    else depth) depth

theorem depthOver_append (depth : Nat) (s t : List Char) :
    depthOver depth (s ++ t) = depthOver (depthOver depth s) t := List.foldl_append

def brackets : List Char := ['(','[','{',')',']','}']

theorem depthOver_level {s : List Char} (level : ∀ c ∈ s, c ∉ brackets) (depth : Nat) :
    depthOver depth s = depth := by
  induction s with
  | nil => rfl
  | cons c s ih =>
    have here := level c (by simp)
    simp only [brackets,List.mem_cons,List.not_mem_nil,or_false,not_or] at here
    have step : depthOver depth (c :: s) = depthOver depth s := by simp [depthOver,here]
    rw [step,ih fun d inside => level d (List.mem_cons_of_mem c inside)]

namespace StatementScan

variable {s : List Char} (oneLine : '\n' ∉ s)

include oneLine

theorem statementsFrom_append (scan : StatementScan) (rest : List Char) :
    statementsFrom scan (s ++ rest) = statementsFrom (s.foldl push scan) rest := by
  induction s generalizing scan with
  | nil => rfl
  | cons c s ih =>
    simp only [List.mem_cons,not_or] at oneLine
    have stays : scan.endsAt c = false := by
      simp [endsAt,Ne.symm oneLine.1]
    simp only [List.cons_append,statementsFrom,stays,List.foldl_cons]
    exact ih oneLine.2 _

theorem pushAll_blank (blank : ∀ c ∈ s, c = ' ') (line : Nat) :
    s.foldl push (atLine line) = atLine line := by
  induction s with
  | nil => rfl
  | cons c s ih =>
    simp only [List.mem_cons,not_or] at oneLine
    obtain rfl := blank c (by simp)
    have here : (atLine line).push ' ' = atLine line := rfl
    rw [List.foldl_cons,here]
    exact ih oneLine.2 fun d inside => blank d (List.mem_cons_of_mem ' ' inside)

theorem pushAll_begun (straight : '\\' ∉ s) (scan : StatementScan) (begun : scan.begun ≠ [])
    (fresh : scan.continued = false) :
    s.foldl push scan = ⟨depthOver scan.depth s,false,scan.line,scan.start,
      s.reverse ++ scan.begun⟩ := by
  induction s generalizing scan with
  | nil =>
    cases scan
    simp_all [depthOver]
  | cons c s ih =>
    simp only [List.mem_cons,not_or] at oneLine straight
    have feed := Ne.symm oneLine.1
    have slash := Ne.symm straight.1
    have here : scan.push c = ⟨depthOver scan.depth [c],false,scan.line,scan.start,
        c :: scan.begun⟩ := by
      simp [push,depthOver,feed,slash,fresh,begun]
    rw [List.foldl_cons,here,ih oneLine.2 straight.2 _ (by simp) rfl]
    simp [depthOver]

end StatementScan

/-- A text that makes a statement of its own on a line: brackets are closed again, nothing joins the
next line, and no white space stands around it. -/
structure Standalone (body : List Char) : Prop where
  oneLine : '\n' ∉ body
  straight : '\\' ∉ body
  noReturn : '\r' ∉ body
  closed : depthOver 0 body = 0
  first : ∃ c rest, body = c :: rest ∧ Text.isBlank c = false
  last : ∀ c ∈ body.getLast?, Text.isBlank c = false

theorem joinLines_id {s : List Char} (straight : '\\' ∉ s) (oneLine : '\n' ∉ s)
    (noReturn : '\r' ∉ s) : joinLines s = s := by
  induction s with
  | nil => rfl
  | cons c s ih =>
    simp only [List.mem_cons,not_or] at straight oneLine noReturn
    have step : joinLines (c :: s) = (if c = '\r' ∨ c = '\n' then ' ' else c) :: joinLines s := by
      rw [joinLines]
      · rintro _ rfl
        exact absurd rfl straight.1
      · rintro _ rfl
        exact absurd rfl straight.1
    rw [step,ih straight.2 oneLine.2 noReturn.2,if_neg]
    rintro (rfl | rfl)
    · exact noReturn.1 rfl
    · exact oneLine.1 rfl

theorem statementsFrom_line {indent body : List Char} (blank : ∀ c ∈ indent, c = ' ')
    (alone : Standalone body) (line : Nat) (rest : List Char) :
    statementsFrom (.atLine line) (indent ++ body ++ '\n' :: rest) =
      ⟨line,body⟩ :: statementsFrom (.atLine (line + 1)) rest := by
  have indentLine : '\n' ∉ indent := fun inside => by simpa using blank _ inside
  obtain ⟨c,more,rfl,visible⟩ := alone.first
  obtain ⟨oneLine,straight,noReturn,closed,-,last⟩ := alone
  have feed : c ≠ '\n' := fun same => oneLine (by simp [same])
  have slash : c ≠ '\\' := fun same => straight (by simp [same])
  have begins : (StatementScan.atLine line).push c =
      ⟨depthOver 0 [c],false,line,line,[c]⟩ := by
    simp [StatementScan.push,StatementScan.atLine,feed,slash,visible,depthOver]
  have scanned : (c :: more).foldl StatementScan.push (.atLine line) =
      ⟨0,false,line,line,more.reverse ++ [c]⟩ := by
    rw [List.foldl_cons,begins,StatementScan.pushAll_begun
      (fun inside => oneLine (List.mem_cons_of_mem c inside))
      (fun inside => straight (List.mem_cons_of_mem c inside)) _ (by simp) rfl]
    have depth : depthOver (depthOver 0 [c]) more = 0 := by simpa [depthOver] using closed
    rw [depth]
  rw [List.append_assoc,StatementScan.statementsFrom_append indentLine,
    StatementScan.pushAll_blank indentLine blank,StatementScan.statementsFrom_append oneLine,
    scanned]
  have trimmed : Text.trimRight (c :: more) = c :: more := by
    unfold Text.trimRight
    cases turned : (c :: more).reverse with
    | nil => simp at turned
    | cons d before =>
      have ends : (c :: more).getLast? = some d := by
        rw [← List.head?_reverse,turned]
        rfl
      rw [List.dropWhile_cons_of_neg (by simpa using last d ends),← turned,List.reverse_reverse]
  have ended : (⟨0,false,line,line,more.reverse ++ [c]⟩ : StatementScan).finish =
      [⟨line,c :: more⟩] := by
    simp [StatementScan.finish,joinLines_id straight oneLine noReturn,trimmed]
  rw [statementsFrom,if_pos (by rfl),ended]
  rfl

end PipelineAtlas.Script

import Mathlib.Data.List.TakeWhile
import PipelineAtlas.Proofs.Script.Standing

/-! Gaps in statements. A statement goes on over the lines that end inside its brackets or behind a
backslash, and on one line the gaps in it are white space. -/
namespace PipelineAtlas.Script

/-- White space in a source, and backslashes that join a line with the next one. -/
inductive Spacing : List Char → Prop
  | nothing : Spacing []
  | blank {c : Char} {s : List Char} (blank : Text.isBlank c = true) (more : Spacing s) : Spacing (c :: s)
  | joined {s : List Char} (more : Spacing s) : Spacing ('\\' :: '\n' :: s)
  | returned {s : List Char} (more : Spacing s) : Spacing ('\\' :: '\r' :: '\n' :: s)

def Blanks (s : List Char) : Prop := ∀ c ∈ s, Text.isBlank c = true

instance (s : List Char) : Decidable (Blanks s) := inferInstanceAs (Decidable (∀ _ ∈ s, _))

theorem Blanks.spacing {s : List Char} (blanks : Blanks s) : Spacing s := by
  induction s with
  | nil => exact .nothing
  | cons c s ih =>
    obtain ⟨blank,more⟩ := List.forall_mem_cons.mp blanks
    exact .blank blank (ih more)

/-- A text that neither begins nor ends with white space, and joins nothing to its end. -/
structure Tight (s : List Char) : Prop where
  some : s ≠ []
  first : ∀ c ∈ s.head?, Text.isBlank c = false
  last : ∀ c ∈ s.getLast?, c ≠ '\\' ∧ Text.isBlank c = false

theorem Tight.around {s t : List Char} (tight : Tight s) (x : List Char) (tight' : Tight t) :
    Tight (s ++ (x ++ t)) where
  some := by simp [tight.some]
  first c start := by
    rw [List.head?_append_of_ne_nil _ tight.some] at start
    exact tight.first c start
  last c stop := by
    rw [← List.append_assoc,List.getLast?_append_of_ne_nil _ tight'.some] at stop
    exact tight'.last c stop

theorem tight_of_solid {s : List Char} (solid : Solid s) : Tight s where
  some := solid.1
  first c start := (solid.2 c (List.mem_of_mem_head? start)).2
  last c stop := solid.2 c (List.mem_of_mem_getLast? stop)

theorem joinLines_tight {s : List Char} (tight : Tight s) (a b : List Char) :
    joinLines (a ++ (s ++ b)) = joinLines a ++ (joinLines s ++ joinLines b) := by
  rw [joinLines_append (.inr fun c start => ?_),joinLines_append (.inl fun c stop => ?_)]
  · have visible := visible_ne (tight.last c stop).2
    exact ⟨(tight.last c stop).1,visible.2.2⟩
  · rw [List.head?_append_of_ne_nil _ tight.some] at start
    exact (visible_ne (tight.first c start)).2

theorem joinLines_solid {s : List Char} (solid : Solid s) : joinLines s = s := by
  simpa [joinLines] using joinLines_around solid [] []

theorem joinLines_between {o c : Char} (solid : Solid [o]) (solid' : Solid [c]) (s : List Char) :
    joinLines (o :: (s ++ [c])) = o :: (joinLines s ++ [c]) := by
  have first := joinLines_around solid [] (s ++ [c])
  have last := joinLines_around solid' s []
  rw [List.append_nil] at last
  rw [last] at first
  simpa [joinLines] using first

theorem blanks_joinLines {s : List Char} (laid : Spacing s) : Blanks (joinLines s) := by
  have space : Text.isBlank ' ' = true := by decide
  induction laid with
  | nothing => simp [Blanks,joinLines]
  | @blank c s blank _ ih =>
    have other : c ≠ '\\' := by
      rintro rfl
      exact absurd blank (by decide)
    rw [joinLines_cons other]
    refine List.forall_mem_cons.mpr ⟨?_,ih⟩
    split
    · exact space
    · exact blank
  | joined _ ih =>
    rw [joinLines]
    exact List.forall_mem_cons.mpr ⟨space,ih⟩
  | returned _ ih =>
    rw [joinLines]
    exact List.forall_mem_cons.mpr ⟨space,ih⟩

theorem joinLines_at {c : Char} (solid : Solid [c]) (a b : List Char) :
    joinLines (a ++ c :: b) = joinLines a ++ c :: joinLines b := joinLines_around solid a b

/-- No line that ends within a text ends a statement: a bracket is open or a backslash comes last. -/
def GoesOn (s : List Char) : Prop := ∀ front back, s = front ++ '\n' :: back →
  0 < depthOver 0 front ∨ ['\\'] <:+ front ∨ ['\\','\r'] <:+ front

theorem goesOn_iff {s : List Char} : GoesOn s ↔ ∀ i < s.length, s[i]? = some '\n' →
    0 < depthOver 0 (s.take i) ∨ ['\\'] <:+ s.take i ∨ ['\\','\r'] <:+ s.take i := by
  constructor
  · intro goesOn i inside feed
    refine goesOn (s.take i) (s.drop (i + 1)) ?_
    rw [List.getElem?_eq_getElem inside,Option.some.injEq] at feed
    rw [← feed,← List.drop_eq_getElem_cons inside,List.take_append_drop]
  · rintro all front back rfl
    simpa using all front.length (by simp) (by simp)

instance (s : List Char) : Decidable (GoesOn s) := decidable_of_iff _ goesOn_iff.symm

namespace StatementScan

theorem depth_pushAll (scan : StatementScan) (s : List Char) :
    (s.foldl push scan).depth = depthOver scan.depth s := by
  induction s generalizing scan with
  | nil => rfl
  | cons c s ih => exact ih (scan.push c)

theorem continued_concat (scan : StatementScan) (s : List Char) {c : Char}
    (visible : Text.isBlank c = false) : ((s ++ [c]).foldl push scan).continued = (c == '\\') := by
  simp [push,visible]

theorem runsOver_of_goesOn {scan : StatementScan} (level : scan.depth = 0) {s : List Char}
    (goesOn : GoesOn s) : scan.runsOver s = true := by
  by_contra breaks
  obtain ⟨front,back,split,-,ends⟩ := split_of_not_runsOver (Bool.eq_false_iff.mpr breaks)
  simp only [endsAt,Bool.and_eq_true,beq_iff_eq,Bool.not_eq_true',beq_self_eq_true,true_and,
    depth_pushAll,level] at ends
  have slash : Text.isBlank '\\' = false := by decide
  have blank : Text.isBlank '\r' = true := by decide
  rcases goesOn front back split with deep | ⟨before,rfl⟩ | ⟨before,rfl⟩
  · omega
  · rw [continued_concat scan before slash] at ends
    simp at ends
  · have longer : before ++ ['\\','\r'] = (before ++ ['\\']) ++ ['\r'] := by simp
    rw [longer,List.foldl_append] at ends
    simp [push,slash,blank] at ends

theorem start_pushAll {scan : StatementScan} (begun : scan.begun ≠ []) (s : List Char) :
    (s.foldl push scan).start = scan.start := by
  induction s generalizing scan with
  | nil => rfl
  | cons c s ih =>
    have here : (scan.push c).begun = c :: scan.begun := by simp [push,begun]
    have start : (scan.push c).start = scan.start := by simp [push,begun]
    rw [List.foldl_cons,ih (by simp [here]),start]

theorem continued_spacing {s : List Char} (spacing : Spacing s) {scan : StatementScan}
    (apart : scan.continued = false) : (s.foldl push scan).continued = false := by
  have slash : Text.isBlank '\\' = false := by decide
  have blank : Text.isBlank '\r' = true := by decide
  induction spacing generalizing scan with
  | nothing => exact apart
  | @blank c s isBlank _ ih =>
    refine ih ?_
    by_cases feed : c = '\n'
    · simp [push,feed]
    · simp [push,feed,isBlank,apart]
  | joined _ ih => exact ih (by simp [push])
  | returned _ ih => exact ih (by simp [push])

end StatementScan

theorem depthOver_blanks {s : List Char} (blanks : Blanks s) (depth : Nat) :
    depthOver depth s = depth :=
  depthOver_level (fun c inside => StatementScan.notMem_brackets_of_isBlank (blanks c inside)) depth

theorem trimRight_joinLines {s tail : List Char} (tight : Tight s) (spacing : Spacing tail) :
    Text.trimRight (joinLines (s ++ tail)) = joinLines s := by
  obtain ⟨s,c,rfl⟩ := (List.eq_nil_or_concat s).resolve_left tight.some
  have solid : Solid [c] := by
    have last := tight.last c (by simp)
    exact ⟨by simp,by simpa using last⟩
  have nothing : Text.trimRight (joinLines tail) = [] := by
    rw [Text.trimRight,List.reverse_eq_nil_iff,List.dropWhile_eq_nil_iff]
    exact fun d inside => blanks_joinLines spacing d (List.mem_reverse.mp inside)
  have whole := joinLines_around solid s []
  rw [List.append_nil] at whole
  rw [List.concat_eq_append,List.append_assoc,joinLines_around solid,trimRight_around solid,nothing,
    whole]
  rfl

theorem StatementScan.pushAll_tight {scan : StatementScan} (empty : scan.begun = [])
    {s tail : List Char} (tight : Tight s) (spacing : Spacing tail) :
    ((s ++ tail).foldl push scan).begun = (s ++ tail).reverse ∧
      ((s ++ tail).foldl push scan).start = scan.line ∧
      ((s ++ tail).foldl push scan).continued = false := by
  refine ⟨?_,?_,?_⟩
  · obtain ⟨c,rest,rfl⟩ := List.exists_cons_of_ne_nil tight.some
    have here : (scan.push c).begun = [c] := by simp [push,empty,tight.first c rfl]
    rw [List.cons_append,List.foldl_cons,begun_pushAll (by simp [here]),here]
    simp
  · obtain ⟨c,rest,rfl⟩ := List.exists_cons_of_ne_nil tight.some
    have here : (scan.push c).begun = [c] := by simp [push,empty,tight.first c rfl]
    rw [List.cons_append,List.foldl_cons,start_pushAll (by simp [here])]
    simp [push,empty]
  · obtain ⟨s,c,rfl⟩ := (List.eq_nil_or_concat s).resolve_left tight.some
    obtain ⟨noSlash,visible⟩ := tight.last c (by simp)
    rw [List.concat_eq_append,List.foldl_append]
    refine continued_spacing spacing ?_
    rw [continued_concat scan s visible]
    simpa using noSlash

/-- No statement is begun at the end of a text. -/
def Complete (front : List Char) : Prop := ((StatementScan.atLine 1).past front).begun = []

instance (front : List Char) : Decidable (Complete front) := inferInstanceAs (Decidable (_ = _))

/-- Behind complete statements, a text that is balanced and goes on over its lines is a statement. -/
theorem statements_between {front s tail behind : List Char} (complete : Complete front)
    (tight : Tight s) (spacing : Spacing tail) (goesOn : GoesOn (s ++ tail)) (level : depthOver 0 s = 0)
    (ends : AtLineEnd behind) : ∃ after, statements (front ++ (s ++ (tail ++ behind))) =
      statements front ++ ⟨1 + front.count '\n',joinLines s⟩ :: after := by
  obtain ⟨before,given⟩ := statementsFrom_past (.atLine 1) front
  have reached := reached_past front
  unfold Complete at complete
  generalize (StatementScan.atLine 1).past front = scan at complete reached given
  obtain ⟨depth,-⟩ := reached.fresh complete
  have inFront : statements front = before := by
    have nothing := given []
    rw [List.append_nil] at nothing
    rw [statements,nothing,statementsFrom,StatementScan.finish,complete]
    simp
  obtain ⟨begun,start,apart⟩ := StatementScan.pushAll_tight complete tight spacing
  have closed : ((s ++ tail).foldl StatementScan.push scan).depth = 0 := by
    have blanks := depthOver_joinLines 0 tail
    rw [depthOver_blanks (blanks_joinLines spacing)] at blanks
    rw [StatementScan.depth_pushAll,depth,depthOver_append,level,← blanks]
  have runs := StatementScan.runsOver_of_goesOn depth goesOn
  have whole := StatementScan.statementsFrom_runsOver runs behind
  generalize (s ++ tail).foldl StatementScan.push scan = scan' at begun start apart closed whole
  have finished : scan'.finish = [⟨1 + front.count '\n',joinLines s⟩] := by
    rw [StatementScan.finish_begun (by simp [begun,tight.some]),start,reached.line,begun,
      List.reverse_reverse,trimRight_joinLines tight spacing]
  rw [← List.append_assoc s,statements,given,inFront,whole]
  rcases ends with rfl | feed
  · exact ⟨[],by rw [statementsFrom,finished]⟩
  · cases behind with
    | nil => simp at feed
    | cons c rest =>
      obtain rfl : c = '\n' := by simpa using feed
      have stops : scan'.endsAt '\n' = true := by simp [StatementScan.endsAt,closed,apart]
      exact ⟨_,by rw [statementsFrom,if_pos stops,finished]; rfl⟩

end PipelineAtlas.Script

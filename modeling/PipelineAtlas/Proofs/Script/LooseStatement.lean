import PipelineAtlas.Proofs.Script.Loose
import PipelineAtlas.Script.Statement

/-! Statements of texts that differ in the lengths of gaps and in the indents of lines only. -/
namespace PipelineAtlas.Script

abbrev blanks (n : Nat) : List Char := List.replicate n ' '

/-- Equal but for the lengths of gaps and the blanks at the start of lines. -/
inductive Gapped : List Char → List Char → Prop
  | nil : Gapped [] []
  | cons (c : Char) {s t : List Char} (rest : Gapped s t) : Gapped (c :: s) (c :: t)
  | gap (m n : Nat) {s t : List Char} (rest : Gapped s t) :
      Gapped (blanks (m + 1) ++ s) (blanks (n + 1) ++ t)
  | feed (m n : Nat) {s t : List Char} (rest : Gapped s t) :
      Gapped ('\n' :: (blanks m ++ s)) ('\n' :: (blanks n ++ t))

namespace Gapped

variable {s t : List Char}

theorem refl (s : List Char) : Gapped s s := by
  induction s with
  | nil => exact .nil
  | cons c s ih => exact .cons c ih

theorem symm (gapped : Gapped s t) : Gapped t s := by
  induction gapped with
  | nil => exact .nil
  | cons c _ ih => exact .cons c ih
  | gap m n _ ih => exact .gap n m ih
  | feed m n _ ih => exact .feed n m ih

theorem append (gapped : Gapped s t) {s' t' : List Char} (more : Gapped s' t') :
    Gapped (s ++ s') (t ++ t') := by
  induction gapped with
  | nil => exact more
  | cons c _ ih => exact .cons c ih
  | gap m n _ ih =>
    rw [List.append_assoc,List.append_assoc]
    exact .gap m n ih
  | feed m n _ ih =>
    rw [List.cons_append,List.cons_append,List.append_assoc,List.append_assoc]
    exact .feed m n ih

theorem nil_iff (gapped : Gapped s t) : s = [] ↔ t = [] := by
  cases gapped <;> simp [List.replicate_succ]

theorem cons_inv {c : Char} (gapped : Gapped (c :: s) t) (visible : c ≠ ' ') (stays : c ≠ '\n') :
    ∃ t', t = c :: t' ∧ Gapped s t' := by
  generalize begins : c :: s = whole at gapped
  cases gapped with
  | nil => cases begins
  | cons d rest =>
    cases begins
    exact ⟨_,rfl,rest⟩
  | gap m n rest =>
    rw [blanks,List.replicate_succ,List.cons_append] at begins
    exact absurd (List.cons.inj begins).1 visible
  | feed m n rest => exact absurd (List.cons.inj begins).1 stays

theorem feed_inv (gapped : Gapped ('\n' :: s) t) :
    ∃ m n s' t', s = blanks m ++ s' ∧ t = '\n' :: (blanks n ++ t') ∧ Gapped s' t' := by
  generalize begins : '\n' :: s = whole at gapped
  cases gapped with
  | nil => cases begins
  | cons d rest =>
    cases begins
    exact ⟨0,0,_,_,rfl,rfl,rest⟩
  | gap m n rest =>
    rw [blanks,List.replicate_succ,List.cons_append] at begins
    exact absurd (List.cons.inj begins).1 (by decide)
  | feed m n rest =>
    cases begins
    exact ⟨m,n,_,_,rfl,rfl,rest⟩

end Gapped

theorem joinLines_cons {c : Char} (other : c ≠ '\\') (s : List Char) :
    joinLines (c :: s) = (if c = '\r' ∨ c = '\n' then ' ' else c) :: joinLines s := by
  rw [joinLines]
  · rintro _ rfl
    exact absurd rfl other
  · rintro _ rfl
    exact absurd rfl other

theorem joinLines_blanks (n : Nat) (s : List Char) :
    joinLines (blanks n ++ s) = blanks n ++ joinLines s := by
  induction n with
  | zero => rfl
  | succ n ih =>
    rw [blanks,List.replicate_succ,List.cons_append,joinLines_cons (by decide),ih]
    rfl

/-- Whether a backslash in front of a text joins two lines. -/
def Joins (s : List Char) : Prop := ∃ r, s = '\n' :: r ∨ s = '\r' :: '\n' :: r

theorem joinLines_backslash {s : List Char} (apart : ¬ Joins s) :
    joinLines ('\\' :: s) = '\\' :: joinLines s := by
  rw [joinLines]
  · simp
  · rintro r _ rfl
    exact apart ⟨r,.inr rfl⟩
  · rintro r _ rfl
    exact apart ⟨r,.inl rfl⟩

private theorem Gapped.joins {s t : List Char} (gapped : Gapped s t) (joins : Joins s) :
    Joins t := by
  obtain ⟨r,rfl | rfl⟩ := joins
  · obtain ⟨_,_,_,_,-,rfl,-⟩ := gapped.feed_inv
    exact ⟨_,.inl rfl⟩
  · obtain ⟨_,rfl,behind⟩ := gapped.cons_inv (by decide) (by decide)
    obtain ⟨_,_,_,_,-,rfl,-⟩ := behind.feed_inv
    exact ⟨_,.inr rfl⟩

theorem joinLines_gapped {s t : List Char} (gapped : Gapped s t) :
    Loose ' ' (joinLines s) (joinLines t) := by
  -- a backslash takes a line feed along, so the induction is on the length
  induction bound : s.length using Nat.strongRecOn generalizing s t with
  | _ size ih =>
  have feed {m n : Nat} {s' t' : List Char} (rest : Gapped s' t') (less : s'.length < size) :
      Loose ' ' (' ' :: joinLines (blanks m ++ s')) (' ' :: joinLines (blanks n ++ t')) := by
    rw [joinLines_blanks,joinLines_blanks]
    exact .gap m n (ih _ less rest rfl)
  cases gapped with
  | nil => exact .nil
  | gap m n rest =>
    rw [joinLines_blanks,joinLines_blanks]
    exact .gap m n (ih _ (by simp at bound; omega) rest rfl)
  | feed m n rest =>
    rw [joinLines_cons (by decide),joinLines_cons (by decide)]
    exact feed rest (by simp at bound; omega)
  | @cons c s t rest =>
    by_cases slash : c = '\\'
    · subst slash
      by_cases joins : Joins s
      · obtain ⟨r,rfl | rfl⟩ := joins
        · obtain ⟨m,n,s',t',rfl,rfl,inner⟩ := rest.feed_inv
          rw [joinLines,joinLines]
          exact feed inner (by simp at bound; omega)
        · obtain ⟨_,rfl,behind⟩ := rest.cons_inv (by decide) (by decide)
          obtain ⟨m,n,s',t',rfl,rfl,inner⟩ := behind.feed_inv
          rw [joinLines,joinLines]
          exact feed inner (by simp at bound; omega)
      · rw [joinLines_backslash joins,joinLines_backslash fun other => joins (rest.symm.joins other)]
        exact .cons '\\' (ih _ (by simp at bound; omega) rest rfl)
    · rw [joinLines_cons slash,joinLines_cons slash]
      exact .cons _ (ih _ (by simp at bound; omega) rest rfl)

theorem mem_joinLines {s : List Char} {c : Char} (inside : c ∈ joinLines s) : c = ' ' ∨ c ∈ s := by
  fun_induction joinLines s with
  | case1 cs ih =>
    rcases List.mem_cons.mp inside with rfl | inside
    · exact .inl rfl
    · exact (ih inside).imp id fun more => by simp [more]
  | case2 cs ih =>
    rcases List.mem_cons.mp inside with rfl | inside
    · exact .inl rfl
    · exact (ih inside).imp id fun more => by simp [more]
  | case3 d cs _ _ ih =>
    rcases List.mem_cons.mp inside with same | inside
    · split at same
      · exact .inl same
      · exact .inr (by simp [same])
    · exact (ih inside).imp id fun more => by simp [more]
  | case4 => simp at inside

namespace StatementScan

variable {a b : StatementScan}

/-- Scans that have met the same but for gaps and indents. -/
structure Near (a b : StatementScan) : Prop where
  depth : a.depth = b.depth
  continued : a.continued = b.continued
  line : a.line = b.line
  start : a.begun ≠ [] → a.start = b.start
  begun : Gapped a.begun.reverse b.begun.reverse

theorem Near.atLine (line : Nat) : Near (atLine line) (atLine line) :=
  ⟨rfl,rfl,rfl,fun _ => rfl,.nil⟩

theorem Near.isEmpty_eq (near : Near a b) : a.begun.isEmpty = b.begun.isEmpty := by
  have same := near.begun.nil_iff
  rw [List.reverse_eq_nil_iff,List.reverse_eq_nil_iff] at same
  rw [Bool.eq_iff_iff,List.isEmpty_iff,List.isEmpty_iff,same]

theorem Near.endsAt_eq (near : Near a b) (c : Char) : a.endsAt c = b.endsAt c := by
  simp only [endsAt,near.depth,near.continued]

theorem Near.push (near : Near a b) (c : Char) : Near (a.push c) (b.push c) := by
  have empty := near.isEmpty_eq
  refine ⟨?_,?_,?_,?_,?_⟩
  · simp only [StatementScan.push,near.depth]
  · simp only [StatementScan.push,near.continued]
  · simp only [StatementScan.push,near.line]
  · intro _
    simp only [StatementScan.push,← empty,near.line]
    split
    · rfl
    next some => exact near.start (by simpa using some)
  · simp only [StatementScan.push,← empty]
    split
    · exact .nil
    · rw [List.reverse_cons,List.reverse_cons]
      exact near.begun.append (.refl [c])

theorem steps_blanks (a : StatementScan) (n : Nat) :
    ∃ a', (∀ cs, statementsFrom a (blanks n ++ cs) = statementsFrom a' cs) ∧
      a'.depth = a.depth ∧ a'.continued = a.continued ∧ a'.line = a.line ∧
      (a.begun = [] → a'.begun = []) ∧
      (a.begun ≠ [] → a'.start = a.start ∧ a'.begun = blanks n ++ a.begun) := by
  induction n generalizing a with
  | zero => exact ⟨a,fun _ => rfl,rfl,rfl,rfl,id,fun _ => ⟨rfl,rfl⟩⟩
  | succ n ih =>
    obtain ⟨a',steps,depth,continued,line,empty,begun⟩ := ih (a.push ' ')
    have blank : Text.isBlank ' ' = true := by decide
    refine ⟨a',fun cs => ?_,depth,?_,line,fun none => ?_,fun some => ?_⟩
    · rw [← steps,blanks,List.replicate_succ,List.cons_append,statementsFrom]
      simp [endsAt]
    · rw [continued]
      simp [StatementScan.push,blank]
    · exact empty (by simp [StatementScan.push,none,blank])
    · have kept : (a.push ' ').begun = ' ' :: a.begun := by simp [StatementScan.push,some]
      obtain ⟨start,same⟩ := begun (by simp [kept])
      refine ⟨?_,?_⟩
      · rw [start]
        simp [StatementScan.push,some]
      · rw [same,kept]
        simp [blanks,List.replicate_succ']

theorem near_blanks (depth : a.depth = b.depth) (continued : a.continued = b.continued)
    (line : a.line = b.line) (start : a.begun ≠ [] → a.start = b.start)
    (empty : a.begun = [] ↔ b.begun = []) {m n : Nat}
    (begun : a.begun ≠ [] →
      Gapped (a.begun.reverse ++ blanks m) (b.begun.reverse ++ blanks n)) :
    ∃ a' b', Near a' b' ∧ (∀ cs, statementsFrom a (blanks m ++ cs) = statementsFrom a' cs) ∧
      ∀ cs, statementsFrom b (blanks n ++ cs) = statementsFrom b' cs := by
  obtain ⟨a',stepsA,depthA,continuedA,lineA,emptyA,begunA⟩ := steps_blanks a m
  obtain ⟨b',stepsB,depthB,continuedB,lineB,emptyB,begunB⟩ := steps_blanks b n
  refine ⟨a',b',⟨?_,?_,?_,?_,?_⟩,stepsA,stepsB⟩
  · rw [depthA,depthB,depth]
  · rw [continuedA,continuedB,continued]
  · rw [lineA,lineB,line]
  · intro some
    have someA : a.begun ≠ [] := fun none => some (emptyA none)
    rw [(begunA someA).1,(begunB fun none => someA (empty.mpr none)).1,start someA]
  · by_cases none : a.begun = []
    · rw [emptyA none,emptyB (empty.mp none)]
      exact .nil
    · rw [(begunA none).2,(begunB fun other => none (empty.mpr other)).2,List.reverse_append,
        List.reverse_append,blanks,blanks,List.reverse_replicate,List.reverse_replicate]
      exact begun none

theorem near_feed (near : Near a b) (m n : Nat) :
    ∃ a' b', Near a' b' ∧
      (∀ cs, statementsFrom (a.push '\n') (blanks m ++ cs) = statementsFrom a' cs) ∧
      ∀ cs, statementsFrom (b.push '\n') (blanks n ++ cs) = statementsFrom b' cs := by
  have pushed := near.push '\n'
  have same := pushed.begun.nil_iff
  rw [List.reverse_eq_nil_iff,List.reverse_eq_nil_iff] at same
  refine near_blanks pushed.depth pushed.continued pushed.line pushed.start same fun some => ?_
  have someA : a.begun ≠ [] := by
    intro none
    have blank : Text.isBlank '\n' = true := by decide
    simp [StatementScan.push,none,blank] at some
  have someB : b.begun ≠ [] := by
    intro none
    exact someA (by simpa [none] using near.isEmpty_eq)
  have indent := near.begun.append (Gapped.feed m n .nil)
  simpa [StatementScan.push,someA,someB] using indent

end StatementScan

/-- Statements on the same line that differ in the lengths of gaps only. -/
def Statement.Alike (x y : Statement) : Prop := x.line = y.line ∧ Loose ' ' x.text y.text

theorem StatementScan.Near.finish {a b : StatementScan} (near : Near a b) :
    List.Forall₂ Statement.Alike a.finish b.finish := by
  simp only [StatementScan.finish,← near.isEmpty_eq]
  split
  · exact .nil
  next some =>
    have joined := joinLines_gapped near.begun
    have trimmed := (joined.reverse.dropWhile Text.isBlank).reverse
    exact .cons ⟨near.start (by simpa using some),trimmed⟩ .nil

/-- Gaps and indents change neither the number of the statements nor their lines. -/
theorem statementsFrom_gapped {s t : List Char} (gapped : Gapped s t) {a b : StatementScan}
    (near : StatementScan.Near a b) :
    List.Forall₂ Statement.Alike (statementsFrom a s) (statementsFrom b t) := by
  induction gapped generalizing a b with
  | nil => exact near.finish
  | cons c _ ih =>
    simp only [statementsFrom,← near.endsAt_eq,near.line]
    split
    · exact List.rel_append near.finish (ih (.atLine _))
    · exact ih (near.push c)
  | gap m n _ ih =>
    obtain ⟨a',b',near',stepsA,stepsB⟩ := StatementScan.near_blanks near.depth near.continued
      near.line near.start (by simpa using near.begun.nil_iff)
      fun _ => near.begun.append (by simpa using Gapped.gap m n .nil)
    rw [stepsA,stepsB]
    exact ih near'
  | feed m n _ ih =>
    simp only [statementsFrom,← near.endsAt_eq,near.line]
    split
    · obtain ⟨a',b',near',stepsA,stepsB⟩ := StatementScan.near_blanks
        (a := .atLine (b.line + 1)) (b := .atLine (b.line + 1)) rfl rfl rfl (fun _ => rfl) Iff.rfl
        (m := m) (n := n) (fun some => absurd rfl some)
      rw [stepsA,stepsB]
      exact List.rel_append near.finish (ih near')
    · obtain ⟨a',b',near',stepsA,stepsB⟩ := StatementScan.near_feed near m n
      rw [stepsA,stepsB]
      exact ih near'

theorem mem_statementsFrom {a : StatementScan} {s : List Char} {x : Statement}
    (member : x ∈ statementsFrom a s) {c : Char} (inside : c ∈ x.text) :
    c = ' ' ∨ c ∈ a.begun ∨ c ∈ s := by
  have finished : ∀ {a : StatementScan}, x ∈ a.finish → c = ' ' ∨ c ∈ a.begun := by
    intro a member
    simp only [StatementScan.finish] at member
    split at member
    · simp at member
    · obtain rfl := List.mem_singleton.mp member
      have trimmed : c ∈ joinLines a.begun.reverse := by
        have dropped := List.mem_reverse.mp inside
        exact List.mem_reverse.mp ((List.dropWhile_sublist _).mem dropped)
      exact (mem_joinLines trimmed).imp id List.mem_reverse.mp
  induction s generalizing a with
  | nil =>
    rcases finished member with blank | begun
    · exact .inl blank
    · exact .inr (.inl begun)
  | cons d s ih =>
    simp only [statementsFrom] at member
    split at member
    · rcases List.mem_append.mp member with first | later
      · rcases finished first with blank | begun
        · exact .inl blank
        · exact .inr (.inl begun)
      · rcases ih later with blank | begun | more
        · exact .inl blank
        · simp [StatementScan.atLine] at begun
        · exact .inr (.inr (List.mem_cons_of_mem d more))
    · rcases ih member with blank | begun | more
      · exact .inl blank
      · have kept : c ∈ d :: a.begun := by
          simp only [StatementScan.push] at begun
          split at begun
          · simp at begun
          · exact begun
        rcases List.mem_cons.mp kept with rfl | before
        · exact .inr (.inr List.mem_cons_self)
        · exact .inr (.inl before)
      · exact .inr (.inr (List.mem_cons_of_mem d more))

end PipelineAtlas.Script

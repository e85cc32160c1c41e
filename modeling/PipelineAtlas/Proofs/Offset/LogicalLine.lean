import PipelineAtlas.Proofs.Offset.Statement

/-! A text without quotes against its statements. It is cut into stretches, each of which is one statement
or blank, and all that is seen of it but the backslashes that join lines comes back in order. -/
namespace PipelineAtlas.Offset

open Script
open String (utf8Len)

/-- What is left of a text without white space and without the backslashes in front of line breaks. -/
def ink : List Char → List Char
  | [] => []
  | c :: s =>
    if Text.isBlank c || c == '\\' && (['\n'].isPrefixOf s || ['\r','\n'].isPrefixOf s) then ink s
    else c :: ink s

/-- What is left of a text without white space. -/
def seen (s : List Char) : List Char := s.filter fun c => !Text.isBlank c

theorem seen_joinLines (s : List Char) : seen (joinLines s) = ink s := by
  have blanks : Text.isBlank ' ' = true ∧ Text.isBlank '\r' = true ∧ Text.isBlank '\n' = true ∧
    Text.isBlank '\\' = false := by decide
  fun_induction joinLines s with
  | case1 s ih => simpa [seen,ink,blanks,List.isPrefixOf] using ih
  | case2 s ih => simpa [seen,ink,blanks,List.isPrefixOf] using ih
  | case3 c s returns feeds ih =>
    by_cases blank : Text.isBlank c = true
    · have gone : Text.isBlank (if c = '\r' ∨ c = '\n' then ' ' else c) = true := by
        split
        · exact blanks.1
        · exact blank
      simpa [seen,ink,blank,gone] using ih
    · have visible : Text.isBlank c = false := by simpa using blank
      have kept : ¬ (c = '\r' ∨ c = '\n') := not_or.mpr ⟨(visible_ne visible).2.2,(visible_ne visible).2.1⟩
      have apart : (c == '\\' && (['\n'].isPrefixOf s || ['\r','\n'].isPrefixOf s)) = false := by
        rw [← Bool.not_eq_true]
        intro joins
        simp only [Bool.and_eq_true,Bool.or_eq_true,beq_iff_eq,List.isPrefixOf_iff_prefix] at joins
        obtain ⟨slash,⟨rest,feed⟩ | ⟨rest,feed⟩⟩ := joins
        · exact feeds rest slash feed.symm
        · exact returns rest slash feed.symm
      rw [ink,apart,if_neg kept]
      simpa [seen,visible] using ih
  | case4 => rfl

theorem seen_append (s t : List Char) : seen (s ++ t) = seen s ++ seen t := List.filter_append ..

theorem seen_blanks {s : List Char} (blank : Blanks s) : seen s = [] := by
  rw [seen,List.filter_eq_nil_iff]
  intro c inside
  simp [blank c inside]

theorem seen_trimRight (s : List Char) : seen (Text.trimRight s) = seen s := by
  obtain ⟨blanks,split,blank⟩ := Text.exists_trimRight s
  rw [split,seen_append,seen_blanks blank,List.append_nil,← split]

theorem ink_indent {indent : List Char} (blank : Blanks indent) (s : List Char) :
    ink (indent ++ s) = ink s := by
  induction indent with
  | nil => rfl
  | cons c indent ih =>
    obtain ⟨here,later⟩ := List.forall_mem_cons.mp blank
    rw [List.cons_append,ink,here]
    exact ih later

theorem ink_feed {s : List Char} (straight : ¬ ['\\'] <:+ s) (straight' : ¬ ['\\','\r'] <:+ s)
    (t : List Char) : ink (s ++ '\n' :: t) = ink s ++ ink t := by
  induction s with
  | nil =>
    have blank : Text.isBlank '\n' = true := by decide
    simp [ink,blank]
  | cons c s ih =>
    have more := ih (fun last => straight (last.trans (List.suffix_cons c s)))
      (fun last => straight' (last.trans (List.suffix_cons c s)))
    -- whether a line break follows a backslash is decided within the text
    have alike : (c == '\\' && (['\n'].isPrefixOf (s ++ '\n' :: t) ||
        ['\r','\n'].isPrefixOf (s ++ '\n' :: t))) =
          (c == '\\' && (['\n'].isPrefixOf s || ['\r','\n'].isPrefixOf s)) := by
      by_cases slash : c = '\\'
      · subst slash
        match s with
        | [] => exact absurd (List.suffix_refl _) straight
        | [d] =>
          have other : d ≠ '\r' := by
            rintro rfl
            exact straight' (List.suffix_refl _)
          simp [List.isPrefixOf,Ne.symm other]
        | d :: e :: s => simp [List.isPrefixOf]
      · have other : (c == '\\') = false := by simpa using slash
        rw [other]
        rfl
    rw [List.cons_append,ink,ink,alike,more]
    split <;> rfl

theorem lineBreak_notMem_joinLines (s : List Char) : '\r' ∉ joinLines s ∧ '\n' ∉ joinLines s := by
  fun_induction joinLines s with
  | case1 s ih => simpa using ih
  | case2 s ih => simpa using ih
  | case3 c s _ _ ih =>
    simp only [List.mem_cons,not_or]
    refine ⟨⟨?_,ih.1⟩,⟨?_,ih.2⟩⟩ <;> split <;> simp_all [eq_comm]
  | case4 => simp

/-- The last character that is seen on the line at hand. -/
def lastSeen (front : List Char) : Option Char :=
  (front.reverse.takeWhile fun c => c != '\n').find? fun c => !Text.isBlank c

/-- A line feed behind the text ends a statement: no bracket is open, and what is seen last on the line is
no backslash. -/
def Ends (front : List Char) : Prop := depthOver 0 front = 0 ∧ lastSeen front ≠ some '\\'

theorem lastSeen_concat (s : List Char) (c : Char) : lastSeen (s ++ [c]) =
    if c = '\n' then none else if Text.isBlank c then lastSeen s else some c := by
  rw [lastSeen,List.reverse_append,List.reverse_singleton,List.singleton_append,List.takeWhile_cons]
  by_cases feed : c = '\n'
  · simp [feed]
  · by_cases blank : Text.isBlank c = true
    · simp [feed,blank,lastSeen]
    · simp [feed,blank]

theorem Ends.straight {front stretch : List Char} (ends : Ends (front ++ stretch)) :
    ¬ ['\\'] <:+ stretch ∧ ¬ ['\\','\r'] <:+ stretch := by
  have slash : Text.isBlank '\\' = false := by decide
  have back : Text.isBlank '\r' = true := by decide
  constructor
  · rintro ⟨s,rfl⟩
    refine ends.2 ?_
    rw [← List.append_assoc,lastSeen_concat]
    simp [slash]
  · rintro ⟨s,rfl⟩
    have split : front ++ (s ++ ['\\','\r']) = front ++ s ++ ['\\'] ++ ['\r'] := by simp
    refine ends.2 ?_
    rw [split,lastSeen_concat,lastSeen_concat]
    simp [slash,back]

/-- The statement of a stretch behind some text, on the line of the first character that is seen of it (a
backslash that joins lines, too), and none if the stretch is blank. -/
inductive Given (front : List Char) : List Char → List Statement → Prop
  | none {stretch : List Char} (blank : Blanks stretch) : Given front stretch []
  | one {indent rest : List Char} {c : Char} (blank : Blanks indent) (visible : Text.isBlank c = false) :
      Given front (indent ++ c :: rest)
        [⟨(front ++ indent).count '\n' + 1,Text.trimRight (joinLines (c :: rest))⟩]

/-- No line feed in a stretch ends a statement. -/
def GoesOver (front stretch : List Char) : Prop :=
  ∀ a b, stretch = a ++ '\n' :: b → ¬ Ends (front ++ a)

/-- A text behind another, cut into stretches at exactly the line feeds that end statements, and the
statements of the stretches. -/
inductive Stretches : List Char → List Char → List Statement → Prop
  | last {front stretch : List Char} {own : List Statement} (onward : GoesOver front stretch)
      (given : Given front stretch own) : Stretches front stretch own
  | more {front stretch rest : List Char} {own others : List Statement} (onward : GoesOver front stretch)
      (ends : Ends (front ++ stretch)) (given : Given front stretch own)
      (later : Stretches (front ++ stretch ++ ['\n']) rest others) :
      Stretches front (stretch ++ '\n' :: rest) (own ++ others)

namespace Given

variable {front stretch : List Char} {own : List Statement} (given : Given front stretch own)

include given

theorem seen_eq : own.flatMap (fun s => seen s.text) = ink stretch := by
  cases given with
  | none blank =>
    have nothing := ink_indent blank []
    rw [List.append_nil] at nothing
    exact nothing.symm
  | one blank visible =>
    rw [List.flatMap_singleton,seen_trimRight,seen_joinLines,ink_indent blank]

theorem unbroken : ∀ s ∈ own, '\r' ∉ s.text ∧ '\n' ∉ s.text := by
  cases given with
  | none => simp
  | @one indent rest c =>
    obtain ⟨noReturn,noFeed⟩ := lineBreak_notMem_joinLines (c :: rest)
    obtain ⟨blanks,split,-⟩ := Text.exists_trimRight (joinLines (c :: rest))
    rw [split] at noReturn noFeed
    refine List.forall_mem_singleton.mpr ⟨fun inside => ?_,fun inside => ?_⟩
    · exact noReturn (List.mem_append_left _ inside)
    · exact noFeed (List.mem_append_left _ inside)

theorem line_bounds : ∀ s ∈ own, front.count '\n' < s.line ∧
    s.line ≤ (front ++ stretch).count '\n' + 1 := by
  cases given with
  | none => simp
  | one =>
    refine List.forall_mem_singleton.mpr ?_
    simp only [List.count_append]
    omega

theorem pairwise : own.Pairwise fun s t => s.line < t.line := by
  cases given with
  | none => exact .nil
  | one => exact List.pairwise_singleton _ _

end Given

namespace Stretches

variable {front s : List Char} {given : List Statement} (stretches : Stretches front s given)

include stretches

theorem seen_eq : given.flatMap (fun st => seen st.text) = ink s := by
  induction stretches with
  | last _ given => exact given.seen_eq
  | more _ ends given _ ih =>
    obtain ⟨straight,straight'⟩ := ends.straight
    rw [List.flatMap_append,given.seen_eq,ih,ink_feed straight straight']

theorem unbroken : ∀ st ∈ given, '\r' ∉ st.text ∧ '\n' ∉ st.text := by
  induction stretches with
  | last _ given => exact given.unbroken
  | more _ _ given _ ih => exact List.forall_mem_append.mpr ⟨given.unbroken,ih⟩

theorem line_lt : ∀ st ∈ given, front.count '\n' < st.line := by
  induction stretches with
  | last _ given => exact fun st inside => (given.line_bounds st inside).1
  | more _ _ given _ ih =>
    refine List.forall_mem_append.mpr
      ⟨fun st inside => (given.line_bounds st inside).1,fun st inside => ?_⟩
    have behind := ih st inside
    simp only [List.count_append] at behind
    omega

theorem pairwise : given.Pairwise fun st st' => st.line < st'.line := by
  induction stretches with
  | last _ given => exact given.pairwise
  | more _ _ given later ih =>
    refine List.pairwise_append.mpr ⟨given.pairwise,ih,fun st here st' there => ?_⟩
    have above := (given.line_bounds st here).2
    have below := later.line_lt st' there
    rw [List.count_append,List.count_singleton_self] at below
    omega

end Stretches

/-- What a scan by offsets remembers of all the text in front of it. -/
structure Remembers (done : List Char) (s : LineScan) : Prop where
  depth : s.depth = depthOver 0 done
  continued : s.continued = true ↔ lastSeen done = some '\\'

theorem Remembers.ends_iff {done : List Char} {s : LineScan} (remembers : Remembers done s) :
    s.depth = 0 ∧ s.continued = false ↔ Ends done := by
  rw [Ends,remembers.depth,← Bool.not_eq_true,remembers.continued]

theorem Remembers.next {done : List Char} (ends : Ends done) (start : Nat) (out : List Statement) :
    Remembers (done ++ ['\n']) ⟨0,false,start,out⟩ where
  depth := by
    rw [depthOver_append,ends.1]
    rfl
  continued := by simp [lastSeen_concat]

theorem Remembers.push {done : List Char} {s : LineScan} (remembers : Remembers done s) (c : Char) :
    Remembers (done ++ [c])
      { s with
        depth := depthPast c s.depth
        continued := if c = '\n' ∨ Text.isBlank c = false then c == '\\' else s.continued } where
  depth := by
    rw [depthOver_append,remembers.depth]
    simp [depthPast,opensBracket,closesBracket,depthOver,or_assoc]
  continued := by
    rw [lastSeen_concat]
    by_cases feed : c = '\n'
    · simp [feed]
    · by_cases blank : Text.isBlank c = true
      · simp [feed,blank,remembers.continued]
      · simp [feed,blank]

theorem Follows.given {front begun : List Char} {s : LineScan} {scan : StatementScan}
    (follows : Follows front begun s scan) : Given front begun scan.finish := by
  obtain ⟨indent,split,blank,visible⟩ := follows.split
  by_cases empty : scan.begun = []
  · have nothing : scan.finish = [] := by simp [StatementScan.finish,empty]
    rw [nothing,split,empty]
    rw [List.reverse_nil,List.append_nil]
    exact .none blank
  · obtain ⟨start,first⟩ := visible empty
    obtain ⟨c,rest,turned⟩ := List.exists_cons_of_ne_nil (List.reverse_ne_nil_iff.mpr empty)
    have seen : Text.isBlank c = false := first c (by rw [← List.head?_reverse,turned]; rfl)
    rw [StatementScan.finish_begun empty,start,split,turned]
    exact .one blank seen

theorem GoesOver.push {front begun : List Char} {c : Char} (onward : GoesOver front begun)
    (stays : c = '\n' → ¬ Ends (front ++ begun)) : GoesOver front (begun ++ [c]) := by
  intro a b split
  rcases List.eq_nil_or_concat b with rfl | ⟨b,d,rfl⟩
  · obtain ⟨rfl,last⟩ := List.append_inj' split rfl
    exact stays (List.cons.inj last).1
  · rw [List.concat_eq_append,← List.cons_append,← List.append_assoc] at split
    exact onward a b (List.append_inj' split rfl).1

/-- The statements of a text are those of its stretches. -/
theorem stretches_statementsFrom {front begun : List Char} {s : LineScan} {scan : StatementScan}
    (follows : Follows front begun s scan) (remembers : Remembers (front ++ begun) s)
    (onward : GoesOver front begun) (rest : List Char) :
    Stretches front (begun ++ rest) (statementsFrom scan rest) := by
  induction rest generalizing front begun s scan with
  | nil =>
    rw [List.append_nil]
    exact .last onward follows.given
  | cons c rest ih =>
    have atEnd : scan.endsAt c = true ↔ c = '\n' ∧ Ends (front ++ begun) := by
      rw [← remembers.ends_iff,StatementScan.endsAt,follows.depth,follows.continued]
      simp [and_assoc]
    rw [statementsFrom]
    by_cases ends : scan.endsAt c = true
    · obtain ⟨rfl,ended⟩ := atEnd.mp ends
      have fresh : GoesOver (front ++ begun ++ ['\n']) [] := by simp [GoesOver]
      have later := ih (follows.next s.out) (by simpa using Remembers.next ended _ _) fresh
      rw [if_pos ends]
      exact .more onward ended follows.given later
    · have stays : c = '\n' → ¬ Ends (front ++ begun) := fun feed ended => ends (atEnd.mpr ⟨feed,ended⟩)
      have longer := remembers.push c
      rw [List.append_assoc] at longer
      rw [if_neg ends,List.append_cons]
      exact ih (follows.push c) longer (onward.push stays)

theorem stretches_statements (s : List Char) : Stretches [] s (statements s) := by
  have start : Follows [] [] ⟨0,false,0,[]⟩ (.atLine 1) :=
    ⟨rfl,rfl,rfl,rfl,[],rfl,by simp,fun some => absurd rfl some⟩
  exact stretches_statementsFrom start ⟨rfl,by decide⟩ (by simp [GoesOver]) s

end PipelineAtlas.Offset

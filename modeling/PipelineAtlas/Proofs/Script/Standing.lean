import Mathlib.Data.List.Induction
import PipelineAtlas.Proofs.Script.Passage

/-! Where statements stand. Every statement is a passage of the source, from the first character that is
seen on a line to the end of a line. -/
namespace PipelineAtlas.Script

theorem StatementScan.feed_of_endsAt {scan : StatementScan} {c : Char}
    (ends : scan.endsAt c = true) : c = '\n' := by
  simp only [StatementScan.endsAt,Bool.and_eq_true,beq_iff_eq] at ends
  exact ends.1.1

/-- A text that ends a line, if there is any. -/
def AtLineStart (s : List Char) : Prop := ∀ c ∈ s.getLast?, c = '\n'

/-- Where a scan for statements has come to: to a statement begun behind the blanks of a line, or to
blanks behind the start of a line. -/
structure Reached (done : List Char) (scan : StatementScan) : Prop where
  line : scan.line = 1 + done.count '\n'
  place : ∃ front indent, done = front ++ (indent ++ scan.begun.reverse) ∧ AtLineStart front ∧
    (∀ c ∈ indent, Text.isBlank c = true ∧ c ≠ '\n') ∧
    (scan.begun ≠ [] → scan.start = 1 + front.count '\n' ∧
      ∀ c ∈ scan.begun.getLast?, Text.isBlank c = false)
  fresh : scan.begun = [] → scan.depth = 0 ∧ scan.continued = false

namespace Reached

variable {done : List Char} {scan : StatementScan}

theorem start : Reached [] (.atLine 1) :=
  ⟨rfl,⟨[],[],rfl,by simp [AtLineStart],by simp,fun some => absurd rfl some⟩,fun _ => ⟨rfl,rfl⟩⟩

variable (reached : Reached done scan)

include reached

theorem next : Reached (done ++ ['\n']) (.atLine (scan.line + 1)) where
  line := by
    rw [List.count_append,reached.line,StatementScan.atLine]
    rfl
  place := ⟨done ++ ['\n'],[],by simp [StatementScan.atLine],by simp [AtLineStart],by simp,
    fun some => absurd rfl some⟩
  fresh _ := ⟨rfl,rfl⟩

theorem noFeed {c : Char} (stays : scan.endsAt c = false) (empty : scan.begun = []) : c ≠ '\n' := by
  rintro rfl
  obtain ⟨level,apart⟩ := reached.fresh empty
  simp [StatementScan.endsAt,level,apart] at stays

theorem push {c : Char} (stays : scan.endsAt c = false) : Reached (done ++ [c]) (scan.push c) := by
  obtain ⟨front,indent,whole,begins,blank,begun⟩ := reached.place
  have line : (scan.push c).line = 1 + (done ++ [c]).count '\n' := by
    rw [List.count_append,StatementScan.push,reached.line]
    by_cases feed : c = '\n'
    · simp [feed,Nat.add_assoc]
    · simp [feed]
  rcases scan.begun_push c with ⟨empty,before,isBlank⟩ | longer
  · have feed := reached.noFeed stays before
    refine ⟨line,⟨front,indent ++ [c],?_,begins,?_,fun some => absurd empty some⟩,fun _ => ?_⟩
    · simp [whole,empty,before]
    · rw [List.forall_mem_append]
      exact ⟨blank,by simpa using ⟨isBlank,feed⟩⟩
    · have level := StatementScan.notMem_brackets_of_isBlank isBlank
      simp only [brackets,List.mem_cons,List.not_mem_nil,or_false,not_or] at level
      obtain ⟨depth,apart⟩ := reached.fresh before
      simp [StatementScan.push,level,feed,isBlank,depth,apart]
  · refine ⟨line,⟨front,indent,by simp [whole,longer],begins,blank,fun _ => ?_⟩,?_⟩
    · rw [longer]
      cases before : scan.begun with
      | nil =>
        have noFeed : indent.count '\n' = 0 :=
          List.count_eq_zero.mpr fun inside => (blank '\n' inside).2 rfl
        have visible : Text.isBlank c = false := by
          simpa [StatementScan.push,before] using longer
        refine ⟨?_,by simpa using visible⟩
        rw [StatementScan.push,before,List.isEmpty_nil,if_pos rfl,reached.line,whole,before]
        simp [noFeed]
      | cons d begun' =>
        obtain ⟨start,first⟩ := begun (by simp [before])
        refine ⟨by simp [StatementScan.push,before,start],fun e last => first e ?_⟩
        rwa [before,← List.getLast?_cons_cons]
    · intro empty
      simp [longer] at empty

end Reached

def StatementScan.past (scan : StatementScan) (s : List Char) : StatementScan :=
  s.foldl (fun scan c => if scan.endsAt c then .atLine (scan.line + 1) else scan.push c) scan

theorem StatementScan.past_concat (scan : StatementScan) (s : List Char) (c : Char) :
    scan.past (s ++ [c]) = if (scan.past s).endsAt c then .atLine ((scan.past s).line + 1)
      else (scan.past s).push c := by
  rw [past,past,List.foldl_append]
  rfl

theorem reached_past (done : List Char) : Reached done ((StatementScan.atLine 1).past done) := by
  induction done using List.reverseRecOn with
  | nil => exact .start
  | append_singleton done c ih =>
    rw [StatementScan.past_concat]
    cases ends : ((StatementScan.atLine 1).past done).endsAt c with
    | true =>
      obtain rfl := StatementScan.feed_of_endsAt ends
      exact ih.next
    | false => exact ih.push ends

theorem statementsFrom_past (scan : StatementScan) (done : List Char) : ∃ before, ∀ rest,
    statementsFrom scan (done ++ rest) = before ++ statementsFrom (scan.past done) rest := by
  induction done generalizing scan with
  | nil => exact ⟨[],fun _ => rfl⟩
  | cons c done ih =>
    cases ends : scan.endsAt c with
    | true =>
      obtain ⟨before,given⟩ := ih (.atLine (scan.line + 1))
      refine ⟨scan.finish ++ before,fun rest => ?_⟩
      simp only [List.cons_append,statementsFrom,ends,if_true,given,List.append_assoc,
        StatementScan.past,List.foldl_cons]
    | false =>
      obtain ⟨before,given⟩ := ih (scan.push c)
      refine ⟨before,fun rest => ?_⟩
      simp only [List.cons_append,statementsFrom,ends,Bool.false_eq_true,if_false,given,
        StatementScan.past,List.foldl_cons]

/-- Every place of a text is reached by the scan, behind the statements in front of it. -/
theorem exists_reached (done : List Char) : ∃ scan before, Reached done scan ∧
    ∀ rest, statements (done ++ rest) = before ++ statementsFrom scan rest := by
  obtain ⟨before,given⟩ := statementsFrom_past (.atLine 1) done
  exact ⟨_,before,reached_past done,given⟩

/-- Where a statement stands in a text: behind blanks at the start of a line, up to the end of a line. -/
structure Statement.Stands (s : Statement) (front indent body behind : List Char) : Prop where
  begins : AtLineStart front
  blank : ∀ c ∈ indent, Text.isBlank c = true ∧ c ≠ '\n'
  first : ∃ c rest, body = c :: rest ∧ Text.isBlank c = false
  line : s.line = 1 + front.count '\n'
  text : s.text = Text.trimRight (joinLines body)
  ends : AtLineEnd behind

theorem Reached.stands_finish {done : List Char} {scan : StatementScan} (reached : Reached done scan)
    (some : scan.begun ≠ []) (behind : List Char) (ends : AtLineEnd behind) :
    ∃ s front indent, scan.finish = [s] ∧ done = front ++ (indent ++ scan.begun.reverse) ∧
      s.Stands front indent scan.begun.reverse behind := by
  obtain ⟨front,indent,whole,begins,blank,begun⟩ := reached.place
  obtain ⟨start,visible⟩ := begun some
  obtain ⟨c,rest,turned⟩ := List.exists_cons_of_ne_nil (List.reverse_ne_nil_iff.mpr some)
  refine ⟨_,front,indent,StatementScan.finish_begun some,whole,begins,blank,
    ⟨c,rest,turned,visible c ?_⟩,start,rfl,ends⟩
  rw [← List.head?_reverse,turned]
  rfl

theorem Reached.exists_begun {done : List Char} {scan : StatementScan} (reached : Reached done scan)
    (some : scan.begun ≠ []) (rest : List Char) : ∃ s ∈ statementsFrom scan rest,
      ∃ front indent more behind, done = front ++ (indent ++ scan.begun.reverse) ∧
        rest = more ++ behind ∧ s.Stands front indent (scan.begun.reverse ++ more) behind := by
  induction rest generalizing done scan with
  | nil =>
    obtain ⟨s,front,indent,given,whole,stands⟩ := reached.stands_finish some [] (.inl rfl)
    refine ⟨s,?_,front,indent,[],[],whole,rfl,by simpa using stands⟩
    rw [statementsFrom,given]
    exact List.mem_singleton_self s
  | cons c rest ih =>
    rw [statementsFrom]
    cases ends : scan.endsAt c with
    | true =>
      obtain rfl := StatementScan.feed_of_endsAt ends
      obtain ⟨s,front,indent,given,whole,stands⟩ := reached.stands_finish some ('\n' :: rest) (.inr rfl)
      refine ⟨s,?_,front,indent,[],'\n' :: rest,whole,rfl,by simpa using stands⟩
      rw [if_pos rfl,given]
      exact List.mem_append_left _ (List.mem_singleton_self s)
    | false =>
      have longer : (scan.push c).begun = c :: scan.begun :=
        (scan.begun_push c).resolve_left fun empty => some empty.2.1
      obtain ⟨s,given,front,indent,more,behind,whole,rfl,stands⟩ :=
        ih (reached.push ends) (by simp [longer])
      refine ⟨s,by simpa using given,front,indent,c :: more,behind,?_,rfl,
        by simpa [longer] using stands⟩
      simp only [longer,List.reverse_cons,← List.append_assoc] at whole
      simpa using List.append_cancel_right whole

/-- Every statement stands somewhere in the text. -/
theorem Reached.exists_stands {done rest : List Char} {scan : StatementScan}
    (reached : Reached done scan) {s : Statement} (given : s ∈ statementsFrom scan rest) :
    ∃ front indent body behind, done ++ rest = front ++ (indent ++ (body ++ behind)) ∧
      s.Stands front indent body behind := by
  have finished {done rest : List Char} {scan : StatementScan} (reached : Reached done scan)
      (given : s ∈ scan.finish) (ends : AtLineEnd rest) :
      ∃ front indent body behind, done ++ rest = front ++ (indent ++ (body ++ behind)) ∧
        s.Stands front indent body behind := by
    have some : scan.begun ≠ [] := by
      intro empty
      simp [StatementScan.finish,empty] at given
    obtain ⟨s',front,indent,same,whole,stands⟩ := reached.stands_finish some rest ends
    rw [same] at given
    obtain rfl := List.mem_singleton.mp given
    exact ⟨front,indent,_,rest,by simp [whole],stands⟩
  induction rest generalizing done scan with
  | nil => exact finished reached given (.inl rfl)
  | cons c rest ih =>
    rw [statementsFrom] at given
    rw [List.append_cons]
    cases ends : scan.endsAt c with
    | true =>
      rw [if_pos ends,List.mem_append] at given
      obtain rfl := StatementScan.feed_of_endsAt ends
      rcases given with here | later
      · rw [← List.append_cons]
        exact finished reached here (.inr rfl)
      · exact ih reached.next later
    | false =>
      rw [if_neg (by simp [ends])] at given
      exact ih (reached.push ends) given

theorem Reached.indent {done : List Char} {scan : StatementScan} (reached : Reached done scan)
    (empty : scan.begun = []) {blanks : List Char}
    (blank : ∀ c ∈ blanks, Text.isBlank c = true ∧ c ≠ '\n') :
    ∃ scan', Reached (done ++ blanks) scan' ∧ scan'.begun = [] ∧
      ∀ rest, statementsFrom scan (blanks ++ rest) = statementsFrom scan' rest := by
  induction blanks generalizing done scan with
  | nil => exact ⟨scan,by simpa using reached,empty,fun _ => rfl⟩
  | cons c blanks ih =>
    obtain ⟨⟨isBlank,noFeed⟩,later⟩ := List.forall_mem_cons.mp blank
    have stays : scan.endsAt c = false := by simp [StatementScan.endsAt,noFeed]
    have still : (scan.push c).begun = [] := by simp [StatementScan.push,empty,isBlank]
    obtain ⟨scan',reached',empty',same⟩ := ih (reached.push stays) still later
    refine ⟨scan',by simpa using reached',empty',fun rest => ?_⟩
    rw [List.cons_append,statementsFrom,stays,← same]
    rfl

theorem indent_unique {front front' indent indent' : List Char} (begins : AtLineStart front)
    (begins' : AtLineStart front') (blank : ∀ c ∈ indent, c ≠ '\n') (blank' : ∀ c ∈ indent', c ≠ '\n')
    (same : front ++ indent = front' ++ indent') : front = front' ∧ indent = indent' := by
  have nothing {a b more : List Char} (starts : AtLineStart a) (longer : a = b ++ more)
      (inside : ∀ c ∈ more, c ≠ '\n') : more = [] := by
    rcases List.eq_nil_or_concat more with rfl | ⟨more,c,rfl⟩
    · rfl
    · exact absurd (starts c (by simp [longer])) (inside c (by simp))
  rcases List.append_eq_append_iff.mp same with ⟨more,rfl,rfl⟩ | ⟨more,rfl,rfl⟩
  · obtain rfl := nothing begins' rfl fun c inside => blank c (List.mem_append_left _ inside)
    simp
  · obtain rfl := nothing begins rfl fun c inside => blank' c (List.mem_append_left _ inside)
    simp

theorem beyond_seen {indent more rest behind : List Char} {c : Char} (onLine : ∀ d ∈ indent, d ≠ '\n')
    (seen : c ≠ '\n') (ends : AtLineEnd behind)
    (split : indent ++ c :: rest = more ++ behind) :
    ∃ more', more = indent ++ c :: more' ∧ rest = more' ++ behind := by
  have stops {d : Char} {later : List Char} (first : behind = d :: later) : d = '\n' := by
    rcases ends with none | feed
    · simp [none] at first
    · rw [first] at feed
      exact Option.some.inj feed
  rcases List.append_eq_append_iff.mp split with ⟨more',rfl,behind'⟩ | ⟨left,rfl,behind'⟩
  · cases more' with
    | nil => exact absurd (stops behind'.symm) seen
    | cons d more' =>
      obtain ⟨rfl,rfl⟩ := List.cons.inj behind'
      exact ⟨more',rfl,rfl⟩
  · cases left with
    | nil => exact absurd (stops behind') seen
    | cons d left => exact absurd (stops behind') (onLine d (by simp))

/-- Where something is seen on a line, a statement begins there or goes on over the start of the line. -/
theorem exists_stands_at {front indent : List Char} {c : Char} (begins : AtLineStart front)
    (blank : ∀ d ∈ indent, Text.isBlank d = true ∧ d ≠ '\n') (visible : Text.isBlank c = false)
    (rest : List Char) :
    ∃ s ∈ statements (front ++ (indent ++ c :: rest)),
      (∃ more behind, rest = more ++ behind ∧ s.Stands front indent (c :: more) behind) ∨
        ∃ front' indent' d more more' behind, front = front' ++ (indent' ++ d :: more) ∧
          rest = more' ++ behind ∧
          s.Stands front' indent' (d :: more ++ (indent ++ c :: more')) behind := by
  obtain ⟨scan,before,reached,given⟩ := exists_reached front
  rw [given]
  -- at the start of the line the scan stands between statements or inside one
  by_cases empty : scan.begun = []
  · obtain ⟨scan',reached',empty',same⟩ := reached.indent empty blank
    have longer : (scan'.push c).begun = [c] := by simp [StatementScan.push,empty',visible]
    have stays : scan'.endsAt c = false := by
      simp [StatementScan.endsAt,(visible_ne visible).2.1]
    obtain ⟨s,member,front',indent',more,behind,whole,rfl,stands⟩ :=
      (reached'.push stays).exists_begun (by simp [longer]) rest
    refine ⟨s,List.mem_append_right _ ?_,.inl ⟨more,behind,rfl,?_⟩⟩
    · rw [same,statementsFrom,stays]
      exact member
    · simp only [longer,List.reverse_singleton,← List.append_assoc] at whole stands
      obtain ⟨rfl,rfl⟩ := indent_unique begins stands.begins (fun d inside => (blank d inside).2)
        (fun d inside => (stands.blank d inside).2) (List.append_cancel_right whole)
      exact stands
  · obtain ⟨s,member,front',indent',more,behind,whole,split,stands⟩ :=
      reached.exists_begun empty (indent ++ c :: rest)
    obtain ⟨more',rfl,rfl⟩ := beyond_seen (fun d inside => (blank d inside).2)
      (visible_ne visible).2.1 stands.ends split
    cases start : scan.begun.reverse with
    | nil => exact absurd (List.reverse_eq_nil_iff.mp start) empty
    | cons d begun =>
      rw [start] at whole stands
      exact ⟨s,List.mem_append_right _ member,
        .inr ⟨front',indent',d,begun,more',behind,whole,rfl,stands⟩⟩

def FeedLast (cells : List Cell) : Prop := ∀ x ∈ cells.getLast?, x.char = '\n'

def FeedFirst (cells : List Cell) : Prop := ∀ x ∈ cells.head?, x.char = '\n'

/-- Where a statement stands in a source. -/
structure Statement.Passage (s : Statement) (front indent passage behind : List Cell) : Prop where
  begins : FeedLast front
  blank : ∀ c ∈ codeText indent, Text.isBlank c = true ∧ c ≠ '\n'
  first : ∃ c rest, passage = codeCell c :: rest ∧ Text.isBlank c = false
  line : s.line = 1 + (Script.text front).count '\n'
  text : s.text = Text.trimRight (oneLine passage)
  ends : FeedFirst behind

theorem Cell.feed_of_mem {x : Cell} (inside : '\n' ∈ x.code) : x.code = ['\n'] ∧ x.char = '\n' := by
  unfold Cell.code blanked at inside ⊢
  split at inside
  next code =>
    have feed := List.mem_singleton.mp inside
    simp [code,← feed]
  next hidden =>
    split at inside
    next feed => simp [hidden,feed]
    next => exact absurd (List.eq_of_mem_replicate inside) (by decide)

theorem split_feed {cells : List Cell} {p q : List Char} (cut : codeText cells = p ++ '\n' :: q) :
    ∃ a x b, cells = a ++ x :: b ∧ x.char = '\n' ∧ x.code = ['\n'] ∧ codeText a = p ∧
      codeText b = q := by
  obtain ⟨a,x,b,rfl,here,rfl,rfl⟩ := split_flatMap (f := Cell.code) (c := '\n')
    (fun x _ inside => (Cell.feed_of_mem inside).1) cut
  exact ⟨a,x,b,rfl,(Cell.feed_of_mem (by rw [here]; exact List.mem_singleton_self _)).2,here,rfl,rfl⟩

theorem count_codeText (cells : List Cell) :
    (codeText cells).count '\n' = (text cells).count '\n' := by
  induction cells with
  | nil => rfl
  | cons x cells ih =>
    have here : x.code.count '\n' = [x.char].count '\n' := by
      unfold Cell.code blanked
      split
      next => rfl
      next =>
        split
        next feed => rw [feed]
        next other =>
          simp [List.count_replicate,other]
    rw [codeText,List.flatMap_cons,List.count_append,← codeText,ih,here,← List.count_append]
    rfl

theorem split_atLineStart {cells : List Cell} {p q : List Char} (begins : AtLineStart p)
    (cut : codeText cells = p ++ q) : ∃ a b, cells = a ++ b ∧ codeText a = p ∧ codeText b = q ∧
      FeedLast a := by
  rcases List.eq_nil_or_concat p with rfl | ⟨p,c,rfl⟩
  · exact ⟨[],cells,rfl,rfl,cut,by simp [FeedLast]⟩
  · obtain rfl : c = '\n' := begins c (by simp)
    rw [List.concat_eq_append,List.append_assoc] at cut
    obtain ⟨a,x,b,rfl,feed,code,rfl,rfl⟩ := split_feed cut
    refine ⟨a ++ [x],b,by simp,?_,rfl,by simpa [FeedLast] using feed⟩
    rw [codeText_append,List.concat_eq_append]
    exact congrArg _ ((List.append_nil _).trans code)

theorem split_ends {cells : List Cell} {p q : List Char} (ends : AtLineEnd q)
    (cut : codeText cells = p ++ q) :
    ∃ a b, cells = a ++ b ∧ codeText a = p ∧ FeedFirst b := by
  rcases ends with rfl | feed
  · exact ⟨cells,[],by simp,by simpa using cut,by simp [FeedFirst]⟩
  · obtain ⟨later,rfl⟩ := List.head?_eq_some_iff.mp feed
    obtain ⟨a,x,b,rfl,feed,-,rfl,-⟩ := split_feed cut
    exact ⟨a,x :: b,rfl,rfl,by simpa [FeedFirst] using feed⟩

theorem atLineStart_codeText {cells : List Cell} (ends : FeedLast cells) :
    AtLineStart (codeText cells) := by
  rcases List.eq_nil_or_concat cells with rfl | ⟨cells,x,rfl⟩
  · simp [AtLineStart,codeText]
  · have feed : x.char = '\n' := ends x (by simp)
    have code : x.code = ['\n'] := by simp [Cell.code,blanked,feed]
    simp [AtLineStart,codeText,code]

theorem Statement.Stands.passage {s : Statement} {front indent passage behind : List Cell}
    {ending : List Char} (stands : s.Stands (codeText front) (codeText indent) (codeText passage) ending)
    (begins : FeedLast front) (ends : FeedFirst behind) :
    s.Passage front indent passage behind where
  begins := begins
  blank := stands.blank
  first := by
    obtain ⟨c,rest,seen,visible⟩ := stands.first
    obtain ⟨a,b,rfl,none,-⟩ := split_visible (p := []) visible seen
    obtain rfl : a = [] := oneLine_eq_nil (by rw [oneLine,none,joinLines])
    exact ⟨c,b,rfl,visible⟩
  line := by rw [stands.line,count_codeText]
  text := stands.text
  ends := ends

/-- Every statement of a source is a passage of it. -/
theorem exists_passage {cells : List Cell} {s : Statement}
    (given : s ∈ statements (codeText cells)) : ∃ front indent passage behind,
      cells = front ++ (indent ++ (passage ++ behind)) ∧ s.Passage front indent passage behind := by
  obtain ⟨front,indent,body,behind,whole,stands⟩ := Reached.start.exists_stands given
  obtain ⟨c,rest,rfl,visible⟩ := stands.first
  obtain ⟨front,m,rfl,rfl,inside,feed⟩ := split_atLineStart stands.begins whole
  obtain ⟨indent,b,rfl,rfl,later⟩ := split_visible visible inside
  obtain ⟨more,behind',rfl,rfl,ends⟩ := split_ends stands.ends later
  exact ⟨front,indent,codeCell c :: more,behind',rfl,stands.passage feed ends⟩

theorem exists_passage_at {front indent : List Cell} {c : Char}
    (begins : FeedLast front)
    (blank : ∀ d ∈ codeText indent, Text.isBlank d = true ∧ d ≠ '\n')
    (visible : Text.isBlank c = false) (rest : List Cell) :
    ∃ s ∈ statements (codeText (front ++ (indent ++ codeCell c :: rest))),
      (∃ more behind, rest = more ++ behind ∧
        s.Passage front indent (codeCell c :: more) behind) ∨
        ∃ front' indent' above more behind, above ≠ [] ∧ front = front' ++ (indent' ++ above) ∧
          rest = more ++ behind ∧
          s.Passage front' indent' (above ++ (indent ++ codeCell c :: more)) behind := by
  have shown : codeText (front ++ (indent ++ codeCell c :: rest)) =
      codeText front ++ (codeText indent ++ c :: codeText rest) := by
    rw [codeText_append,codeText_append]
    rfl
  rw [shown]
  obtain ⟨s,member,place⟩ := exists_stands_at (atLineStart_codeText begins) blank visible
    (codeText rest)
  refine ⟨s,member,?_⟩
  rcases place with ⟨more,behind,split,stands⟩ | ⟨front',indent',d,begun,more,behind,whole,split,stands⟩
  · obtain ⟨more,behind',rfl,rfl,ends⟩ := split_ends stands.ends split
    exact .inl ⟨more,behind',rfl,stands.passage begins ends⟩
  · obtain ⟨e,_,same,visible'⟩ := stands.first
    obtain rfl : d = e := (List.cons.inj same).1
    obtain ⟨front',m,rfl,rfl,inside,feed⟩ := split_atLineStart stands.begins whole
    obtain ⟨indent',begun,rfl,rfl,rfl⟩ := split_visible visible' inside
    obtain ⟨more,behind',rfl,rfl,ends⟩ := split_ends stands.ends split
    have seen : codeText (codeCell d :: begun ++ (indent ++ codeCell c :: more)) =
        d :: codeText begun ++ (codeText indent ++ c :: codeText more) := by
      rw [codeText_append,codeText_append]
      rfl
    rw [← seen] at stands
    exact .inr ⟨front',indent',codeCell d :: begun,more,behind',by simp,rfl,rfl,
      stands.passage feed ends⟩

end PipelineAtlas.Script

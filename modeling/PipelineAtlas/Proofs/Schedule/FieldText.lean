import Mathlib.Data.List.DropRight
import Mathlib.Data.Option.Basic
import PipelineAtlas.Proofs.Schedule.CronPeriod

/-! The texts that the fields of a cron line take. Tokens are counted, but fields end where no mark
continues them, so a token may hold two fields and a field may hold two tokens. The fields are the
tokens exactly if there is no seventh field and no token begins or ends with a mark. -/
namespace PipelineAtlas

namespace Cron

open Text (skipChar skipChar_eq_some)

/-- Marks that make one field of what stands on their two sides. -/
def Joins (c : Char) : Prop := c = '-' ∨ c = '/' ∨ c = ','

instance (c : Char) : Decidable (Joins c) := inferInstanceAs (Decidable (_ ∨ _ ∨ _))

structure Solid (c : Char) : Prop where
  visible : Text.isBlank c = false
  apart : ¬ Joins c

theorem solid_of_isAsciiWord {c : Char} (word : Text.isAsciiWord c = true) : Solid c := by
  refine ⟨Text.isBlank_of_isAsciiWord word,?_⟩
  rintro (rfl | rfl | rfl) <;> exact absurd word (by decide)

theorem solid_of_isDigit (c : Char) (digit : c.isDigit = true) : Solid c :=
  solid_of_isAsciiWord (by simp [Text.isAsciiWord,Char.isAlphanum,digit])

theorem solid_of_isAlpha (c : Char) (letter : c.isAlpha = true) : Solid c :=
  solid_of_isAsciiWord (by simp [Text.isAsciiWord,Char.isAlphanum,letter])

/-- The texts of fields: words, and marks between words with blanks around them or without. -/
inductive FieldText : List Char → Prop
  | word {t : List Char} (some : t ≠ []) (solid : ∀ c ∈ t, Solid c) : FieldText t
  | joined {t u gap gap' : List Char} {c : Char} (first : FieldText t) (last : FieldText u)
      (joins : Joins c) (blank : ∀ d ∈ gap, Text.isBlank d = true)
      (blank' : ∀ d ∈ gap', Text.isBlank d = true) : FieldText (t ++ (gap ++ c :: (gap' ++ u)))

/-- Of a text a field takes what leaves the rest, with blanks on both sides. -/
structure Takes (s text rest : List Char) : Prop where
  field : FieldText text
  around : ∃ front behind, s = front ++ (text ++ (behind ++ rest)) ∧
    (∀ c ∈ front, Text.isBlank c = true) ∧ ∀ c ∈ behind, Text.isBlank c = true

/-- Something is taken. -/
def Leaves (s rest : List Char) : Prop := ∃ text, Takes s text rest

theorem isBlank_of_isGap {c : Char} (gap : isGap c = true) : Text.isBlank c = true := by
  simp only [isGap,Bool.or_eq_true,beq_iff_eq] at gap
  rcases gap with ((rfl | rfl) | rfl) | rfl <;> decide

theorem exists_skipGap (s : List Char) :
    ∃ front, s = front ++ skipGap s ∧ ∀ c ∈ front, Text.isBlank c = true :=
  ⟨s.takeWhile isGap,List.takeWhile_append_dropWhile.symm,
    fun _ inside => isBlank_of_isGap (List.mem_takeWhile_imp inside)⟩

variable {s s' rest : List Char} {kind : FieldKind}

theorem Leaves.front (leaves : Leaves (skipGap s) rest) : Leaves s rest := by
  obtain ⟨text,field,front,behind,whole,before,after⟩ := leaves
  obtain ⟨gap,split,blank⟩ := exists_skipGap s
  refine ⟨text,field,gap ++ front,behind,?_,List.forall_mem_append.mpr ⟨blank,before⟩,after⟩
  rw [List.append_assoc,← whole,← split]

theorem Leaves.behind (leaves : Leaves s rest) : Leaves s (skipGap rest) := by
  obtain ⟨text,field,front,behind,whole,before,after⟩ := leaves
  obtain ⟨gap,split,blank⟩ := exists_skipGap rest
  refine ⟨text,field,front,behind ++ gap,?_,before,List.forall_mem_append.mpr ⟨after,blank⟩⟩
  rw [List.append_assoc,← split,whole]

theorem Leaves.join {c : Char} (first : Leaves s (c :: s')) (joins : Joins c)
    (last : Leaves s' rest) : Leaves s rest := by
  obtain ⟨t,field,front,gap,rfl,before,blank⟩ := first
  obtain ⟨u,field',gap',behind,rfl,blank',after⟩ := last
  exact ⟨_,.joined field field' joins blank blank',front,behind,by simp,before,after⟩

theorem leaves_of_solid {c : Char} (solid : Solid c) (rest : List Char) : Leaves (c :: rest) rest :=
  ⟨[c],.word (by simp) (by simpa using solid),[],[],rfl,by simp,by simp⟩

theorem leaves_of_word {p : Char → Bool} (solid : ∀ c, p c = true → Solid c)
    (some : (skipGap s).takeWhile p ≠ []) : Leaves s (skipGap ((skipGap s).dropWhile p)) := by
  have word : Leaves (skipGap s) ((skipGap s).dropWhile p) :=
    ⟨_,.word some fun c inside => solid c (List.mem_takeWhile_imp inside),[],[],
      by simp [List.takeWhile_append_dropWhile],by simp,by simp⟩
  exact word.behind.front

theorem leaves_of_takeNumber {n : Nat} (taken : takeNumber s = some (n,rest)) : Leaves s rest := by
  obtain ⟨m,value,same⟩ := Option.map_eq_some_iff.mp taken
  cases same
  exact leaves_of_word solid_of_isDigit (numeral_of_decimal? value).some

theorem leaves_of_takeName {name : List Char} (taken : takeName s = some (name,rest)) :
    Leaves s rest := by
  unfold takeName at taken
  dsimp only at taken
  split at taken
  next => cases taken
  next some =>
    cases taken
    exact leaves_of_word solid_of_isAlpha (by simpa using some)

theorem leaves_of_takeRange {span : Span} (taken : takeRange s = some (span,rest)) :
    Leaves s rest := by
  simp only [takeRange,bind,Option.bind_eq_some_iff,Prod.exists] at taken
  obtain ⟨first,s₁,number,s₂,dash,last,s₃,number',same⟩ := taken
  cases same
  rw [skipChar_eq_some.mp dash] at number
  exact (leaves_of_takeNumber number).join (.inl rfl) (leaves_of_takeNumber number')

theorem leaves_of_takeNamedRange {span : Span} (taken : takeNamedRange s = some (span,rest)) :
    Leaves s rest := by
  simp only [takeNamedRange,bind,Option.bind_eq_some_iff,Prod.exists] at taken
  obtain ⟨first,s₁,name,s₂,dash,last,s₃,name',same⟩ := taken
  cases same
  rw [skipChar_eq_some.mp dash] at name
  exact (leaves_of_takeName name).join (.inl rfl) (leaves_of_takeName name')

theorem leaves_of_sign {c : Char} {span : Span} (solid : Solid c)
    (taken : (skipChar c s).map (fun rest => (Span.all,rest)) = some (span,rest)) :
    Leaves s rest := by
  obtain ⟨s₁,sign,same⟩ := Option.map_eq_some_iff.mp taken
  cases same
  rw [skipChar_eq_some.mp sign]
  exact leaves_of_solid solid _

theorem leaves_of_takeSpan {span : Span} (taken : takeSpan kind s = some (span,rest)) :
    Leaves s rest := by
  have question : Solid '?' := ⟨by decide,by decide⟩
  have star : Solid '*' := ⟨by decide,by decide⟩
  simp only [takeSpan,Option.orElse_eq_some] at taken
  rcases taken with asked | ⟨-,starred | ⟨-,range | ⟨-,number | ⟨-,range⟩⟩⟩⟩
  · split at asked
    next => exact leaves_of_sign question asked
    next => cases asked
  · exact leaves_of_sign star starred
  · exact leaves_of_takeRange range
  · obtain ⟨⟨n,s₁⟩,value,same⟩ := Option.map_eq_some_iff.mp number
    cases same
    exact leaves_of_takeNumber value
  · exact leaves_of_takeNamedRange range

theorem leaves_of_takeItem {item : Item} (taken : takeItem kind s = some (item,rest)) :
    Leaves s rest := by
  simp only [takeItem,Option.orElse_eq_some] at taken
  rcases taken with stepped | ⟨-,span | ⟨-,name⟩⟩
  · simp only [takeStepped,bind,Option.bind_eq_some_iff,Prod.exists] at stepped
    obtain ⟨first,s₁,span,s₂,slash,step,s₃,number,same⟩ := stepped
    cases same
    rw [skipChar_eq_some.mp slash] at span
    exact (leaves_of_takeSpan span).join (.inr (.inl rfl)) (leaves_of_takeNumber number)
  · obtain ⟨⟨first,s₁⟩,found,same⟩ := Option.map_eq_some_iff.mp span
    cases same
    exact leaves_of_takeSpan found
  · obtain ⟨⟨first,s₁⟩,found,same⟩ := Option.map_eq_some_iff.mp name
    cases same
    exact leaves_of_takeName found

theorem leaves_of_takeMore {fuel : Nat} {items : List Item} (leaves : Leaves s s')
    (taken : takeMore kind fuel s' = (items,rest)) : Leaves s rest := by
  induction fuel generalizing s' items with
  | zero =>
    cases taken
    exact leaves
  | succ fuel ih =>
    unfold takeMore at taken
    split at taken
    next item s₂ found =>
      obtain ⟨s₁,comma,next⟩ := Option.bind_eq_some_iff.mp found
      rw [skipChar_eq_some.mp comma] at leaves
      have longer := leaves.join (.inr (.inr rfl)) (leaves_of_takeItem next)
      cases later : takeMore kind fuel s₂ with
      | mk items' rest' =>
        rw [later] at taken
        cases taken
        exact ih longer later
    next =>
      cases taken
      exact leaves

theorem leaves_of_takeField {items : List Item} (taken : takeField kind s = some (items,rest)) :
    Leaves s rest ∧ skipGap rest = rest := by
  simp only [takeField,bind,Option.bind_eq_some_iff,Prod.exists] at taken
  obtain ⟨item,s₁,first,taken⟩ := taken
  split at taken
  next =>
    cases taken
    refine ⟨(leaves_of_takeMore (leaves_of_takeItem first) rfl).behind.front,?_⟩
    exact List.dropWhile_idempotent isGap _
  next => cases taken

def fieldText (s rest : List Char) : List Char := Text.trim (s.take (s.length - rest.length))

/-- The texts of fields of these kinds that make up a text. -/
def texts? : List FieldKind → List Char → Option (List (List Char))
  | [],s => if s.isEmpty then some [] else none
  | kind :: kinds,s => do
    let (_,rest) ← takeField kind s
    let texts ← texts? kinds rest
    some (fieldText s rest :: texts)

def Line.kinds (l : Line) : List FieldKind :=
  [Cron.second,Cron.minute,Cron.hour,Cron.dayOfMonth,Cron.month,Cron.dayOfWeek] ++
    if l.year.isSome then [Cron.year] else []

theorem exists_texts?_of_read? {line : Line} (read : read? s = some line) :
    ∃ texts, texts? line.kinds s = some texts := by
  simp only [read?,bind,Option.bind_eq_some_iff,Prod.exists] at read
  obtain ⟨sec,_,takenSecond,min,_,takenMinute,hr,_,takenHour,dom,_,takenDay,mon,_,takenMonth,dow,left,
    takenWeekday,read⟩ := read
  split at read
  next none =>
    cases read
    obtain rfl := List.isEmpty_iff.mp none
    simp [texts?,Line.kinds,takenSecond,takenMinute,takenHour,takenDay,takenMonth,takenWeekday]
  next =>
    obtain ⟨⟨yr,rest⟩,takenYear,read⟩ := Option.bind_eq_some_iff.mp read
    split at read
    next none =>
      cases read
      obtain rfl : rest = [] := List.isEmpty_iff.mp none
      simp [texts?,Line.kinds,takenSecond,takenMinute,takenHour,takenDay,takenMonth,takenWeekday,
        takenYear]
    next => cases read

theorem length_texts? {kinds : List FieldKind} {texts : List (List Char)}
    (found : texts? kinds s = some texts) : texts.length = kinds.length := by
  induction kinds generalizing s texts with
  | nil =>
    unfold texts? at found
    split at found
    next =>
      cases found
      rfl
    next => cases found
  | cons kind kinds ih =>
    simp only [texts?,bind,Option.bind_eq_some_iff,Prod.exists] at found
    obtain ⟨items,rest,-,texts',later,same⟩ := found
    rw [← Option.some.inj same,List.length_cons,List.length_cons,ih later]

theorem FieldText.ends {t : List Char} (field : FieldText t) :
    t ≠ [] ∧ (∀ c ∈ t.head?, Solid c) ∧ ∀ c ∈ t.getLast?, Solid c := by
  induction field with
  | word some solid =>
    exact ⟨some,fun c first => solid c (List.mem_of_mem_head? first),
      fun c last => solid c (List.mem_of_mem_getLast? last)⟩
  | @joined t u gap gap' c _ _ _ _ _ first last =>
    obtain ⟨some,starts,-⟩ := first
    obtain ⟨some',-,ends⟩ := last
    refine ⟨by simp [some],fun d start => starts d ?_,fun d stop => ends d ?_⟩
    · rwa [List.head?_append_of_ne_nil _ some] at start
    · rw [← List.singleton_append,← List.append_assoc,← List.append_assoc,← List.append_assoc,
        List.getLast?_append_of_ne_nil _ some'] at stop
      exact stop

theorem fieldText_of_around {text front behind : List Char} (field : FieldText text)
    (before : ∀ c ∈ front, Text.isBlank c = true) (after : ∀ c ∈ behind, Text.isBlank c = true) :
    fieldText (front ++ (text ++ (behind ++ rest))) rest = text := by
  have taken : (front ++ (text ++ (behind ++ rest))).take
      ((front ++ (text ++ (behind ++ rest))).length - rest.length) = front ++ (text ++ behind) := by
    have whole : front ++ (text ++ (behind ++ rest)) = front ++ (text ++ behind) ++ rest := by simp
    rw [whole,List.length_append,Nat.add_sub_cancel,List.take_left]
  obtain ⟨-,first,last⟩ := field.ends
  rw [fieldText,taken,Text.trim_blanks_append before,Text.trim_append_blanks after]
  exact Text.trim_of_ends (fun c start => (first c start).visible) fun c stop => (last c stop).visible

theorem eq_nil_of_head {gap t : List Char} (blank : ∀ c ∈ gap, Text.isBlank c = true)
    (same : gap ++ s = t) (visible : ∀ c ∈ t.head?, Text.isBlank c = false) : gap = [] := by
  subst same
  cases gap with
  | nil => rfl
  | cons c gap =>
    have shown := visible c rfl
    simp [blank c List.mem_cons_self] at shown

theorem eq_nil_of_visible {gap u v : List Char} (blank : ∀ c ∈ gap, Text.isBlank c = true)
    (same : gap ++ s = u ++ v) (some : u ≠ []) (visible : ∀ c ∈ u, Text.isBlank c = false) :
    gap = [] := by
  refine eq_nil_of_head blank same fun c start => ?_
  rw [List.head?_append_of_ne_nil _ some] at start
  exact visible c (List.mem_of_mem_head? start)

/-- No mark joins a token to its neighbours. -/
def Closed (t : List Char) : Prop := (∀ c ∈ t.head?, ¬ Joins c) ∧ ∀ c ∈ t.getLast?, ¬ Joins c

instance (t : List Char) : Decidable (Closed t) :=
  @instDecidableAnd _ _ (Option.decidableForallMem t.head?) (Option.decidableForallMem t.getLast?)

/-- A field does not go beyond the end of a token if no mark is there. -/
theorem FieldText.within {text more u v : List Char} (field : FieldText text)
    (whole : text ++ more = u ++ ' ' :: v) (visible : ∀ c ∈ u, Text.isBlank c = false)
    (last : ∀ c ∈ u.getLast?, ¬ Joins c) (next : ∀ c ∈ v.head?, Text.isBlank c = false ∧ ¬ Joins c) :
    ∃ u', u = text ++ u' ∧ more = u' ++ ' ' :: v := by
  induction field generalizing more u with
  | @word t some solid =>
    rcases List.append_eq_append_iff.mp whole with ⟨u',longer,rest⟩ | ⟨t',longer,rest⟩
    · exact ⟨u',longer,rest⟩
    · cases t' with
      | nil => exact ⟨[],by simpa using longer.symm,by simpa using rest.symm⟩
      | cons d t' =>
        obtain rfl : ' ' = d := (List.cons.inj rest).1
        have blank := (solid ' ' (by simp [longer])).visible
        exact absurd blank (by decide)
  | @joined t w gap gap' c _ _ joins blank blank' ih ih' =>
    simp only [List.append_assoc,List.cons_append] at whole
    obtain ⟨u',rfl,rest⟩ := ih whole visible last
    have visible' : ∀ d ∈ u', Text.isBlank d = false := (List.forall_mem_append.mp visible).2
    cases u' with
    | nil =>
      -- the mark would be the first that is no blank behind the token
      cases gap with
      | nil =>
        obtain rfl : c = ' ' := (List.cons.inj rest).1
        exact absurd joins (by decide)
      | cons d gap =>
        obtain rfl : gap ++ c :: (gap' ++ (w ++ more)) = v := (List.cons.inj rest).2
        obtain rfl : gap = [] := eq_nil_of_head (fun e inside => blank e (by simp [inside])) rfl
          fun e start => (next e start).1
        exact absurd joins (next c rfl).2
    | cons d u' =>
      obtain rfl := eq_nil_of_visible blank rest (by simp) visible'
      obtain ⟨rfl,behind⟩ := List.cons.inj rest
      obtain ⟨-,visible'⟩ := List.forall_mem_cons.mp visible'
      have more' : u' ≠ [] := by
        rintro rfl
        exact absurd joins (last c (by simp))
      obtain rfl := eq_nil_of_visible blank' behind more' visible'
      have last' : ∀ d ∈ u'.getLast?, ¬ Joins d := by
        intro d stop
        refine last d ?_
        cases u' with
        | nil => cases stop
        | cons e u' => simpa using stop
      obtain ⟨u'',rfl,end'⟩ := ih' behind visible' last'
      exact ⟨u'',by simp,end'⟩

theorem head?_spaced {t : List Char} (some : t ≠ []) (more : List (List Char)) :
    (Recurrence.spaced (t :: more)).head? = t.head? := by
  cases more with
  | nil => rfl
  | cons u more => exact List.head?_append_of_ne_nil _ some

section

variable {u : List Char} {more : List (List Char)} {items : List Item} (some : u ≠ [])
  (visible : ∀ c ∈ u, Text.isBlank c = false) (last : ∀ c ∈ u.getLast?, ¬ Joins c)
  (closed : ∀ t ∈ more, t ≠ [] ∧ (∀ c ∈ t, Text.isBlank c = false) ∧ Closed t)
include some visible last closed

theorem first_of_takeField
    (taken : takeField kind (Recurrence.spaced (u :: more)) = Option.some (items,rest)) :
    ∃ u', u = fieldText (Recurrence.spaced (u :: more)) rest ++ u' ∧
      rest = if u' = [] then Recurrence.spaced more else Recurrence.spaced (u' :: more) := by
  obtain ⟨⟨text,field,front,behind,whole,before,after⟩,noGap⟩ := leaves_of_takeField taken
  have starts : ∀ c ∈ (Recurrence.spaced (u :: more)).head?, Text.isBlank c = false := by
    rw [head?_spaced some]
    exact fun c start => visible c (List.mem_of_mem_head? start)
  obtain rfl := eq_nil_of_head before whole.symm starts
  have taken' : fieldText ([] ++ (text ++ (behind ++ rest))) rest = text :=
    fieldText_of_around field before after
  rw [← whole] at taken'
  rw [taken']
  rw [List.nil_append] at whole
  cases more with
  | nil =>
    change u = _ at whole
    obtain rfl := eq_nil_of_head (s := rest) after rfl fun c start => visible c (by
      rw [whole]
      exact List.mem_append_right _ (List.mem_of_mem_head? start))
    refine ⟨rest,whole,?_⟩
    split
    next none => exact none
    next => rfl
  | cons t more =>
    obtain ⟨some',visible',first,-⟩ := closed t List.mem_cons_self
    have next : ∀ c ∈ (Recurrence.spaced (t :: more)).head?, Text.isBlank c = false ∧ ¬ Joins c := by
      rw [head?_spaced some']
      exact fun c start => ⟨visible' c (List.mem_of_mem_head? start),first c start⟩
    obtain ⟨u',rfl,left⟩ := field.within whole.symm visible last next
    refine ⟨u',rfl,?_⟩
    split
    next none =>
      subst none
      cases behind with
      | nil =>
        -- the blank between two tokens is a gap, and none is left in front of the rest
        have kept := List.head?_dropWhile_not isGap rest
        rw [show rest.dropWhile isGap = rest from noGap,
          show rest = ' ' :: Recurrence.spaced (t :: more) from left] at kept
        exact absurd (show isGap ' ' = false from kept) (by decide)
      | cons c behind =>
        have left := (List.cons.inj left).2
        obtain rfl := eq_nil_of_head (fun d inside => after d (by simp [inside])) left
          fun d start => (next d start).1
        exact left
    next more' =>
      obtain rfl := eq_nil_of_visible after left more' (List.forall_mem_append.mp visible).2
      exact left

end

theorem length_le_of_texts? {kinds : List FieldKind} {u : List Char} {more texts : List (List Char)}
    (some : u ≠ []) (visible : ∀ c ∈ u, Text.isBlank c = false) (last : ∀ c ∈ u.getLast?, ¬ Joins c)
    (closed : ∀ t ∈ more, t ≠ [] ∧ (∀ c ∈ t, Text.isBlank c = false) ∧ Closed t)
    (found : texts? kinds (Recurrence.spaced (u :: more)) = Option.some texts) :
    more.length + 1 ≤ kinds.length := by
  induction kinds generalizing u more texts with
  | nil =>
    have start := head?_spaced some more
    unfold texts? at found
    split at found
    next none =>
      rw [List.isEmpty_iff.mp none] at start
      exact absurd (List.head?_eq_none_iff.mp start.symm) some
    next => cases found
  | cons kind kinds ih =>
    simp only [texts?,bind,Option.bind_eq_some_iff,Prod.exists] at found
    obtain ⟨items,rest,taken,texts',later,-⟩ := found
    obtain ⟨u',whole,left⟩ := first_of_takeField some visible last closed taken
    split at left
    next none =>
      cases more with
      | nil => simp
      | cons t more =>
        obtain ⟨⟨some',visible',-,last'⟩,closed'⟩ := List.forall_mem_cons.mp closed
        exact Nat.succ_le_succ (ih some' visible' last' closed' (left ▸ later))
    next some' =>
      have visible' : ∀ c ∈ u', Text.isBlank c = false := fun c inside =>
        visible c (by rw [whole]; exact List.mem_append_right _ inside)
      have last' : ∀ c ∈ u'.getLast?, ¬ Joins c := fun c stop =>
        last c (by rwa [whole,List.getLast?_append_of_ne_nil _ some'])
      exact Nat.le_succ_of_le (ih some' visible' last' closed (left ▸ later))

theorem texts?_of_closed {kinds : List FieldKind} {tokens texts : List (List Char)}
    (closed : ∀ t ∈ tokens, t ≠ [] ∧ (∀ c ∈ t, Text.isBlank c = false) ∧ Closed t)
    (count : kinds.length = tokens.length)
    (found : texts? kinds (Recurrence.spaced tokens) = some texts) : texts = tokens := by
  induction tokens generalizing kinds texts with
  | nil =>
    obtain rfl := List.length_eq_zero_iff.mp count
    exact (Option.some.inj found).symm
  | cons t more ih =>
    obtain ⟨kind,kinds,rfl⟩ := List.exists_cons_of_length_eq_add_one count
    have count : kinds.length = more.length := Nat.succ.inj count
    obtain ⟨⟨some,visible,-,last⟩,closed⟩ := List.forall_mem_cons.mp closed
    simp only [texts?,bind,Option.bind_eq_some_iff,Prod.exists] at found
    obtain ⟨items,rest,taken,texts',later,same⟩ := found
    obtain ⟨u',whole,left⟩ := first_of_takeField some visible last closed taken
    split at left
    next none =>
      rw [none,List.append_nil] at whole
      have rest := ih closed count (left ▸ later)
      rw [← Option.some.inj same,← whole,rest]
    next some' =>
      -- what is left of the token would need a field more than there are
      have last' : ∀ c ∈ u'.getLast?, ¬ Joins c := fun c stop =>
        last c (by rwa [whole,List.getLast?_append_of_ne_nil _ some'])
      have visible' : ∀ c ∈ u', Text.isBlank c = false := fun c inside =>
        visible c (by rw [whole]; exact List.mem_append_right _ inside)
      have few := length_le_of_texts? some' visible' last' closed (left ▸ later)
      omega

theorem fieldText_of_texts? {kinds : List FieldKind} {texts : List (List Char)}
    (found : texts? kinds s = some texts) : ∀ t ∈ texts, FieldText t := by
  induction kinds generalizing s texts with
  | nil =>
    obtain rfl : texts = [] := List.length_eq_zero_iff.mp (length_texts? found)
    simp
  | cons kind kinds ih =>
    simp only [texts?,bind,Option.bind_eq_some_iff,Prod.exists] at found
    obtain ⟨items,rest,taken,texts',later,same⟩ := found
    obtain ⟨⟨text,field,front,behind,rfl,before,after⟩,-⟩ := leaves_of_takeField taken
    rw [fieldText_of_around field before after] at same
    rw [← Option.some.inj same]
    exact List.forall_mem_cons.mpr ⟨field,ih later⟩

theorem length_kinds (l : Line) : l.kinds.length = 6 ↔ l.year = none := by
  cases year : l.year <;> simp [Line.kinds,year]

/-- Six tokens are the fields of a line if and only if it says nothing about the year and no token
begins or ends with a mark. -/
theorem texts_eq_iff {line : Line} {tokens texts : List (List Char)}
    (token : ∀ t ∈ tokens, t ≠ [] ∧ ∀ c ∈ t, Text.isBlank c = false) (six : tokens.length = 6)
    (found : texts? line.kinds (Recurrence.spaced tokens) = some texts) :
    texts = tokens ↔ line.year = none ∧ ∀ t ∈ tokens, Closed t := by
  have count := length_texts? found
  rw [← length_kinds,← count]
  constructor
  · rintro rfl
    refine ⟨six,fun t inside => ?_⟩
    obtain ⟨-,first,last⟩ := (fieldText_of_texts? found t inside).ends
    exact ⟨fun c start => (first c start).apart,fun c stop => (last c stop).apart⟩
  · rintro ⟨same,closed⟩
    exact texts?_of_closed (fun t inside => ⟨(token t inside).1,(token t inside).2,closed t inside⟩)
      (by omega) found

end Cron

open Recurrence

theorem Recurrence.HasFields.length {tokens fields : List (List Char)}
    (has : HasFields tokens fields) : fields.length = 6 := by
  cases has with
  | five count => rw [List.length_cons,count]
  | six count => exact count

theorem Recurrence.HasFields.visible {s : List Char} {fields : List (List Char)}
    (has : HasFields (Text.tokens s) fields) :
    ∀ t ∈ fields, t ≠ [] ∧ ∀ c ∈ t, Text.isBlank c = false := by
  have tokens : ∀ t ∈ Text.tokens s, t ≠ [] ∧ ∀ c ∈ t, Text.isBlank c = false :=
    fun _ inside => Text.visible_of_mem_tokens inside
  cases has with
  | five => exact List.forall_mem_cons.mpr ⟨by decide,tokens⟩
  | six => exact tokens

namespace Schedule

/-- An accepted cron text is read as six fields or as seven, and its six tokens are these fields exactly
if there is no seventh and no token begins or ends with a mark. -/
theorem fields_of_parsed {text : String} {s : Schedule}
    (noShortcut : (Text.trim text.toList).head? ≠ some '@') (parsed : parse text = .ok s)
    (cron : s.describe = "cron") : ∃ fields line texts,
      HasFields (Text.tokens text.toList) fields ∧ Cron.read? (spaced fields) = some line ∧
        Cron.texts? line.kinds (spaced fields) = some texts ∧
        texts.length = fields.length + (if line.year = none then 0 else 1) ∧
        (texts = fields ↔ line.year = none ∧ ∀ t ∈ fields, Cron.Closed t) := by
  obtain ⟨fields,line,has,read,-⟩ := fires_of_period noShortcut parsed cron
  obtain ⟨texts,found⟩ := Cron.exists_texts?_of_read? read
  refine ⟨fields,line,texts,has,read,found,?_,Cron.texts_eq_iff has.visible has.length found⟩
  rw [Cron.length_texts? found,has.length]
  cases year : line.year <;> simp [Cron.Line.kinds,year]

/-- A line with steps, ranges, names and a list is read token by token. -/
theorem fields_of_parsed_usual : ∃ s line fields,
    (Text.trim "*/15 9-17 ? jan-Mar mon,FRI".toList).head? ≠ some '@' ∧
      parse "*/15 9-17 ? jan-Mar mon,FRI" = .ok s ∧ s.describe = "cron" ∧
      HasFields (Text.tokens "*/15 9-17 ? jan-Mar mon,FRI".toList) fields ∧
      Cron.read? (spaced fields) = some line ∧
      Cron.texts? line.kinds (spaced fields) = some fields := by
  have parsed : parse "*/15 9-17 ? jan-Mar mon,FRI" =
      .ok ⟨"*/15 9-17 ? jan-Mar mon,FRI",.cron none⟩ := by rfl
  have noShortcut : (Text.trim "*/15 9-17 ? jan-Mar mon,FRI".toList).head? ≠ some '@' := by decide
  obtain ⟨fields,line,texts,has,read,found,-,iff⟩ := fields_of_parsed noShortcut parsed rfl
  have same : texts = fields := by
    obtain rfl := has.unique (.five (by decide))
    have year : (Cron.read? (spaced (['0'] ::
        Text.tokens "*/15 9-17 ? jan-Mar mon,FRI".toList))).map (·.year) = some none := by rfl
    rw [read] at year
    exact iff.mpr ⟨Option.some.inj year,by decide⟩
  exact ⟨_,line,fields,noShortcut,parsed,rfl,has,read,same ▸ found⟩

/-- Two fields in the last token, so that the line says something about the year; and two tokens in the
first field, so that all others are read in the place of another. -/
theorem fields_apart_from_tokens :
    (∃ s line, parse "0 0 1 1 *2024" = .ok s ∧ s.describe = "cron" ∧
      (Text.tokens "0 0 1 1 *2024".toList).length = 5 ∧
      Cron.read? "0 0 0 1 1 *2024".toList = some line ∧
      line.year = some [.span (.one 2024)] ∧
      Cron.texts? line.kinds "0 0 0 1 1 *2024".toList =
        some (["0","0","0","1","1","*","2024"].map String.toList)) ∧
    ∃ s line, parse "-5 **/2 * * *" = .ok s ∧ s.describe = "cron" ∧
      (Text.tokens "-5 **/2 * * *".toList).length = 5 ∧
      Cron.read? "0 -5 **/2 * * *".toList = some line ∧ line.year = none ∧
      Cron.texts? line.kinds "0 -5 **/2 * * *".toList =
        some (["0 -5","*","*/2","*","*","*"].map String.toList) := by
  let zero : List Cron.Item := [.span (.one 0)]
  let one : List Cron.Item := [.span (.one 1)]
  let all : List Cron.Item := [.span .all]
  refine ⟨⟨⟨"0 0 1 1 *2024",.cron none⟩,⟨zero,zero,zero,one,one,all,some [.span (.one 2024)]⟩,?_⟩,
    ⟨"-5 **/2 * * *",.cron none⟩,⟨[.span (.range 0 5)],all,[.stepped .all 2],all,all,all,none⟩,?_⟩
  · exact ⟨by rfl,rfl,by decide,by decide +kernel,rfl,by decide +kernel⟩
  · exact ⟨by rfl,rfl,by decide,by decide +kernel,rfl,by decide +kernel⟩

end Schedule

end PipelineAtlas

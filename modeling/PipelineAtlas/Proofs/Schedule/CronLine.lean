import PipelineAtlas.Proofs.Text.Word
import PipelineAtlas.Schedule

/-! Cron lines of numbers and stars. A field that is one of these ends where its token ends, although
fields need no blanks between them, so a line of six such tokens is read token by token. -/
namespace PipelineAtlas

namespace Cron

open Text (skipChar skipChar_cons)

def word : Nat := 0xFFFFFFFF

structure Numeral (t : List Char) : Prop where
  some : t ≠ []
  digits : ∀ c ∈ t, c.isDigit = true

theorem numeral_of_decimal? {t : List Char} {limit n : Nat}
    (read : Text.decimal? limit t = some n) : Numeral t := by
  obtain ⟨some,digits⟩ := Text.isDigit_of_decimal? read
  exact ⟨some,digits⟩

theorem Numeral.exists_cons {t : List Char} (numeral : Numeral t) :
    ∃ c s, t = c :: s ∧ c.isDigit = true := by
  cases t with
  | nil => exact absurd rfl numeral.some
  | cons c s => exact ⟨c,s,rfl,numeral.digits c List.mem_cons_self⟩

theorem skipGap_cons {c : Char} (noGap : isGap c = false) (s : List Char) :
    skipGap (c :: s) = c :: s := by
  simp [skipGap,noGap]

/-- A character at which a field may start and in front of which a number or a star ends. -/
def Opens (c : Char) : Prop := isGap c = false ∧ c ≠ '-' ∧ c ≠ '/' ∧ c ≠ ','

instance (c : Char) : Decidable (Opens c) := inferInstanceAs (Decidable (_ ∧ _ ∧ _ ∧ _))

/-- What is behind the token of a field, and where the next field starts. -/
inductive Behind : List Char → List Char → Prop
  | nothing : Behind [] []
  | field {c : Char} (s : List Char) (opens : Opens c) : Behind (' ' :: c :: s) (c :: s)

theorem opens_of_isDigit {c : Char} (digit : c.isDigit = true) : Opens c := by
  have all : ∀ c ∈ "0123456789".toList, Opens c := by decide
  exact all c (Text.mem_digits digit)

theorem skipGap_numeral {t : List Char} (numeral : Numeral t) (rest : List Char) :
    skipGap (t ++ rest) = t ++ rest := by
  obtain ⟨c,s,rfl,digit⟩ := numeral.exists_cons
  exact skipGap_cons (opens_of_isDigit digit).1 (s ++ rest)

theorem apart_of_isDigit {c : Char} (digit : c.isDigit = true) :
    c.isAlpha = false ∧ c ≠ '*' ∧ c ≠ '?' := by
  have all : ∀ c ∈ "0123456789".toList, c.isAlpha = false ∧ c ≠ '*' ∧ c ≠ '?' := by decide
  exact all c (Text.mem_digits digit)

section

variable {rest next : List Char} (behind : Behind rest next)
include behind

theorem Behind.skipGap : skipGap rest = next := by
  cases behind with
  | nothing => rfl
  | field s opens =>
    have space : isGap ' ' = true := by decide
    simp [Cron.skipGap,space,opens.1]

theorem Behind.skipGap_next : Cron.skipGap next = next := by
  cases behind with
  | nothing => rfl
  | field s opens => exact skipGap_cons opens.1 s

theorem Behind.skipChar_next {c : Char} (mark : c = '-' ∨ c = '/' ∨ c = ',') :
    skipChar c next = none := by
  cases behind with
  | nothing => rfl
  | field s opens => rcases mark with rfl | rfl | rfl <;> simp [skipChar,opens.2]

theorem Behind.skipChar_rest {c : Char} (mark : c = '-' ∨ c = '/' ∨ c = ',') :
    skipChar c rest = none := by
  cases behind with
  | nothing => rfl
  | field s opens => rcases mark with rfl | rfl | rfl <;> simp [skipChar]

end

theorem takeMore_of_noComma {kind : FieldKind} {fuel : Nat} {s : List Char}
    (noComma : skipChar ',' s = none) : takeMore kind fuel s = ([],s) := by
  cases fuel with
  | zero => rfl
  | succ fuel => simp [takeMore,noComma]

/-- Whatever is neither digit nor letter nor one of two signs starts no field. -/
structure Foreign (c : Char) : Prop where
  noGap : isGap c = false
  noDigit : c.isDigit = false
  noAlpha : c.isAlpha = false
  noStar : c ≠ '*'
  noQuestion : c ≠ '?'

theorem takeNumber_of_noDigit {c : Char} (noGap : isGap c = false) (noDigit : c.isDigit = false)
    (s : List Char) : takeNumber (c :: s) = none := by
  simp [takeNumber,skipGap_cons noGap,noDigit,Text.decimal?,Text.digits?]

theorem takeName_of_noAlpha {c : Char} (noGap : isGap c = false) (noAlpha : c.isAlpha = false)
    (s : List Char) : takeName (c :: s) = none := by
  simp [takeName,skipGap_cons noGap,noAlpha]

theorem takeName_numeral {t : List Char} (numeral : Numeral t) (rest : List Char) :
    takeName (t ++ rest) = none := by
  obtain ⟨c,s,rfl,digit⟩ := numeral.exists_cons
  exact takeName_of_noAlpha (opens_of_isDigit digit).1 (apart_of_isDigit digit).1 (s ++ rest)

theorem takeField_foreign {c : Char} (foreign : Foreign c) (kind : FieldKind) (s : List Char) :
    takeField kind (c :: s) = none := by
  have noNumber := takeNumber_of_noDigit foreign.noGap foreign.noDigit s
  have noName := takeName_of_noAlpha foreign.noGap foreign.noAlpha s
  have noSpan : takeSpan kind (c :: s) = none := by
    simp [takeSpan,takeRange,takeNamedRange,skipChar,noNumber,noName,foreign.noStar,
      foreign.noQuestion]
  have noItem : takeItem kind (c :: s) = none := by simp [takeItem,takeStepped,noSpan,noName]
  rw [takeField,skipGap_cons foreign.noGap,noItem]
  rfl

section

variable {t rest next : List Char} (behind : Behind rest next) (numeral : Numeral t)
  (kind : FieldKind)
include behind numeral

theorem takeNumber_numeral : takeNumber (t ++ rest) =
    (Text.decimal? word t).map fun n => (n,next) := by
  have taken : (t ++ rest).takeWhile Char.isDigit = t := by
    rw [List.takeWhile_append_of_pos numeral.digits]
    cases behind <;> simp
  have dropped : (t ++ rest).dropWhile Char.isDigit = rest := by
    rw [List.dropWhile_append_of_pos numeral.digits]
    cases behind <;> simp
  rw [takeNumber,skipGap_numeral numeral,taken,dropped,behind.skipGap]
  rfl

theorem takeSpan_numeral : takeSpan kind (t ++ rest) =
    (Text.decimal? word t).map fun n => (.one n,next) := by
  have number := takeNumber_numeral behind numeral
  have noDash := behind.skipChar_next (.inl rfl)
  have noName := takeName_numeral numeral rest
  obtain ⟨c,s,rfl,digit⟩ := numeral.exists_cons
  obtain ⟨-,noStar,noQuestion⟩ := apart_of_isDigit digit
  rw [List.cons_append] at number noName ⊢
  cases value : Text.decimal? word (c :: s) <;>
    simp [takeSpan,takeRange,takeNamedRange,skipChar_cons,number,value,noDash,noName,noStar,
      noQuestion]

theorem takeItem_numeral : takeItem kind (t ++ rest) =
    (Text.decimal? word t).map fun n => (.span (.one n),next) := by
  have span := takeSpan_numeral behind numeral kind
  have noSlash := behind.skipChar_next (.inr (.inl rfl))
  have noName := takeName_numeral numeral rest
  cases value : Text.decimal? word t <;>
    simp [takeItem,takeStepped,span,value,noSlash,noName]

theorem takeField_numeral : takeField kind (t ++ rest) = (Text.decimal? word t).bind fun n =>
    if kind.admits n then some ([.span (.one n)],next) else none := by
  have noMore : takeMore kind next.length next = ([],next) :=
    takeMore_of_noComma (behind.skipChar_next (.inr (.inr rfl)))
  rw [takeField,skipGap_numeral numeral,takeItem_numeral behind numeral]
  cases Text.decimal? word t with
  | none => rfl
  | some n => simp [noMore,behind.skipGap_next,FieldKind.admitsItem,FieldKind.admitsSpan]

end

theorem takeField_star {rest next : List Char} (behind : Behind rest next) (kind : FieldKind) :
    takeField kind ('*' :: rest) = some ([.span .all],next) := by
  -- blanks behind a star are left, unlike those behind a number, so marks are looked for in front of them
  have noSlash := behind.skipChar_rest (.inr (.inl rfl))
  have noMore : takeMore kind rest.length rest = ([],rest) :=
    takeMore_of_noComma (behind.skipChar_rest (.inr (.inr rfl)))
  have span : takeSpan kind ('*' :: rest) = some (.all,rest) := by
    cases question : kind.allowsQuestion <;> simp [takeSpan,skipChar_cons,question]
  have item : takeItem kind ('*' :: rest) = some (.span .all,rest) := by
    simp [takeItem,takeStepped,span,noSlash]
  rw [takeField,skipGap_cons (by decide),item]
  simp [noMore,behind.skipGap,FieldKind.admitsItem,FieldKind.admitsSpan]

variable {t : List Char}

/-- A token that may be taken for a number, or a star. A plus sign is part of no number in a line. -/
inductive Plain : List Char → Prop
  | numeral {t : List Char} (numeral : Numeral t) : Plain t
  | signed (t : List Char) : Plain ('+' :: t)
  | star : Plain ['*']

/-- What a field consists of that is such a token. -/
inductive Means (kind : FieldKind) : List Char → List Item → Prop
  | number {t : List Char} {n : Nat} (value : Text.decimal? word t = some n)
      (admitted : kind.admits n = true) : Means kind t [.span (.one n)]
  | star : Means kind ['*'] [.span .all]

theorem means_of_takeField {kind : FieldKind} {items : List Item} {rest next left : List Char}
    (plain : Plain t) (behind : Behind rest next)
    (taken : takeField kind (t ++ rest) = some (items,left)) :
    Means kind t items ∧ left = next := by
  cases plain with
  | numeral numeral =>
    rw [takeField_numeral behind numeral,Option.bind_eq_some_iff] at taken
    obtain ⟨n,value,taken⟩ := taken
    split at taken
    next admitted =>
      cases taken
      exact ⟨.number value admitted,rfl⟩
    next => cases taken
  | signed t =>
    have foreign : Foreign '+' := by constructor <;> decide
    rw [List.cons_append,takeField_foreign foreign] at taken
    cases taken
  | star =>
    rw [List.singleton_append,takeField_star behind] at taken
    cases taken
    exact ⟨.star,rfl⟩

theorem Plain.behind (plain : Plain t) (s : List Char) : Behind (' ' :: (t ++ s)) (t ++ s) := by
  cases plain with
  | numeral numeral =>
    obtain ⟨c,t,rfl,digit⟩ := numeral.exists_cons
    exact .field _ (opens_of_isDigit digit)
  | signed t => exact .field _ (by decide)
  | star => exact .field _ (by decide)

/-- A line of six such tokens, with nothing about the year. -/
structure MeansAll (second minute hour day month weekday : List Char) (line : Line) : Prop where
  second : Means Cron.second second line.second
  minute : Means Cron.minute minute line.minute
  hour : Means Cron.hour hour line.hour
  day : Means Cron.dayOfMonth day line.dayOfMonth
  month : Means Cron.month month line.month
  weekday : Means Cron.dayOfWeek weekday line.dayOfWeek
  year : line.year = none

theorem meansAll_of_read? {second minute hour day month weekday : List Char} {line : Line}
    (plain : ∀ t ∈ [second,minute,hour,day,month,weekday], Plain t)
    (read : read? (Recurrence.spaced [second,minute,hour,day,month,weekday]) = some line) :
    MeansAll second minute hour day month weekday line := by
  simp only [List.forall_mem_cons] at plain
  obtain ⟨plainSecond,plainMinute,plainHour,plainDay,plainMonth,plainWeekday,-⟩ := plain
  simp only [read?,Recurrence.spaced,bind,Option.bind_eq_some_iff,Prod.exists] at read
  obtain ⟨sec,_,takenSecond,min,_,takenMinute,hr,_,takenHour,dom,_,takenDay,mon,_,takenMonth,dow,_,
    takenWeekday,read⟩ := read
  -- each field leaves the text that starts with the token of the next one
  obtain ⟨meansSecond,rfl⟩ := means_of_takeField plainSecond (plainMinute.behind _) takenSecond
  obtain ⟨meansMinute,rfl⟩ := means_of_takeField plainMinute (plainHour.behind _) takenMinute
  obtain ⟨meansHour,rfl⟩ := means_of_takeField plainHour (plainDay.behind _) takenHour
  obtain ⟨meansDay,rfl⟩ := means_of_takeField plainDay (plainMonth.behind _) takenDay
  have last : Behind (' ' :: weekday) weekday := by simpa using plainWeekday.behind []
  obtain ⟨meansMonth,same⟩ := means_of_takeField plainMonth last takenMonth
  rw [same,← List.append_nil weekday] at takenWeekday
  obtain ⟨meansWeekday,rfl⟩ := means_of_takeField plainWeekday .nothing takenWeekday
  cases read
  exact ⟨meansSecond,meansMinute,meansHour,meansDay,meansMonth,meansWeekday,rfl⟩

end Cron

end PipelineAtlas

import PipelineAtlas.Definition
import PipelineAtlas.Proofs.Instant.Calendar
import PipelineAtlas.Proofs.Text.Word
import PipelineAtlas.Proofs.Text.Token

/-! The forms in which an instant can be given. A text has one of them at most, so that it does not matter
which is tried first, and what several forms can say they say alike. -/
namespace PipelineAtlas

open Text

/-- A number written with leading zeros up to a width. -/
structure Numeral (width n : Nat) (s : List Char) : Prop where
  width : s.length = width
  digits : ∀ c ∈ s, c.isDigit = true
  value : digitsFrom 10 0 s = some n

theorem numeral_padded {width n : Nat} (some : 0 < width) (fits : n < 10 ^ width) :
    Numeral width n (padded width n).toList := by
  have shown : (padded width n).toList =
      List.replicate (width - (Nat.toDigits 10 n).length) '0' ++ Nat.toDigits 10 n := by
    have number : (toString n).toList = Nat.toDigits 10 n := Nat.toList_repr
    rw [padded,String.toList_append,String.toList_ofList,number,← String.length_toList,number]
  have short := (Nat.length_toDigits_le_iff (by decide) some).mpr fits
  have digits : ∀ c ∈ (padded width n).toList, c.isDigit = true := by
    intro c inside
    rw [shown,List.mem_append] at inside
    rcases inside with zero | digit
    · rw [(List.mem_replicate.mp zero).2]
      rfl
    · exact Nat.isDigit_of_mem_toDigits (by decide) (by decide) digit
  refine ⟨?_,digits,?_⟩
  · rw [shown,List.length_append,List.length_replicate]
    omega
  · rw [digitsFrom_ten digits,shown,Nat.ofDigitChars_append,Nat.ofDigitChars_replicate_zero,Nat.mul_zero,
      Nat.ofDigitChars_ten_toDigits]

theorem visible_of_isDigit {c : Char} (digit : c.isDigit = true) : isBlank c = false :=
  isBlank_of_isAsciiWord (by simp [isAsciiWord,Char.isAlphanum,digit])

namespace Numeral

variable {width n : Nat} {s : List Char} (numeral : Numeral width n s)

include numeral

theorem exists_cons (some : 0 < width) (rest : List Char) :
    ∃ c t, s ++ rest = c :: t ∧ c.isDigit = true := by
  cases s with
  | nil => exact absurd numeral.width (Nat.ne_of_lt some)
  | cons c s => exact ⟨c,s ++ rest,rfl,numeral.digits c List.mem_cons_self⟩

theorem trimLeft (some : 0 < width) (rest : List Char) : Text.trimLeft (s ++ rest) = s ++ rest := by
  obtain ⟨c,t,start,digit⟩ := numeral.exists_cons some rest
  rw [start,Text.trimLeft,List.dropWhile_cons_of_neg (by simp [visible_of_isDigit digit])]

theorem visible_getLast? (some : 0 < width) (front : List Char) :
    ∀ c ∈ (front ++ s).getLast?, isBlank c = false := by
  intro c last
  have nonempty : s ≠ [] := by
    rw [← List.length_pos_iff,numeral.width]
    exact some
  rw [List.getLast?_append,Option.or_of_isSome (by simpa using nonempty)] at last
  exact visible_of_isDigit (numeral.digits c (List.mem_of_getLast? last))

/-- As many digits as are allowed are taken, whatever follows them. -/
theorem takeDigits {least : Nat} (fits : least ≤ width) (rest : List Char) :
    Instant.takeDigits least width (s ++ rest) = some (n,rest) := by
  have run : ((s ++ rest).take width).takeWhile Char.isDigit = s := by
    rw [← numeral.width,List.take_left]
    exact List.takeWhile_eq_self_iff.mpr numeral.digits
  simp only [Instant.takeDigits,run,numeral.width,numeral.value]
  rw [if_neg (by omega),Option.map_some,← numeral.width,List.drop_left]

end Numeral

theorem numeral_of_takeDigits {width n : Nat} {s rest : List Char}
    (taken : Instant.takeDigits width width s = some (n,rest)) :
    ∃ digits, Numeral width n digits ∧ s = digits ++ rest := by
  simp only [Instant.takeDigits] at taken
  split at taken
  next => cases taken
  next enough =>
    obtain ⟨m,value,same⟩ := Option.map_eq_some_iff.mp taken
    obtain ⟨rfl,rfl⟩ := Prod.mk.inj same
    have start : (s.take width).takeWhile Char.isDigit <+: s :=
      (List.takeWhile_prefix _).trans (List.take_prefix width s)
    have most := (List.takeWhile_prefix Char.isDigit (l := s.take width)).length_le
    rw [List.length_take] at most
    refine ⟨_,⟨by omega,fun c inside => List.mem_takeWhile_imp inside,value⟩,?_⟩
    exact (List.prefix_iff_eq_append.mp start).symm

namespace Instant

/-- A date of a year with four digits, as in `2024-02-29`. -/
inductive Dated (d : Date) : List Char → Prop
  | mk {year month day : Nat} {y m k : List Char} (first : Numeral 4 year y) (second : Numeral 2 month m)
      (third : Numeral 2 day k) (real : Date.of? year month day = some d) :
      Dated d (y ++ '-' :: (m ++ '-' :: k))

/-- A time in whole seconds, as in `23:59:60`. -/
inductive Timed (c : Clock) : List Char → Prop
  | mk {hour minute second : Nat} {h m s : List Char} (first : Numeral 2 hour h)
      (middle : Numeral 2 minute m) (last : Numeral 2 second s)
      (real : Clock.of? hour minute second 0 = some c) : Timed c (h ++ ':' :: (m ++ ':' :: s))

def offsetSeconds (hours minutes : Nat) : Nat := hours * 3600 + minutes * 60

/-- By how many seconds a place is ahead of universal time, as in `+01:30`. -/
inductive Offset : Int → List Char → Prop
  | universal : Offset 0 ['Z']
  | ahead {hours minutes : Nat} {h m : List Char} (hour : Numeral 2 hours h) (day : hours < 24)
      (minute : Numeral 2 minutes m) (full : minutes < 60) :
      Offset (offsetSeconds hours minutes) ('+' :: (h ++ ':' :: m))
  | behind {hours minutes : Nat} {h m : List Char} (hour : Numeral 2 hours h) (day : hours < 24)
      (minute : Numeral 2 minutes m) (full : minutes < 60) :
      Offset (-offsetSeconds hours minutes) ('-' :: (h ++ ':' :: m))

theorem takeYear_numeral {n : Nat} {s : List Char} (numeral : Numeral 4 n s) (rest : List Char) :
    takeYear (s ++ rest) = some ((n : Int),rest) := by
  have least : 1 ≤ 4 := by decide
  have taken := numeral.takeDigits least rest
  obtain ⟨c,t,start,digit⟩ := numeral.exists_cons (by decide) rest
  have trimmed := numeral.trimLeft (by decide) rest
  rw [start] at trimmed taken
  rw [takeYear,start,trimmed]
  split
  next same =>
    obtain ⟨rfl,-⟩ := List.cons.inj same
    exact absurd digit (by decide)
  next same =>
    obtain ⟨rfl,-⟩ := List.cons.inj same
    exact absurd digit (by decide)
  next => rw [taken,Option.map_some]

theorem takePair_numeral {n : Nat} {s : List Char} (numeral : Numeral 2 n s) (rest : List Char) :
    takePair (s ++ rest) = some (n,rest) := by
  rw [takePair,numeral.trimLeft (by decide)]
  exact numeral.takeDigits (by decide) rest

section Reading

variable {d : Date} {c : Clock} {n : Int} {s t u : List Char} (dated : Dated d s) (timed : Timed c t)

include dated in
theorem takeDate_dated (rest : List Char) : takeDate (s ++ rest) = some (d,rest) := by
  obtain ⟨first,second,third,real⟩ := dated
  simp only [takeDate,List.append_assoc,List.cons_append,takeYear_numeral first,skipChar_self,
    takePair_numeral second,takePair_numeral third,real,Option.bind_eq_bind,Option.bind_some]

include timed in
theorem takeClock_timed (rest : List Char) : takeClock (t ++ rest) = some (c,rest) := by
  obtain ⟨first,middle,last,real⟩ := timed
  simp only [takeClock,List.append_assoc,List.cons_append,takePair_numeral first,skipChar_self,
    takePair_numeral middle,takePair_numeral last,real,Option.bind_eq_bind,Option.bind_some]

include dated in
theorem plainDate?_dated : plainDate? s = some (ofUniversal d Clock.midnight) := by
  have taken := takeDate_dated dated []
  rw [List.append_nil] at taken
  simp [plainDate?,taken]

include dated timed in
theorem dateTime?_timed : dateTime? (s ++ 'T' :: t) = some (ofUniversal d c) := by
  have taken := takeClock_timed timed []
  rw [List.append_nil] at taken
  simp [dateTime?,takeDate_dated dated,skipChar_self,taken]

theorem takeOffset_offset (offset : Offset n u) : takeOffset u = some (n,[]) := by
  have size {hours minutes : Nat} {h m : List Char} (hour : Numeral 2 hours h) (day : hours < 24)
      (minute : Numeral 2 minutes m) (full : minutes < 60) :
      takeOffsetSize (h ++ ':' :: m) = some (offsetSeconds hours minutes,[]) := by
    have taken := minute.takeDigits (Nat.le_refl 2) []
    rw [List.append_nil] at taken
    simp [takeOffsetSize,hour.takeDigits (Nat.le_refl 2),skipChar_self,taken,day,full,offsetSeconds]
  cases offset with
  | universal => rfl
  | ahead hour day minute full => simp [takeOffset,size hour day minute full]
  | behind hour day minute full => simp [takeOffset,size hour day minute full]

include dated timed in
theorem timestamp?_offset (offset : Offset n u) :
    timestamp? (s ++ 'T' :: (t ++ u)) = some (ofLocal d c n) := by
  have noFraction : takeFraction u = some (0,u) := by cases offset <;> rfl
  have mark (rest : List Char) : skipDateMark ('T' :: rest) = some rest := rfl
  obtain ⟨year,month,day,date⟩ := dated
  obtain ⟨hour,minute,second,clock⟩ := timed
  simp only [List.append_assoc,List.cons_append]
  unfold timestamp?
  refine Option.bind_eq_some_iff.mpr ⟨_,year.takeDigits (Nat.le_refl 4) _,?_⟩
  refine Option.bind_eq_some_iff.mpr ⟨_,skipChar_self '-' _,?_⟩
  refine Option.bind_eq_some_iff.mpr ⟨_,month.takeDigits (Nat.le_refl 2) _,?_⟩
  refine Option.bind_eq_some_iff.mpr ⟨_,skipChar_self '-' _,?_⟩
  refine Option.bind_eq_some_iff.mpr ⟨_,day.takeDigits (Nat.le_refl 2) _,?_⟩
  refine Option.bind_eq_some_iff.mpr ⟨_,mark _,?_⟩
  refine Option.bind_eq_some_iff.mpr ⟨_,hour.takeDigits (Nat.le_refl 2) _,?_⟩
  refine Option.bind_eq_some_iff.mpr ⟨_,skipChar_self ':' _,?_⟩
  refine Option.bind_eq_some_iff.mpr ⟨_,minute.takeDigits (Nat.le_refl 2) _,?_⟩
  refine Option.bind_eq_some_iff.mpr ⟨_,skipChar_self ':' _,?_⟩
  refine Option.bind_eq_some_iff.mpr ⟨_,second.takeDigits (Nat.le_refl 2) _,?_⟩
  refine Option.bind_eq_some_iff.mpr ⟨_,noFraction,?_⟩
  refine Option.bind_eq_some_iff.mpr ⟨_,takeOffset_offset offset,?_⟩
  refine Option.bind_eq_some_iff.mpr ⟨_,date,?_⟩
  exact Option.bind_eq_some_iff.mpr ⟨_,clock,rfl⟩

end Reading

theorem rest_of_takeOffset {s rest rest' : List Char} {nanos : Nat} {n : Int}
    (fraction : takeFraction s = some (nanos,rest)) (offset : takeOffset rest = some (n,rest')) :
    s ≠ [] := by
  rintro rfl
  cases fraction
  cases offset

theorem split_of_skipDateMark {s rest : List Char} (skipped : skipDateMark s = some rest) :
    ∃ mark, s = mark :: rest := by
  cases s with
  | nil => cases skipped
  | cons mark s =>
    simp only [skipDateMark] at skipped
    split at skipped
    next =>
      cases skipped
      exact ⟨mark,rfl⟩
    next => cases skipped

theorem whole_of_clock {hour minute second nanos : Nat} {c : Clock}
    (real : Clock.of? hour minute second nanos = some c) :
    ∃ c', Clock.of? hour minute second 0 = some c' := by
  unfold Clock.of? at real ⊢
  split at real
  next shown => exact ⟨_,if_pos shown⟩
  next => cases real

theorem parts_of_timestamp? {s : List Char} {i : Instant} (read : timestamp? s = some i) :
    ∃ d c s₁ mark s₂ rest, Dated d s₁ ∧ Timed c s₂ ∧ s = s₁ ++ mark :: (s₂ ++ rest) ∧ rest ≠ [] := by
  unfold timestamp? at read
  obtain ⟨⟨_,_⟩,year,read⟩ := Option.bind_eq_some_iff.mp read
  obtain ⟨_,dash,read⟩ := Option.bind_eq_some_iff.mp read
  obtain ⟨⟨_,_⟩,month,read⟩ := Option.bind_eq_some_iff.mp read
  obtain ⟨_,dash',read⟩ := Option.bind_eq_some_iff.mp read
  obtain ⟨⟨_,_⟩,day,read⟩ := Option.bind_eq_some_iff.mp read
  obtain ⟨_,marked,read⟩ := Option.bind_eq_some_iff.mp read
  obtain ⟨⟨_,_⟩,hour,read⟩ := Option.bind_eq_some_iff.mp read
  obtain ⟨_,colon,read⟩ := Option.bind_eq_some_iff.mp read
  obtain ⟨⟨_,_⟩,minute,read⟩ := Option.bind_eq_some_iff.mp read
  obtain ⟨_,colon',read⟩ := Option.bind_eq_some_iff.mp read
  obtain ⟨⟨_,rest⟩,second,read⟩ := Option.bind_eq_some_iff.mp read
  obtain ⟨⟨_,_⟩,fraction,read⟩ := Option.bind_eq_some_iff.mp read
  obtain ⟨⟨_,_⟩,offset,read⟩ := Option.bind_eq_some_iff.mp read
  obtain ⟨d,date,read⟩ := Option.bind_eq_some_iff.mp read
  obtain ⟨c,clock,-⟩ := Option.bind_eq_some_iff.mp read
  obtain ⟨y,yearText,split⟩ := numeral_of_takeDigits year
  obtain ⟨m,monthText,splitMonth⟩ := numeral_of_takeDigits month
  obtain ⟨k,dayText,splitDay⟩ := numeral_of_takeDigits day
  obtain ⟨mark,splitMark⟩ := split_of_skipDateMark marked
  obtain ⟨h,hourText,splitHour⟩ := numeral_of_takeDigits hour
  obtain ⟨n,minuteText,splitMinute⟩ := numeral_of_takeDigits minute
  obtain ⟨l,secondText,splitSecond⟩ := numeral_of_takeDigits second
  obtain ⟨c',clock'⟩ := whole_of_clock clock
  refine ⟨d,c',_,mark,_,rest,.mk yearText monthText dayText date,
    .mk hourText minuteText secondText clock',?_,rest_of_takeOffset fraction offset⟩
  simp [split,skipChar_eq_some.mp dash,splitMonth,skipChar_eq_some.mp dash',splitDay,splitMark,splitHour,
    skipChar_eq_some.mp colon,splitMinute,skipChar_eq_some.mp colon',splitSecond]

theorem dateTime?_parts {s : List Char} {i : Instant} (read : dateTime? s = some i) :
    ∃ d rest, takeDate s = some (d,'T' :: rest) := by
  simp only [dateTime?,Option.bind_eq_bind,Option.bind_eq_some_iff,Prod.exists] at read
  obtain ⟨d,_,date,rest,mark,-⟩ := read
  exact ⟨d,rest,skipChar_eq_some.mp mark ▸ date⟩

theorem plainDate?_of_rest {s rest : List Char} {d : Date} (date : takeDate s = some (d,rest))
    (more : rest ≠ []) : plainDate? s = none := by
  simp [plainDate?,date,more]

theorem apart_of_timestamp? {s : List Char} {i : Instant} (read : timestamp? s = some i) :
    dateTime? s = none ∧ plainDate? s = none := by
  obtain ⟨d,c,s₁,mark,s₂,rest,dated,timed,rfl,more⟩ := parts_of_timestamp? read
  have date := takeDate_dated dated (mark :: (s₂ ++ rest))
  have clock := takeClock_timed timed rest
  refine ⟨?_,plainDate?_of_rest date (List.cons_ne_nil _ _)⟩
  by_cases same : mark = 'T'
  · subst same
    simp [dateTime?,date,skipChar_self,clock,more]
  · simp [dateTime?,date,skipChar,same]

theorem apart_of_dateTime? {s : List Char} {i : Instant} (read : dateTime? s = some i) :
    plainDate? s = none := by
  obtain ⟨d,rest,date⟩ := dateTime?_parts read
  exact plainDate?_of_rest date (List.cons_ne_nil _ _)

def forms : List (List Char → Option Instant) := [timestamp?,dateTime?,plainDate?]

/-- No text has two of the forms. -/
theorem pairwise_forms (s : List Char) : forms.Pairwise fun p q => p s = none ∨ q s = none := by
  have first : timestamp? s = none ∨ dateTime? s = none ∧ plainDate? s = none := by
    cases read : timestamp? s with
    | none => exact .inl rfl
    | some i => exact .inr (apart_of_timestamp? read)
  have second : dateTime? s = none ∨ plainDate? s = none := by
    cases read : dateTime? s with
    | none => exact .inl rfl
    | some i => exact .inr (apart_of_dateTime? read)
  simpa [forms] using ⟨⟨first.imp_right And.left,first.imp_right And.right⟩,second⟩

theorem findSome?_perm {readers others : List (List Char → Option Instant)} {s : List Char}
    (order : readers.Perm others) (apart : readers.Pairwise fun p q => p s = none ∨ q s = none) :
    readers.findSome? (· s) = others.findSome? (· s) := by
  induction order with
  | nil => rfl
  | cons p order ih =>
    rw [List.findSome?_cons,List.findSome?_cons,ih (List.pairwise_cons.mp apart).2]
  | swap p q readers =>
    have one := (List.pairwise_cons.mp apart).1 p List.mem_cons_self
    simp only [List.findSome?_cons]
    rcases one with none | none <;> rw [none]
  | trans order order' ih ih' =>
    have later := apart.perm order fun one => one.symm
    rw [ih apart,ih' later]

theorem read?_eq (s : List Char) : read? s = forms.findSome? (· (trim s)) := by
  simp only [read?,forms,List.findSome?_cons,List.findSome?_nil]
  cases timestamp? (trim s) <;> cases dateTime? (trim s) <;> cases plainDate? (trim s) <;> rfl

/-- The reader that succeeds decides, wherever it stands. -/
theorem read?_of_form {s : List Char} {i : Instant} {p : List Char → Option Instant} (form : p ∈ forms)
    (read : p (trim s) = some i) : read? s = some i := by
  obtain ⟨front,behind,split⟩ := List.append_of_mem form
  have first : forms.Perm (p :: (front ++ behind)) := split ▸ List.perm_middle
  rw [read?_eq,findSome?_perm first (pairwise_forms (trim s)),List.findSome?_cons,read]

theorem trim_dated {d : Date} {s t : List Char} (dated : Dated d s)
    (last : ∀ c ∈ (s ++ t).getLast?, isBlank c = false) : trim (s ++ t) = s ++ t := by
  refine trim_of_ends (fun x first => ?_) last
  obtain ⟨year,-,-,-⟩ := dated
  rw [List.append_assoc] at first
  obtain ⟨c,rest,start,digit⟩ := year.exists_cons (by decide) (_ ++ t)
  rw [start] at first
  cases first
  exact visible_of_isDigit digit

def later (i : Instant) (seconds : Int) : Instant := ⟨i.seconds + seconds,i.nanos⟩

theorem later_zero (i : Instant) : i.later 0 = i := by
  rw [later,Int.add_zero]

theorem ofLocal_eq (d : Date) (c : Clock) (n : Int) : ofLocal d c n = (ofUniversal d c).later (-n) := by
  simp only [ofUniversal,ofLocal,later,Instant.mk.injEq,and_true]
  omega

section Forms

variable {d : Date} {c : Clock} {n : Int} {s t u : List Char} (dated : Dated d s) (timed : Timed c t)

include dated

theorem read?_dated : read? s = some (ofUniversal d Clock.midnight) := by
  have last : ∀ c ∈ (s ++ []).getLast?, isBlank c = false := by
    obtain @⟨_,_,_,y,m,k,-,-,day,-⟩ := dated
    simpa using day.visible_getLast? (by decide) (y ++ '-' :: (m ++ ['-']))
  have trimmed := trim_dated dated last
  rw [List.append_nil] at trimmed
  apply read?_of_form (p := plainDate?) (by simp [forms])
  rw [trimmed]
  exact plainDate?_dated dated

include timed

theorem read?_timed : read? (s ++ 'T' :: t) = some (ofUniversal d c) := by
  have last : ∀ c ∈ (s ++ 'T' :: t).getLast?, isBlank c = false := by
    obtain @⟨_,_,_,h,m,_,-,-,second,-⟩ := timed
    simpa using second.visible_getLast? (by decide) (s ++ 'T' :: (h ++ ':' :: (m ++ [':'])))
  apply read?_of_form (p := dateTime?) (by simp [forms])
  rw [trim_dated dated last]
  exact dateTime?_timed dated timed

theorem read?_offset (offset : Offset n u) :
    read? (s ++ 'T' :: (t ++ u)) = some ((ofUniversal d c).later (-n)) := by
  have last : ∀ c ∈ (s ++ 'T' :: (t ++ u)).getLast?, isBlank c = false := by
    cases offset with
    | universal =>
      have ends : s ++ 'T' :: (t ++ ['Z']) = (s ++ 'T' :: t) ++ ['Z'] := by simp
      rw [ends,List.getLast?_concat]
      intro c same
      obtain rfl := Option.some.inj same
      decide
    | @ahead _ _ h _ _ _ minute _ =>
      simpa using minute.visible_getLast? (by decide) (s ++ 'T' :: (t ++ '+' :: (h ++ [':'])))
    | @behind _ _ h _ _ _ minute _ =>
      simpa using minute.visible_getLast? (by decide) (s ++ 'T' :: (t ++ '-' :: (h ++ [':'])))
  apply read?_of_form (p := timestamp?) (by simp [forms])
  rw [trim_dated dated last,← ofLocal_eq]
  exact timestamp?_offset dated timed offset

end Forms

structure FourDigits (d : Date) : Prop where
  real : d.OnCalendar
  early : 0 ≤ d.year
  late : d.year ≤ 9999

def offsetText (hours minutes : Nat) : String := padded 2 hours ++ ":" ++ padded 2 minutes

theorem dated_dateText {d : Date} (fourDigits : FourDigits d) : Dated d (dateText d).toList := by
  obtain ⟨real,early,late⟩ := fourDigits
  have month := real.month
  have day : d.day ≤ 31 := by
    have last := real.last
    unfold daysInMonth at last
    split at last <;> try split at last
    all_goals omega
  have shown : (dateText d).toList = (padded 4 d.year.toNat).toList ++
      '-' :: ((padded 2 d.month).toList ++ '-' :: (padded 2 d.day).toList) := by
    simp [dateText,yearText,early,late]
  rw [shown]
  refine .mk (numeral_padded (by decide) (by omega)) (numeral_padded (by decide) (by omega))
    (numeral_padded (by decide) (by omega)) ?_
  rw [Int.toNat_of_nonneg early,Date.of?,if_pos]
  exact ⟨Int.le_trans (by decide) early,Int.le_trans late (by decide),real.first,real.last⟩

theorem timed_clockText {c : Clock} (onClock : OnClock c) (whole : c.nanos = 0) :
    Timed c (clockText c).toList := by
  obtain ⟨hour,minute,second,-⟩ := onClock
  have shown : (clockText c).toList = (padded 2 c.hour).toList ++
      ':' :: ((padded 2 c.minute).toList ++ ':' :: (padded 2 c.second).toList) := by
    simp [clockText]
  rw [shown]
  refine .mk (numeral_padded (by decide) (by omega)) (numeral_padded (by decide) (by omega))
    (numeral_padded (by decide) (by omega)) ?_
  rw [Clock.of?,if_pos ⟨hour,minute,second⟩,← whole]

theorem toList_offsetText (hours minutes : Nat) : (offsetText hours minutes).toList =
    (padded 2 hours).toList ++ ':' :: (padded 2 minutes).toList := by
  simp [offsetText]

theorem offset_offsetText {hours minutes : Nat} (day : hours < 24) (full : minutes < 60) :
    Offset (offsetSeconds hours minutes) ('+' :: (offsetText hours minutes).toList) ∧
      Offset (-offsetSeconds hours minutes) ('-' :: (offsetText hours minutes).toList) := by
  have hour : Numeral 2 hours (padded 2 hours).toList := numeral_padded (by decide) (by omega)
  have minute : Numeral 2 minutes (padded 2 minutes).toList := numeral_padded (by decide) (by omega)
  rw [toList_offsetText]
  exact ⟨.ahead hour day minute full,.behind hour day minute full⟩

end Instant

open Instant in
theorem Definition.readStart_of_read? {text : String} {i : Instant} (read : read? text.toList = some i) :
    readStart text = .ok i := by
  rw [readStart,read]

open Instant in
/-- A date alone, at midnight and at midnight of universal time is one instant. A time without an offset is
one of universal time, whose instant shows the date and the time again, and an offset is taken off. Each
text has one form at most, so that the forms can be tried in any order, and white space around it does not
count. -/
theorem Definition.readStart_of_forms :
    (∀ d c, FourDigits d → OnClock c → c.nanos = 0 →
      (readStart (dateText d) = .ok (ofUniversal d Clock.midnight) ∧
        readStart (dateText d ++ "T00:00:00") = .ok (ofUniversal d Clock.midnight) ∧
        readStart (dateText d ++ "T00:00:00Z") = .ok (ofUniversal d Clock.midnight)) ∧
      (readStart (dateText d ++ "T" ++ clockText c) = .ok (ofUniversal d c) ∧
        readStart (dateText d ++ "T" ++ clockText c ++ "Z") = .ok (ofUniversal d c)) ∧
      ((ofUniversal d c).date = d ∧ (ofUniversal d c).clock = c) ∧
      ∀ hours minutes, hours < 24 → minutes < 60 →
        readStart (dateText d ++ "T" ++ clockText c ++ "+" ++ offsetText hours minutes) =
          .ok ((ofUniversal d c).later (-offsetSeconds hours minutes)) ∧
        readStart (dateText d ++ "T" ++ clockText c ++ "-" ++ offsetText hours minutes) =
          .ok ((ofUniversal d c).later (offsetSeconds hours minutes))) ∧
    (∀ s, forms.Pairwise fun p q => p s = none ∨ q s = none) ∧
    (∀ order, forms.Perm order → ∀ s, read? s = order.findSome? (· (trim s))) ∧
    ∀ before text behind : String, (∀ c ∈ before.toList, isBlank c = true) →
      (∀ c ∈ behind.toList, isBlank c = true) →
      readStart (before ++ text ++ behind) = readStart text := by
  refine ⟨fun d c fourDigits onClock whole => ?_,pairwise_forms,fun order same s => ?_,
    fun before text behind first last => ?_⟩
  · have dated := dated_dateText fourDigits
    have timed := timed_clockText onClock whole
    have midnight : Timed Clock.midnight "00:00:00".toList :=
      timed_clockText (c := Clock.midnight) ⟨by decide,by decide,by decide,by decide⟩ rfl
    refine ⟨⟨?_,?_,?_⟩,⟨?_,?_⟩,⟨?_,?_⟩,fun hours minutes day full => ?_⟩
    · exact readStart_of_read? (read?_dated dated)
    · exact readStart_of_read? (by simpa using read?_timed dated midnight)
    · exact readStart_of_read? (by simpa [later_zero] using read?_offset dated midnight .universal)
    · exact readStart_of_read? (by simpa using read?_timed dated timed)
    · exact readStart_of_read? (by simpa [later_zero] using read?_offset dated timed .universal)
    · exact date_ofUniversal fourDigits.real onClock
    · exact clock_ofUniversal onClock
    · obtain ⟨ahead,behind⟩ := offset_offsetText day full
      constructor
      · exact readStart_of_read? (by simpa using read?_offset dated timed ahead)
      · exact readStart_of_read? (by simpa using read?_offset dated timed behind)
  · rw [read?_eq,findSome?_perm same (pairwise_forms (trim s))]
  · have trimmed : trim (before ++ text ++ behind).toList = trim text.toList := by
      rw [String.toList_append,String.toList_append,trim_append_blanks last,trim_blanks_append first]
    simp only [readStart,read?,trimmed]

open Instant in
theorem Definition.readStart_of_forms_leapDay :
    FourDigits ⟨2024,3,1⟩ ∧ OnClock ⟨0,30,0,0⟩ ∧
    readStart " 2024-03-01T00:30:00+01:45\n" = .ok (ofUniversal ⟨2024,2,29⟩ ⟨22,45,0,0⟩) ∧
    readStart "2024-03-01T00:30:00-23:59" = .ok (ofUniversal ⟨2024,3,2⟩ ⟨0,29,0,0⟩) := by
  have fourDigits : FourDigits ⟨2024,3,1⟩ := ⟨⟨by decide,by decide⟩,by decide,by decide⟩
  have onClock : OnClock ⟨0,30,0,0⟩ := ⟨by decide,by decide,by decide,by decide⟩
  obtain ⟨forms,-,-,blanks⟩ := readStart_of_forms
  obtain ⟨-,-,-,offsets⟩ := forms _ _ fourDigits onClock rfl
  have ahead := (offsets 1 45 (by decide) (by decide)).1
  have behind := (offsets 23 59 (by decide) (by decide)).2
  have trimmed := blanks " " "2024-03-01T00:30:00+01:45" "\n" (by decide) (by decide)
  exact ⟨fourDigits,onClock,trimmed.trans ahead,behind⟩

end PipelineAtlas

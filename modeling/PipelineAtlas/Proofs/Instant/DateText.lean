import Mathlib.Data.List.TakeWhile
import PipelineAtlas.Instant.Reading
import PipelineAtlas.Proofs.Text.Word

/-! The characters of the texts that are read as instants. Every step of the reading takes only such
characters from the text, so that another one is never used up. -/
namespace PipelineAtlas.Instant

open Text

def dateMarks : List Char := ['-','+',':','.','T','t','Z','z','−']

def isDateChar (c : Char) : Bool := c.isDigit || isBlank c || dateMarks.contains c

section Foreign

variable {c : Char} (foreign : isDateChar c = false)

include foreign

theorem noDigit : c.isDigit = false := by
  rw [isDateChar,Bool.or_eq_false_iff,Bool.or_eq_false_iff] at foreign
  exact foreign.1.1

theorem noBlank : isBlank c = false := by
  rw [isDateChar,Bool.or_eq_false_iff,Bool.or_eq_false_iff] at foreign
  exact foreign.1.2

theorem ne_of_isDateChar {d : Char} (mark : isDateChar d = true) : c ≠ d := by
  rintro rfl
  rw [foreign] at mark
  cases mark

omit foreign in
theorem mem_dropWhile {p : Char → Bool} {s : List Char} (stops : p c = false) (inside : c ∈ s) :
    c ∈ s.dropWhile p := by
  rw [← List.takeWhile_append_dropWhile (p := p) (l := s),List.mem_append] at inside
  refine inside.resolve_left fun taken => ?_
  rw [List.mem_takeWhile_imp taken] at stops
  cases stops

theorem mem_trimLeft {s : List Char} (inside : c ∈ s) : c ∈ trimLeft s :=
  mem_dropWhile (noBlank foreign) inside

theorem mem_trim {s : List Char} (inside : c ∈ s) : c ∈ trim s :=
  List.mem_reverse.mpr
    (mem_dropWhile (noBlank foreign) (List.mem_reverse.mpr (mem_trimLeft foreign inside)))

theorem mem_of_takeDigits {least most n : Nat} {s rest : List Char}
    (taken : takeDigits least most s = some (n,rest)) (inside : c ∈ s) : c ∈ rest := by
  simp only [takeDigits] at taken
  split at taken
  next => cases taken
  next =>
    obtain ⟨n',-,same⟩ := Option.map_eq_some_iff.mp taken
    obtain ⟨-,rfl⟩ := Prod.mk.inj same
    have start : (s.take most).takeWhile Char.isDigit <+: s :=
      (List.takeWhile_prefix _).trans (List.take_prefix most s)
    rw [← List.prefix_iff_eq_append.mp start,List.mem_append] at inside
    refine inside.resolve_left fun digit => ?_
    have isDigit := List.mem_takeWhile_imp digit
    rw [noDigit foreign] at isDigit
    cases isDigit

theorem mem_of_skipChar {d : Char} {s rest : List Char} (mark : isDateChar d = true)
    (skipped : skipChar d s = some rest) (inside : c ∈ s) : c ∈ rest := by
  rw [skipChar_eq_some.mp skipped] at inside
  exact (List.mem_cons.mp inside).resolve_left (ne_of_isDateChar foreign mark)

theorem mem_of_takeFraction {s rest : List Char} {n : Nat}
    (taken : takeFraction s = some (n,rest)) (inside : c ∈ s) : c ∈ rest := by
  unfold takeFraction at taken
  split at taken
  next s =>
    split at taken
    next m rest' digits =>
      cases taken
      have behind := (List.mem_cons.mp inside).resolve_left
        (ne_of_isDateChar foreign (by decide))
      exact mem_dropWhile (noDigit foreign) (mem_of_takeDigits foreign digits behind)
    next => cases taken
  next =>
    cases taken
    exact inside

theorem mem_of_takeOffsetSize {s rest : List Char} {n : Nat}
    (taken : takeOffsetSize s = some (n,rest)) (inside : c ∈ s) : c ∈ rest := by
  simp only [takeOffsetSize,Option.bind_eq_bind,Option.bind_eq_some_iff,Prod.exists] at taken
  obtain ⟨hours,s₁,first,s₂,colon,minutes,s₃,second,taken⟩ := taken
  split at taken
  next =>
    cases taken
    have inside := mem_of_takeDigits foreign first inside
    have inside := mem_of_skipChar foreign (by decide) colon inside
    exact mem_of_takeDigits foreign second inside
  next => cases taken

theorem mem_of_takeOffset {s rest : List Char} {n : Int}
    (taken : takeOffset s = some (n,rest)) (inside : c ∈ s) : c ∈ rest := by
  cases s with
  | nil => cases taken
  | cons d s =>
    have behind (mark : isDateChar d = true) : c ∈ s :=
      (List.mem_cons.mp inside).resolve_left (ne_of_isDateChar foreign mark)
    simp only [takeOffset] at taken
    split at taken
    next universal =>
      cases taken
      rcases universal with rfl | rfl <;> exact behind (by decide)
    next =>
      split at taken
      next plus =>
        obtain ⟨⟨m,rest'⟩,size,same⟩ := Option.map_eq_some_iff.mp taken
        cases same
        subst plus
        exact mem_of_takeOffsetSize foreign size (behind (by decide))
      next =>
        split at taken
        next minus =>
          obtain ⟨⟨m,rest'⟩,size,same⟩ := Option.map_eq_some_iff.mp taken
          cases same
          rcases minus with rfl | rfl <;>
            exact mem_of_takeOffsetSize foreign size (behind (by decide))
        next => cases taken

theorem mem_of_skipDateMark {s rest : List Char} (skipped : skipDateMark s = some rest)
    (inside : c ∈ s) : c ∈ rest := by
  cases s with
  | nil => cases skipped
  | cons d s =>
    simp only [skipDateMark] at skipped
    split at skipped
    next mark =>
      cases skipped
      refine (List.mem_cons.mp inside).resolve_left (ne_of_isDateChar foreign ?_)
      rcases mark with rfl | rfl | rfl <;> decide
    next => cases skipped

theorem timestamp?_of_mem {s : List Char} (inside : c ∈ s) : timestamp? s = none := by
  rw [Option.eq_none_iff_forall_ne_some]
  intro i read
  unfold timestamp? at read
  obtain ⟨⟨_,s⟩,year,read⟩ := Option.bind_eq_some_iff.mp read
  have inside := mem_of_takeDigits foreign year inside
  obtain ⟨s,dash,read⟩ := Option.bind_eq_some_iff.mp read
  have inside := mem_of_skipChar foreign (by decide) dash inside
  obtain ⟨⟨_,s⟩,month,read⟩ := Option.bind_eq_some_iff.mp read
  have inside := mem_of_takeDigits foreign month inside
  obtain ⟨s,dash,read⟩ := Option.bind_eq_some_iff.mp read
  have inside := mem_of_skipChar foreign (by decide) dash inside
  obtain ⟨⟨_,s⟩,day,read⟩ := Option.bind_eq_some_iff.mp read
  have inside := mem_of_takeDigits foreign day inside
  obtain ⟨s,mark,read⟩ := Option.bind_eq_some_iff.mp read
  have inside := mem_of_skipDateMark foreign mark inside
  obtain ⟨⟨_,s⟩,hour,read⟩ := Option.bind_eq_some_iff.mp read
  have inside := mem_of_takeDigits foreign hour inside
  obtain ⟨s,colon,read⟩ := Option.bind_eq_some_iff.mp read
  have inside := mem_of_skipChar foreign (by decide) colon inside
  obtain ⟨⟨_,s⟩,minute,read⟩ := Option.bind_eq_some_iff.mp read
  have inside := mem_of_takeDigits foreign minute inside
  obtain ⟨s,colon,read⟩ := Option.bind_eq_some_iff.mp read
  have inside := mem_of_skipChar foreign (by decide) colon inside
  obtain ⟨⟨_,s⟩,second,read⟩ := Option.bind_eq_some_iff.mp read
  have inside := mem_of_takeDigits foreign second inside
  obtain ⟨⟨_,s⟩,fraction,read⟩ := Option.bind_eq_some_iff.mp read
  have inside := mem_of_takeFraction foreign fraction inside
  obtain ⟨⟨_,s⟩,offset,read⟩ := Option.bind_eq_some_iff.mp read
  have inside := mem_of_takeOffset foreign offset inside
  obtain ⟨_,-,read⟩ := Option.bind_eq_some_iff.mp read
  obtain ⟨_,-,read⟩ := Option.bind_eq_some_iff.mp read
  rw [if_neg] at read
  · cases read
  · simpa using List.ne_nil_of_mem inside

theorem mem_of_takeYear {s rest : List Char} {n : Int} (taken : takeYear s = some (n,rest))
    (inside : c ∈ s) : c ∈ rest := by
  have trimmed := mem_trimLeft foreign inside
  unfold takeYear at taken
  split at taken
  next behind minus =>
    obtain ⟨⟨m,rest'⟩,digits,same⟩ := Option.map_eq_some_iff.mp taken
    cases same
    rw [minus] at trimmed
    exact mem_of_takeDigits foreign digits
      ((List.mem_cons.mp trimmed).resolve_left (ne_of_isDateChar foreign (by decide)))
  next behind plus =>
    obtain ⟨⟨m,rest'⟩,digits,same⟩ := Option.map_eq_some_iff.mp taken
    cases same
    rw [plus] at trimmed
    exact mem_of_takeDigits foreign digits
      ((List.mem_cons.mp trimmed).resolve_left (ne_of_isDateChar foreign (by decide)))
  next =>
    obtain ⟨⟨m,rest'⟩,digits,same⟩ := Option.map_eq_some_iff.mp taken
    cases same
    exact mem_of_takeDigits foreign digits trimmed

theorem mem_of_takePair {s rest : List Char} {n : Nat} (taken : takePair s = some (n,rest))
    (inside : c ∈ s) : c ∈ rest :=
  mem_of_takeDigits foreign taken (mem_trimLeft foreign inside)

theorem mem_of_takeDate {s rest : List Char} {d : Date} (taken : takeDate s = some (d,rest))
    (inside : c ∈ s) : c ∈ rest := by
  simp only [takeDate,Option.bind_eq_bind,Option.bind_eq_some_iff,Prod.exists] at taken
  obtain ⟨_,_,year,_,dash,_,_,month,_,dash',_,_,day,_,-,taken⟩ := taken
  cases taken
  have inside := mem_of_takeYear foreign year inside
  have inside := mem_of_skipChar foreign (by decide) dash inside
  have inside := mem_of_takePair foreign month inside
  have inside := mem_of_skipChar foreign (by decide) dash' inside
  exact mem_of_takePair foreign day inside

theorem mem_of_takeClock {s rest : List Char} {k : Clock} (taken : takeClock s = some (k,rest))
    (inside : c ∈ s) : c ∈ rest := by
  simp only [takeClock,Option.bind_eq_bind,Option.bind_eq_some_iff,Prod.exists] at taken
  obtain ⟨_,_,hour,_,colon,_,_,minute,_,colon',_,_,second,_,-,taken⟩ := taken
  cases taken
  have inside := mem_of_takePair foreign hour inside
  have inside := mem_of_skipChar foreign (by decide) colon inside
  have inside := mem_of_takePair foreign minute inside
  have inside := mem_of_skipChar foreign (by decide) colon' inside
  exact mem_of_takePair foreign second inside

theorem dateTime?_of_mem {s : List Char} (inside : c ∈ s) : dateTime? s = none := by
  rw [Option.eq_none_iff_forall_ne_some]
  intro i read
  simp only [dateTime?,Option.bind_eq_bind,Option.bind_eq_some_iff,Prod.exists] at read
  obtain ⟨_,_,date,_,mark,_,_,clock,read⟩ := read
  have inside := mem_of_takeDate foreign date inside
  have inside := mem_of_skipChar foreign (by decide) mark inside
  have inside := mem_of_takeClock foreign clock inside
  rw [if_neg] at read
  · cases read
  · simpa using List.ne_nil_of_mem inside

theorem plainDate?_of_mem {s : List Char} (inside : c ∈ s) : plainDate? s = none := by
  rw [Option.eq_none_iff_forall_ne_some]
  intro i read
  simp only [plainDate?,Option.bind_eq_bind,Option.bind_eq_some_iff,Prod.exists] at read
  obtain ⟨_,_,date,read⟩ := read
  have inside := mem_of_takeDate foreign date inside
  rw [if_neg] at read
  · cases read
  · simpa using List.ne_nil_of_mem inside

theorem read?_of_mem {s : List Char} (inside : c ∈ s) : read? s = none := by
  have trimmed := mem_trim foreign inside
  simp only [read?,timestamp?_of_mem foreign trimmed,dateTime?_of_mem foreign trimmed,
    plainDate?_of_mem foreign trimmed]
  rfl

end Foreign

theorem isDateChar_of_read? {s : List Char} {i : Instant} (read : read? s = some i) :
    ∀ c ∈ s, isDateChar c = true := by
  intro c inside
  by_contra other
  rw [read?_of_mem (Bool.eq_false_iff.mpr other) inside] at read
  cases read

end PipelineAtlas.Instant

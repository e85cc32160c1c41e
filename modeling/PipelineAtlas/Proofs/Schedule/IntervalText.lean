import Mathlib.Algebra.Ring.Nat
import PipelineAtlas.Proofs.Schedule.Expression
import PipelineAtlas.Proofs.Text.Token

/-! Which texts are intervals. A text behind the mark of intervals is read exactly if it consists of
groups, in any order and with any repetition, whose sum is a positive number of 64 bits. -/
namespace PipelineAtlas

namespace Interval

inductive TimeUnit where
  | second
  | minute
  | hour
  | day

namespace TimeUnit

def letter : TimeUnit → Char
  | second => 's'
  | minute => 'm'
  | hour => 'h'
  | day => 'd'

def seconds : TimeUnit → Nat
  | second => 1
  | minute => 60
  | hour => 60 * 60
  | day => 24 * (60 * 60)

theorem isLetter (u : TimeUnit) : Letter u.letter u.seconds := by
  cases u with
  | second => exact letter_second
  | minute => exact letter_minute
  | hour => exact letter_hour
  | day => exact letter_day

end TimeUnit

theorem unitSeconds_eq_some {c : Char} {size : Nat} (unit : unitSeconds c = some size) :
    ∃ u : TimeUnit, u.letter = c ∧ u.seconds = size := by
  unfold unitSeconds at unit
  split at unit
  next same => exact ⟨.second,same.symm,Option.some.inj unit⟩
  next =>
    split at unit
    next same => exact ⟨.minute,same.symm,Option.some.inj unit⟩
    next =>
      split at unit
      next same => exact ⟨.hour,same.symm,Option.some.inj unit⟩
      next =>
        split at unit
        next same => exact ⟨.day,same.symm,Option.some.inj unit⟩
        next => cases unit

/-- Digits, leading zeros included, and the unit that they count. -/
structure Part where
  digits : List Char
  unit : TimeUnit
  some : digits ≠ []
  digit : ∀ c ∈ digits, c.isDigit = true

def Part.text (p : Part) : List Char := p.digits ++ [p.unit.letter]

def Part.seconds (p : Part) : Nat := Nat.ofDigitChars 10 p.digits 0 * p.unit.seconds

/-- The exact sum, however large. -/
def total (parts : List Part) : Nat := (parts.map Part.seconds).sum

@[simp]
theorem total_nil : total [] = 0 := rfl

@[simp]
theorem total_cons (p : Part) (parts : List Part) : total (p :: parts) = p.seconds + total parts :=
  rfl

def begun (digits : List Char) : Option Nat :=
  if digits = [] then none else some (Nat.ofDigitChars 10 digits 0)

theorem begun_of_ne_nil {digits : List Char} (some : digits ≠ []) :
    begun digits = Option.some (Nat.ofDigitChars 10 digits 0) := if_neg some

theorem readFrom_begun_digit {c : Char} (digit : c.isDigit = true) (sum : Nat)
    (digits cs : List Char) : readFrom sum (begun digits) (c :: cs) =
      readFrom sum (begun (digits ++ [c])) cs := by
  have value : 10 * (begun digits).getD 0 + (c.toNat - '0'.toNat) =
      Nat.ofDigitChars 10 (digits ++ [c]) 0 := by
    rw [Nat.ofDigitChars_append,Nat.ofDigitChars_cons,Nat.ofDigitChars_nil]
    by_cases none : digits = [] <;> simp [begun,none]
  rw [readFrom_digit digit,value,begun_of_ne_nil (by simp)]

theorem addUnits_eq_some {sum count unit next : Nat} (added : addUnits sum count unit = some next) :
    next = sum + count * unit ∧ next < bound := by
  obtain ⟨n,factor,seconds,product,fits⟩ :
      ∃ n, fit? count = some n ∧ ∃ seconds, fit? (n * unit) = some seconds ∧
        fit? (sum + seconds) = some next := by
    simpa [addUnits,Option.bind_eq_some_iff] using added
  have whole {m k : Nat} (fit : fit? m = some k) : k = m ∧ k < bound := by
    unfold fit? at fit
    split at fit
    next below => exact ⟨(Option.some.inj fit).symm,Option.some.inj fit ▸ below⟩
    next => cases fit
  obtain ⟨rfl,-⟩ := whole factor
  obtain ⟨rfl,-⟩ := whole product
  exact whole fits

theorem parts_of_readFrom {s digits : List Char} {sum n : Nat}
    (digit : ∀ c ∈ digits, c.isDigit = true) (below : sum < bound)
    (read : readFrom sum (begun digits) s = some n) :
    ∃ parts, digits ++ s = parts.flatMap Part.text ∧ n = sum + total parts ∧ 0 < n ∧ n < bound := by
  have noDigits : ∀ c ∈ ([] : List Char), c.isDigit = true := by simp
  induction s generalizing sum digits with
  | nil =>
    by_cases none : digits = []
    · subst none
      obtain ⟨positive,rfl⟩ : sum ≠ 0 ∧ sum = n := by simpa [readFrom,begun] using read
      exact ⟨[],rfl,rfl,Nat.pos_of_ne_zero positive,below⟩
    · simp [readFrom,begun,none] at read
  | cons c s ih =>
    by_cases next : c.isDigit = true
    · rw [readFrom_begun_digit next] at read
      have extended : ∀ d ∈ digits ++ [c], d.isDigit = true :=
        List.forall_mem_append.mpr ⟨digit,by simpa using next⟩
      simpa [List.append_assoc] using ih extended below read
    · unfold readFrom at read
      rw [if_neg next] at read
      split at read
      next count size started unit =>
        split at read
        next sum' added =>
          have nonempty : digits ≠ [] := by
            rintro rfl
            cases started
          obtain rfl : Nat.ofDigitChars 10 digits 0 = count := by
            simpa [begun,nonempty] using started
          obtain ⟨u,rfl,rfl⟩ := unitSeconds_eq_some unit
          obtain ⟨rfl,below'⟩ := addUnits_eq_some added
          obtain ⟨parts,text,rfl,positive,fits⟩ := ih noDigits below' read
          rw [List.nil_append] at text
          exact ⟨⟨digits,u,nonempty,digit⟩ :: parts,by simp [Part.text,text],
            by simp [Part.seconds,Nat.add_assoc],positive,fits⟩
        next => cases read
      next => cases read

theorem readFrom_part {sum : Nat} (p : Part) (fits : sum + p.seconds < bound) (rest : List Char) :
    readFrom sum none (p.text ++ rest) = readFrom (sum + p.seconds) none rest := by
  obtain ⟨digits,u,nonempty,digit⟩ := p
  have number : readFrom sum none (digits ++ u.letter :: rest) =
      readFrom sum (some (Nat.ofDigitChars 10 digits 0)) (u.letter :: rest) := by
    cases digits with
    | nil => exact absurd rfl nonempty
    | cons c digits =>
      obtain ⟨first,later⟩ := List.forall_mem_cons.mp digit
      rw [List.cons_append,readFrom_digit first,readFrom_digits sum later,Nat.ofDigitChars_cons]
      rfl
  rw [Part.text,List.append_assoc,List.singleton_append,number,readFrom_letter u.isLetter fits]
  rfl

theorem readFrom_parts {sum : Nat} (parts : List Part) (positive : 0 < sum + total parts)
    (fits : sum + total parts < bound) :
    readFrom sum none (parts.flatMap Part.text) = some (sum + total parts) := by
  induction parts generalizing sum with
  | nil =>
    have some : sum ≠ 0 := Nat.pos_iff_ne_zero.mp positive
    simp [readFrom,some]
  | cons p parts ih =>
    rw [total_cons,← Nat.add_assoc] at positive fits ⊢
    rw [List.flatMap_cons,readFrom_part p (by omega),ih positive fits]

/-- Exactly the parts are read whose sum is positive and fits. -/
theorem read?_eq_some {s : List Char} {n : Nat} : read? s = some n ↔
    ∃ parts, s = parts.flatMap Part.text ∧ n = total parts ∧ 0 < n ∧ n < bound := by
  constructor
  · intro read
    have noDigits : ∀ c ∈ ([] : List Char), c.isDigit = true := by simp
    simpa using parts_of_readFrom noDigits (by decide) read
  · rintro ⟨parts,rfl,rfl,positive,fits⟩
    rw [← Nat.zero_add (total parts)] at positive fits ⊢
    exact readFrom_parts parts positive fits

end Interval

namespace Recurrence

/-- The mark of intervals with capitals. -/
def IsEveryMark (mark : List Char) : Prop := mark.map Char.toLower = everyMark

variable {mark text : List Char} (marked : IsEveryMark mark)

include marked in
theorem ascii_of_isEveryMark : ∀ c ∈ mark, c.toNat < 128 := by
  have plain : ∀ c ∈ everyMark, c.toNat < 128 := by decide
  intro c inside
  refine Text.ascii_of_toLower (plain _ ?_)
  rw [← show mark.map Char.toLower = everyMark from marked]
  exact List.mem_map_of_mem inside

include marked in
theorem ends_of_isEveryMark : ∃ letters, mark = '@' :: letters ++ [' '] := by
  have caseless : ∀ n < 128, (Char.ofNat n).toLower = '@' ∨ (Char.ofNat n).toLower = ' ' →
      (Char.ofNat n).toLower = Char.ofNat n := by decide +kernel
  have kept {c : Char} (inside : c ∈ mark) (same : c.toLower = '@' ∨ c.toLower = ' ') :
      c.toLower = c := by
    simpa using caseless c.toNat (ascii_of_isEveryMark marked c inside) (by simpa using same)
  have whole : mark.map Char.toLower = ['@','e','v','e','r','y',' '] := marked
  obtain ⟨a,rest,rfl,first,more⟩ := List.map_eq_cons_iff.mp whole
  change rest.map Char.toLower = ['e','v','e','r','y'] ++ [' '] at more
  obtain ⟨letters,last,rfl,-,more⟩ := List.map_eq_append_iff.mp more
  obtain ⟨z,none,rfl,blank,nothing⟩ := List.map_eq_cons_iff.mp more
  obtain rfl := List.map_eq_nil_iff.mp nothing
  have start : a = '@' := (kept (by simp) (.inl first)).symm.trans first
  have stop : z = ' ' := (kept (by simp) (.inr blank)).symm.trans blank
  exact ⟨letters,by rw [start,stop]; rfl⟩

variable (visible : Text.trim text ≠ [])

include marked visible in
theorem trim_marked : Text.trim (mark ++ text) = mark ++ Text.trimRight text := by
  obtain ⟨blanks,split,blank⟩ := Text.exists_trimRight text
  obtain ⟨letters,written⟩ := ends_of_isEveryMark marked
  have core : Text.trimRight text ≠ [] := by
    intro none
    rw [none,List.nil_append] at split
    refine visible ?_
    rw [split,← List.nil_append blanks,Text.trim_append_blanks blank]
    rfl
  conv => lhs; rw [split,← List.append_assoc,Text.trim_append_blanks blank]
  refine Text.trim_of_ends (fun c first => ?_) fun c last => ?_
  · rw [written] at first
    obtain rfl : '@' = c := Option.some.inj first
    decide
  · rw [List.getLast?_append_of_ne_nil _ core,Text.trimRight,List.getLast?_reverse] at last
    have kept := List.head?_dropWhile_not Text.isBlank text.reverse
    rw [last] at kept
    exact kept

include marked in
theorem lower_marked : Text.lower (mark ++ text) = everyMark ++ Text.lower text := by
  obtain ⟨letters,written⟩ := ends_of_isEveryMark marked
  have turned : mark.reverse ++ [] = [] ++ ' ' :: ('@' :: letters).reverse := by simp [written]
  rw [Text.lower,Text.lowerAfter_ascii (ascii_of_isEveryMark marked),turned,
    Text.lowerAfter_behind_blank (by decide),show mark.map Char.toLower = everyMark from marked]
  rfl

theorem trim_lower_trimRight (text : List Char) :
    Text.trim (Text.lower (Text.trimRight text)) = Text.trim (Text.lower text) := by
  obtain ⟨blanks,split,blank⟩ := Text.exists_trimRight text
  obtain ⟨behind,all,same⟩ := Text.lowerAfter_append_blanks blank (Text.trimRight text) []
  rw [← split] at same
  rw [Text.lower,Text.lower,same,Text.trim_append_blanks all]

include marked visible in
theorem read_marked : read (mark ++ text) =
    (Interval.read? (Text.trim (Text.lower text))).elim
      (.error (.invalidInterval (String.ofList (Text.trim (Text.lower text)))))
      fun seconds => .ok (.interval seconds) := by
  obtain ⟨letters,written⟩ := ends_of_isEveryMark marked
  have noName : ¬ ((mark ++ Text.trimRight text).map Char.toLower == "none".toList) = true := by
    intro same
    rw [List.map_append,show mark.map Char.toLower = everyMark from marked] at same
    have first : '@' = 'n' := (List.cons.inj (beq_iff_eq.mp same)).1
    exact absurd first (by decide)
  have shortcut : (mark ++ Text.trimRight text).head? = some '@' := by
    rw [written]
    rfl
  unfold read
  rw [trim_marked marked visible]
  dsimp only
  rw [if_neg noName,if_pos shortcut,readShortcut_of_lower (lower_marked marked),
    trim_lower_trimRight]

end Recurrence

namespace Schedule

variable {mark text : String} (marked : Recurrence.IsEveryMark mark.toList)
  (visible : Text.trim text.toList ≠ [])

include marked visible in
/-- A text behind the mark of intervals, in whatever case, is a schedule if and only if it consists of
parts whose exact sum is positive and fits 64 bits. The sum is the period then; all else is an invalid
interval. -/
theorem parse_marked :
    (∀ s, parse (mark ++ text) = .ok s ↔ ∃ parts : List Interval.Part, parts ≠ [] ∧
      Text.trim (Text.lower text.toList) = parts.flatMap Interval.Part.text ∧
      1 ≤ Interval.total parts ∧ Interval.total parts ≤ 2 ^ 64 - 1 ∧
      s = ⟨mark ++ text,.interval (Interval.total parts)⟩ ∧
      s.period = some (Interval.total parts)) ∧
    ∀ e, parse (mark ++ text) = .error e →
      e = .invalidInterval (String.ofList (Text.trim (Text.lower text.toList))) := by
  have read := Recurrence.read_marked marked visible
  rw [← String.toList_append] at read
  refine ⟨fun s => ⟨fun parsed => ?_,?_⟩,fun e failed => ?_⟩
  · rw [parse,read] at parsed
    cases found : Interval.read? (Text.trim (Text.lower text.toList)) with
    | none =>
      rw [found] at parsed
      cases parsed
    | some n =>
      rw [found] at parsed
      obtain rfl := Except.ok.inj parsed
      obtain ⟨parts,written,rfl,positive,fits⟩ := Interval.read?_eq_some.mp found
      refine ⟨parts,?_,written,positive,Nat.le_pred_of_lt fits,rfl,rfl⟩
      rintro rfl
      exact absurd positive (by decide)
  · rintro ⟨parts,-,written,positive,fits,rfl,-⟩
    have below : Interval.total parts < Interval.bound := Nat.lt_of_le_pred (by decide) fits
    have found := Interval.read?_eq_some.mpr ⟨parts,written,rfl,positive,below⟩
    rw [parse,read,found]
    rfl
  · rw [parse,read] at failed
    cases found : Interval.read? (Text.trim (Text.lower text.toList)) with
    | none =>
      rw [found] at failed
      exact (Except.error.inj failed).symm
    | some n =>
      rw [found] at failed
      cases failed

/-- Hours come twice and minutes with leading zeros. A number may fit when its product does not. -/
theorem parse_marked_repeated :
    Recurrence.IsEveryMark "@EVERY ".toList ∧ Text.trim " 1h030M1H\t".toList ≠ [] ∧
      (∃ s, parse ("@EVERY " ++ " 1h030M1H\t") = .ok s ∧ s.period = some 9000) ∧
      parse ("@every " ++ "18446744073709551615m") =
        .error (.invalidInterval "18446744073709551615m") := by
  have marked : Recurrence.IsEveryMark "@EVERY ".toList := by unfold Recurrence.IsEveryMark; decide
  have visible : Text.trim " 1h030M1H\t".toList ≠ [] := by decide
  let parts : List Interval.Part :=
    [⟨['1'],.hour,by decide,by decide⟩,⟨['0','3','0'],.minute,by decide,by decide⟩,
      ⟨['1'],.hour,by decide,by decide⟩]
  have sum : Interval.total parts = 9000 := by decide
  refine ⟨marked,visible,⟨_,((parse_marked marked visible).1 _).mpr ⟨parts,by decide,by decide,
    by decide,by decide,rfl,rfl⟩,by rw [← sum]; rfl⟩,by rfl⟩

end Schedule

end PipelineAtlas

import PipelineAtlas.Proofs.Text.Word
import PipelineAtlas.Schedule.Interval

/-! Intervals written and read again. A number of seconds that fits 64 bits is written as groups whose
digits, products and sums all fit, so that reading gives the number back. -/
namespace PipelineAtlas.Interval

theorem readFrom_digit {c : Char} (digit : c.isDigit = true) (total : Nat) (begun : Option Nat)
    (cs : List Char) : readFrom total begun (c :: cs) =
      readFrom total (some (10 * begun.getD 0 + (c.toNat - '0'.toNat))) cs := by
  cases begun <;> simp [readFrom,digit,Nat.mul_comm]

theorem readFrom_digits (total : Nat) {digits : List Char} (digit : ∀ c ∈ digits, c.isDigit = true)
    (n : Nat) (rest : List Char) : readFrom total (some n) (digits ++ rest) =
      readFrom total (some (Nat.ofDigitChars 10 digits n)) rest := by
  induction digits generalizing n with
  | nil => rfl
  | cons c digits ih =>
    obtain ⟨first,later⟩ := List.forall_mem_cons.mp digit
    rw [List.cons_append,readFrom_digit first,Nat.ofDigitChars_cons]
    exact ih later _

theorem readFrom_repr (total n : Nat) (rest : List Char) :
    readFrom total none (n.repr.toList ++ rest) = readFrom total (some n) rest := by
  rw [Nat.toList_repr]
  cases written : Nat.toDigits 10 n with
  | nil => exact absurd written Nat.toDigits_ne_nil
  | cons c digits =>
    have value : Nat.ofDigitChars 10 (c :: digits) 0 = n := by
      rw [← written]
      exact Nat.ofDigitChars_ten_toDigits
    have digit : ∀ d ∈ c :: digits, d.isDigit = true := fun d inside =>
      Nat.isDigit_of_mem_toDigits (by decide) (by decide) (written ▸ inside)
    obtain ⟨first,later⟩ := List.forall_mem_cons.mp digit
    rw [List.cons_append,readFrom_digit first,readFrom_digits total later,← value,
      Nat.ofDigitChars_cons]
    rfl

theorem addUnits_of_lt {total count unit : Nat} (positive : 0 < unit)
    (fits : total + count * unit < bound) :
    addUnits total count unit = some (total + count * unit) := by
  have product : count * unit < bound := by omega
  have factor : count < bound := Nat.lt_of_le_of_lt (Nat.le_mul_of_pos_right count positive) product
  simp [addUnits,fit?,factor,product,fits]

structure Letter (c : Char) (size : Nat) : Prop where
  noDigit : c.isDigit = false
  seconds : unitSeconds c = some size
  positive : 0 < size

theorem letter_day : Letter 'd' day := ⟨by decide,rfl,by decide⟩

theorem letter_hour : Letter 'h' hour := ⟨by decide,rfl,by decide⟩

theorem letter_minute : Letter 'm' 60 := ⟨by decide,rfl,by decide⟩

theorem letter_second : Letter 's' 1 := ⟨by decide,rfl,by decide⟩

theorem readFrom_letter {total count size : Nat} {c : Char} (letter : Letter c size)
    (fits : total + count * size < bound) (cs : List Char) :
    readFrom total (some count) (c :: cs) = readFrom (total + count * size) none cs := by
  simp [readFrom,letter.noDigit,letter.seconds,addUnits_of_lt letter.positive fits]

theorem readFrom_group {total count size : Nat} {unit : Char} (letter : Letter unit size)
    (fits : total + count * size < bound) (rest : List Char) :
    readFrom total none ((group count unit).toList ++ rest) =
      readFrom (total + count * size) none rest := by
  unfold group
  split
  next zero =>
    subst zero
    simp
  next =>
    have text : (toString count ++ unit.toString).toList = count.repr.toList ++ [unit] := by
      simp [Char.toString]
    rw [text,List.append_assoc,readFrom_repr,List.singleton_append,
      readFrom_letter letter fits]

theorem whole_units (n : Nat) : n / day * day + n % day / hour * hour + n % hour / 60 * 60 +
    n % 60 * 1 = n := by
  unfold day hour
  omega

/-- Every interval that fits 64 bits is read from what is written for it. -/
theorem read?_write {n : Nat} (positive : 0 < n) (fits : n < bound) :
    read? (write n).toList = some n := by
  have whole := whole_units n
  unfold read? write
  simp only [String.toList_append,List.append_assoc]
  rw [readFrom_group letter_day (by omega),readFrom_group letter_hour (by omega),
    readFrom_group letter_minute (by omega),
    ← List.append_nil (group (n % 60) 's').toList,readFrom_group letter_second (by omega),
    Nat.zero_add,whole]
  simp [readFrom,Nat.pos_iff_ne_zero.mp positive]

def isMark (c : Char) : Bool := c.isDigit || c == 'd' || c == 'h' || c == 'm' || c == 's'

theorem isMark_of_mem_group {count : Nat} {unit c : Char} (mark : isMark unit = true)
    (inside : c ∈ (group count unit).toList) : isMark c = true := by
  unfold group at inside
  split at inside
  next => simp at inside
  next =>
    rw [String.toList_append,List.mem_append] at inside
    rcases inside with digit | letter
    · rw [show toString count = count.repr from rfl,Nat.toList_repr] at digit
      simp [isMark,Nat.isDigit_of_mem_toDigits (by decide) (by decide) digit]
    · obtain rfl : c = unit := by simpa [Char.toString] using letter
      exact mark

theorem isMark_of_mem_write {n : Nat} {c : Char} (inside : c ∈ (write n).toList) :
    isMark c = true := by
  simp only [write,String.toList_append,List.mem_append] at inside
  rcases inside with ((days | hours) | minutes) | seconds
  · exact isMark_of_mem_group (by decide) days
  · exact isMark_of_mem_group (by decide) hours
  · exact isMark_of_mem_group (by decide) minutes
  · exact isMark_of_mem_group (by decide) seconds

theorem word_of_isMark {c : Char} (mark : isMark c = true) : Text.isAsciiWord c = true := by
  simp only [isMark,Bool.or_eq_true,beq_iff_eq] at mark
  rcases mark with (((digit | rfl) | rfl) | rfl) | rfl
  · simp [Text.isAsciiWord,Char.isAlphanum,digit]
  all_goals decide

theorem ascii_of_isMark {c : Char} (mark : isMark c = true) : c.toNat < 128 :=
  Text.ascii_of_isAsciiWord (word_of_isMark mark)

theorem toLower_of_isMark {c : Char} (mark : isMark c = true) : c.toLower = c := by
  simp only [isMark,Bool.or_eq_true,beq_iff_eq] at mark
  rcases mark with (((digit | rfl) | rfl) | rfl) | rfl
  · have below : c.toNat ≤ 57 := by
      simp only [Char.isDigit,Bool.and_eq_true,decide_eq_true_eq,UInt32.le_iff_toNat_le] at digit
      exact digit.2
    refine dif_neg fun upper => ?_
    have above : 65 ≤ c.toNat := UInt32.le_iff_toNat_le.mp upper.1
    omega
  all_goals decide

theorem isMark_of_unitSeconds {c : Char} {size : Nat} (unit : unitSeconds c = some size) :
    isMark c = true := by
  unfold unitSeconds at unit
  simp only [isMark,Bool.or_eq_true,beq_iff_eq]
  split at unit
  · simp [*]
  · split at unit
    · simp [*]
    · split at unit
      · simp [*]
      · split at unit
        · simp [*]
        · cases unit

theorem isMark_of_readFrom {s : List Char} {total n : Nat} {begun : Option Nat}
    (read : readFrom total begun s = some n) : ∀ c ∈ s, isMark c = true := by
  induction s generalizing total begun with
  | nil => simp
  | cons c s ih =>
    unfold readFrom at read
    rw [List.forall_mem_cons]
    split at read
    next digit => exact ⟨by simp [isMark,digit],ih read⟩
    next =>
      split at read
      next unit =>
        split at read
        next => exact ⟨isMark_of_unitSeconds unit,ih read⟩
        next => cases read
      next => cases read

theorem visible_of_read? {s : List Char} {n : Nat} (read : read? s = some n) :
    ∀ c ∈ s, Text.isBlank c = false := fun c inside =>
  Text.isBlank_of_isAsciiWord (word_of_isMark (isMark_of_readFrom read c inside))

end PipelineAtlas.Interval

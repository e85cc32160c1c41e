import Mathlib.Data.List.TakeWhile
import PipelineAtlas.Text.Blank
import PipelineAtlas.Text.Number
import PipelineAtlas.Text.Word

/-! Word characters, identifiers and numbers. -/
namespace PipelineAtlas.Text

/-- What holds of each character of a text is decided on the text, not on all characters there are. -/
instance decidableForallMem (s : List Char) (p : Char → Prop) [DecidablePred p] :
    Decidable (∀ c ∈ s, p c) := List.decidableBAll p s

private theorem isAsciiWord_bounds {c : Char} (word : isAsciiWord c = true) :
    ((65 ≤ c.toNat ∧ c.toNat ≤ 90 ∨ 97 ≤ c.toNat ∧ c.toNat ≤ 122) ∨
      48 ≤ c.toNat ∧ c.toNat ≤ 57) ∨ c.toNat = 95 := by
  have letter : c.isAlpha = (decide (c.val ≥ 65 ∧ c.val ≤ 90) ||
      (decide (c.val ≥ 97) && decide (c.val ≤ 122))) := rfl
  simp only [isAsciiWord,Char.isAlphanum,letter,Char.isDigit,Bool.or_eq_true,Bool.and_eq_true,decide_eq_true_eq,beq_iff_eq,ge_iff_le,
    UInt32.le_iff_toNat_le] at word
  rcases word with bounds | rfl
  · exact .inl bounds
  · exact .inr rfl

theorem isAsciiWord_of_isAsciiStart {c : Char} (start : isAsciiStart c = true) :
    isAsciiWord c = true := by
  simp only [isAsciiStart,isAsciiWord,Char.isAlphanum,Bool.or_eq_true] at start ⊢
  exact start.imp_left .inl

theorem ascii_of_isAsciiWord {c : Char} (word : isAsciiWord c = true) : c.toNat < 128 := by
  have bounds := isAsciiWord_bounds word
  omega

theorem isWord_of_isAsciiWord {c : Char} (word : isAsciiWord c = true) : isWord c = true := by
  simp [isWord,ascii_of_isAsciiWord word,word]

theorem isBlank_of_isAsciiWord {c : Char} (word : isAsciiWord c = true) : isBlank c = false := by
  have bounds := isAsciiWord_bounds word
  simp only [isBlank,Bool.or_eq_false_iff,Bool.and_eq_false_iff,decide_eq_false_iff_not,
    beq_eq_false_iff_ne]
  omega

def wideBlanks : List Nat :=
  [0x85,0xA0,0x1680,0x2000,0x2001,0x2002,0x2003,0x2004,0x2005,0x2006,0x2007,0x2008,0x2009,0x200A,
    0x2028,0x2029,0x202F,0x205F,0x3000]

theorem mem_wideBlanks {c : Char} (blank : isBlank c = true) (wide : ¬ c.toNat < 128) :
    c.toNat ∈ wideBlanks := by
  simp only [isBlank,Bool.or_eq_true,Bool.and_eq_true,decide_eq_true_eq,beq_iff_eq] at blank
  simp only [wideBlanks,List.mem_cons,List.not_mem_nil,or_false]
  omega

theorem isBlank_of_isWord {c : Char} (word : isWord c = true) : isBlank c = false := by
  by_cases ascii : c.toNat < 128
  · rw [isWord,if_pos ascii] at word
    exact isBlank_of_isAsciiWord word
  · rw [isWord,if_neg ascii] at word
    have apart : ∀ n ∈ wideBlanks, inRanges wordRanges n = false := by decide +kernel
    rw [Bool.eq_false_iff]
    intro blank
    simp [apart _ (mem_wideBlanks blank ascii)] at word

theorem ne_of_isAsciiWord {c d : Char} (word : isAsciiWord c = true)
    (other : isAsciiWord d = false) : c ≠ d := by
  rintro rfl
  simp [word] at other

theorem word_of_isIdentifier {s : List Char} (identifier : isIdentifier s = true) :
    s ≠ [] ∧ ∀ c ∈ s, isAsciiWord c = true := by
  cases s with
  | nil => simp [isIdentifier] at identifier
  | cons c s =>
    simp only [isIdentifier,Bool.and_eq_true,List.all_eq_true] at identifier
    refine ⟨by simp,?_⟩
    intro d inside
    rcases List.mem_cons.mp inside with rfl | inside
    · exact isAsciiWord_of_isAsciiStart identifier.1
    · exact identifier.2 d inside

theorem exists_trimRight (s : List Char) :
    ∃ blanks, s = trimRight s ++ blanks ∧ ∀ c ∈ blanks, isBlank c = true := by
  refine ⟨(s.reverse.takeWhile isBlank).reverse,?_,?_⟩
  · rw [trimRight,← List.reverse_append,List.takeWhile_append_dropWhile,List.reverse_reverse]
  · intro c inside
    exact List.mem_takeWhile_imp (List.mem_reverse.mp inside)

theorem trim_of_ends {s : List Char} (first : ∀ c ∈ s.head?, isBlank c = false)
    (last : ∀ c ∈ s.getLast?, isBlank c = false) : trim s = s := by
  have kept : ∀ {t : List Char}, (∀ c ∈ t.head?, isBlank c = false) → t.dropWhile isBlank = t := by
    intro t visible
    cases t with
    | nil => rfl
    | cons c t => simp [visible c rfl]
  rw [trim,trimLeft,kept first,trimRight,kept (by simpa using last),List.reverse_reverse]

theorem trim_of_word {s : List Char} (word : ∀ c ∈ s, isAsciiWord c = true) : trim s = s :=
  trim_of_ends (fun _ first => isBlank_of_isAsciiWord (word _ (List.mem_of_mem_head? first)))
    fun _ last => isBlank_of_isAsciiWord (word _ (List.mem_of_mem_getLast? last))

theorem mem_digits {c : Char} (digit : c.isDigit = true) : c ∈ "0123456789".toList := by
  have bounds : 48 ≤ c.toNat ∧ c.toNat ≤ 57 := by
    simp only [Char.isDigit,Bool.and_eq_true,decide_eq_true_eq,UInt32.le_iff_toNat_le] at digit
    exact digit
  have all : ∀ n < 58, 48 ≤ n → Char.ofNat n ∈ "0123456789".toList := by decide
  simpa using all c.toNat (by omega) bounds.1

theorem isDigit_of_digitValue {c : Char} {d : Nat} (value : digitValue c = some d) (small : d < 10) :
    c.isDigit = true := by
  unfold digitValue at value
  split at value
  next digit => exact digit
  next =>
    split at value
    · have same := Option.some.inj value
      omega
    · split at value
      · have same := Option.some.inj value
        omega
      · cases value

theorem isDigit_of_digitsFrom {cs : List Char} {m n : Nat} (read : digitsFrom 10 m cs = some n) :
    ∀ c ∈ cs, c.isDigit = true := by
  induction cs generalizing m with
  | nil => simp
  | cons c cs ih =>
    unfold digitsFrom at read
    split at read
    next d value =>
      split at read
      next small => exact List.forall_mem_cons.mpr ⟨isDigit_of_digitValue value small,ih read⟩
      next => cases read
    next => cases read

theorem isDigit_of_decimal? {cs : List Char} {limit n : Nat} (read : decimal? limit cs = some n) :
    cs ≠ [] ∧ ∀ c ∈ cs, c.isDigit = true := by
  obtain ⟨value,-⟩ := Option.filter_eq_some_iff.mp read
  cases cs with
  | nil => cases value
  | cons c cs => exact ⟨List.cons_ne_nil c cs,isDigit_of_digitsFrom value⟩

theorem mem_of_int64? {cs : List Char} {v : Int} (read : int64? cs = some v) :
    ∀ c ∈ cs, c ∈ ['-','+'] ∨ c.isDigit = true := by
  unfold int64? at read
  split at read
  all_goals
    obtain ⟨_,number,-⟩ := Option.map_eq_some_iff.mp read
    obtain ⟨n,number,-⟩ := Option.bind_eq_some_iff.mp number
    have digits := (isDigit_of_decimal? number).2
    simp_all

theorem digitsFrom_ten {cs : List Char} (digits : ∀ c ∈ cs, c.isDigit = true) (m : Nat) :
    digitsFrom 10 m cs = some (Nat.ofDigitChars 10 cs m) := by
  induction cs generalizing m with
  | nil => rfl
  | cons c cs ih =>
    obtain ⟨here,later⟩ := List.forall_mem_cons.mp digits
    have value : digitValue c = some (c.toNat - '0'.toNat) := by simp [digitValue,here]
    have small : c.toNat - '0'.toNat < 10 := by
      have all : ∀ d ∈ "0123456789".toList, d.toNat - '0'.toNat < 10 := by decide
      exact all c (mem_digits here)
    rw [digitsFrom,value]
    simp only [if_pos small]
    rw [ih later,Nat.ofDigitChars_cons,Nat.mul_comm]

theorem decimal?_toDigits {limit n : Nat} (fits : n ≤ limit) :
    decimal? limit (Nat.toDigits 10 n) = some n := by
  have digits : ∀ c ∈ Nat.toDigits 10 n, c.isDigit = true := fun c inside =>
    Nat.isDigit_of_mem_toDigits (by decide) (by decide) inside
  have read := digitsFrom_ten digits 0
  rw [Nat.ofDigitChars_ten_toDigits] at read
  have whole : digits? 10 (Nat.toDigits 10 n) = some n := by
    cases shown : Nat.toDigits 10 n with
    | nil => exact absurd shown Nat.toDigits_ne_nil
    | cons c cs => rwa [shown] at read
  simp [decimal?,whole,Option.filter,fits]

theorem int64?_of_digits {cs : List Char} (digits : ∀ c ∈ cs, c.isDigit = true) :
    int64? cs = (decimal? 0x7FFFFFFFFFFFFFFF cs).map Int.ofNat := by
  have signs : ∀ c ∈ ['-','+'], c.isDigit = false := by decide
  unfold int64?
  split
  next cs => simp [signs] at digits
  next cs => simp [signs] at digits
  next => cases decimal? 0x7FFFFFFFFFFFFFFF cs <;> rfl

/-- A 64-bit integer is read back from its digits. -/
theorem int64?_toString {n : Int} (lower : -0x8000000000000000 ≤ n) (upper : n ≤ 0x7FFFFFFFFFFFFFFF) :
    int64? (toString n).toList = some n := by
  cases n with
  | ofNat m =>
    have shown : (toString (Int.ofNat m)).toList = Nat.toDigits 10 m := Nat.toList_repr
    have digits : ∀ c ∈ Nat.toDigits 10 m, c.isDigit = true := fun c inside =>
      Nat.isDigit_of_mem_toDigits (by decide) (by decide) inside
    have fits : m ≤ 0x7FFFFFFFFFFFFFFF := by
      rw [Int.ofNat_eq_natCast] at upper
      omega
    rw [shown,int64?_of_digits digits,decimal?_toDigits fits]
    rfl
  | negSucc m =>
    have shown : (toString (Int.negSucc m)).toList = '-' :: Nat.toDigits 10 (m + 1) := by
      have sign : (toString (Int.negSucc m)) = "-" ++ Nat.repr (m + 1) := rfl
      rw [sign,String.toList_append,Nat.toList_repr]
      rfl
    have fits : m + 1 ≤ 0x8000000000000000 := by omega
    rw [shown,int64?,decimal?_toDigits fits]
    rfl

theorem skipChar_cons (c d : Char) (s : List Char) :
    skipChar c (d :: s) = if d = c then some s else none := rfl

theorem skipChar_eq_some {c : Char} {s rest : List Char} :
    skipChar c s = some rest ↔ s = c :: rest := by
  cases s with
  | nil => simp [skipChar]
  | cons d s => simp [skipChar_cons]

theorem skipChar_self (c : Char) (s : List Char) : skipChar c (c :: s) = some s :=
  skipChar_eq_some.mpr rfl

end PipelineAtlas.Text

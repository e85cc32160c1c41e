import Mathlib.Algebra.BigOperators.Fin
import PipelineAtlas.Proofs.NodeId

/-! The hash of a text as one sum. It is taken over the code units of UTF-16, said by what they stand
for, and is the only number of 32 bits with a sign that the sum leaves there. -/
namespace PipelineAtlas

/-- What UTF-16 writes for a character: its number, or two surrogates that carry ten bits each of
what a number has beyond sixteen bits. -/
inductive Utf16Char (c : Char) : List Nat → Prop
  | single (small : c.toNat < 0x10000) : Utf16Char c [c.toNat]
  | pair (high low : Nat) (highBits : high < 0x400) (lowBits : low < 0x400)
      (value : c.toNat = 0x10000 + high * 0x400 + low) : Utf16Char c [0xD800 + high,0xDC00 + low]

/-- What UTF-16 writes for a text. -/
inductive Utf16 : List Char → List Nat → Prop
  | nil : Utf16 [] []
  | cons {c : Char} {s : List Char} {us vs : List Nat} (first : Utf16Char c us) (rest : Utf16 s vs) :
      Utf16 (c :: s) (us ++ vs)

theorem toNat_lt (c : Char) : c.toNat < 0x110000 := by
  have valid : c.toNat < 0xD800 ∨ 0xDFFF < c.toNat ∧ c.toNat < 0x110000 := c.valid
  omega

theorem utf16Char_iff {c : Char} {us : List Nat} : Utf16Char c us ↔ us = codeUnits c := by
  have bound := toNat_lt c
  constructor
  · intro written
    cases written with
    | single small => rw [codeUnits,if_pos small]
    | pair high low highBits lowBits value =>
      have large : ¬ c.toNat < 0x10000 := by omega
      have quotient : (c.toNat - 0x10000) / 0x400 = high := by omega
      have remainder : (c.toNat - 0x10000) % 0x400 = low := by omega
      rw [codeUnits,if_neg large,quotient,remainder]
  · rintro rfl
    unfold codeUnits
    split
    next small => exact .single small
    next large => exact .pair _ _ (by omega) (by omega) (by omega)

theorem utf16_iff {s : List Char} {us : List Nat} : Utf16 s us ↔ us = s.flatMap codeUnits := by
  constructor
  · intro written
    induction written with
    | nil => rfl
    | cons first _ ih => rw [List.flatMap_cons,utf16Char_iff.mp first,ih]
  · rintro rfl
    induction s with
    | nil => exact .nil
    | cons c s ih => exact .cons (utf16Char_iff.mpr rfl) ih

/-- The number whose digits to the base 31 are the code units, the first one the highest. -/
def powerSum (us : List Nat) : Int :=
  ∑ i : Fin us.length, (us[i] : Int) * 31 ^ (us.length - 1 - i)

theorem powerSum_cons (u : Nat) (us : List Nat) :
    powerSum (u :: us) = u * 31 ^ us.length + powerSum us := by
  have later (i : Fin us.length) : us.length - (i + 1) = us.length - 1 - i := by omega
  have split := Fin.sum_univ_succ fun i : Fin (us.length + 1) =>
    ((u :: us)[i] : Int) * 31 ^ (us.length - i)
  refine split.trans ?_
  simp [powerSum,later]

theorem ofDigits_eq_powerSum (us : List Nat) :
    ((Nat.ofDigits 31 us.reverse : Nat) : Int) = powerSum us := by
  induction us with
  | nil => rfl
  | cons u us ih =>
    rw [List.reverse_cons,Nat.ofDigits_append,List.length_reverse,Nat.ofDigits_singleton,powerSum_cons,
      ← ih]
    push_cast
    ring

theorem unitValue_eq (s : String) : (unitValue s : Int) = powerSum (units s) :=
  ofDigits_eq_powerSum (units s)

/-- A number of 32 bits with a sign is the only one of its remainder. -/
theorem bmod_eq_iff {x h : Int} :
    x.bmod 0x100000000 = h ↔ -2 ^ 31 ≤ h ∧ h < 2 ^ 31 ∧ h ≡ x [ZMOD 2 ^ 32] := by
  have low : -0x80000000 ≤ x.bmod 0x100000000 := Int.le_bmod (by decide)
  have high : x.bmod 0x100000000 < 0x80000000 := Int.bmod_lt (by decide)
  have kept : x.bmod 0x100000000 % 0x100000000 = x % 0x100000000 := Int.bmod_emod
  rw [Int.ModEq]
  omega

theorem hashCode_modEq (s : String) : hashCode s ≡ unitValue s [ZMOD 2 ^ 32] :=
  (bmod_eq_iff.mp (hashCode_eq s).symm).2.2

theorem hashCode_append (s t : String) :
    hashCode (s ++ t) ≡ hashCode s * 31 ^ (units t).length + hashCode t [ZMOD 2 ^ 32] := by
  have whole := hashCode_modEq (s ++ t)
  rw [unitValue_append] at whole
  push_cast at whole
  exact whole.trans (((hashCode_modEq s).symm.mul_right _).add (hashCode_modEq t).symm)

theorem hashCode_append_congr {r s : String} (same : hashCode r = hashCode s) (t : String) :
    hashCode (r ++ t) = hashCode (s ++ t) := by
  have alike : unitValue r ≡ unitValue s [ZMOD 0x100000000] :=
    bmod_eq_bmod_iff.mp (by rw [← hashCode_eq,← hashCode_eq,same])
  rw [hashCode_eq,hashCode_eq,bmod_eq_bmod_iff,unitValue_append,unitValue_append]
  push_cast
  exact (alike.mul_right _).add_right _

/-- The digits of a number, the highest first. No other digit follows a zero at the start. -/
structure IsDecimal (digits : List Char) (n : Nat) : Prop where
  nonempty : digits ≠ []
  digit : ∀ c ∈ digits, c.isDigit = true
  value : Nat.ofDigitChars 10 digits 0 = n
  alone : digits.head? = some '0' → digits = ['0']

theorem eq_zero_of_head?_toDigits {n : Nat} (zero : (Nat.toDigits 10 n).head? = some '0') : n = 0 := by
  induction n using Nat.strongRecOn with
  | _ n ih =>
  by_cases small : n < 10
  · have all : ∀ m < 10, m.digitChar = '0' → m = 0 := by decide
    rw [Nat.toDigits_of_lt_base small,List.head?_cons,Option.some.injEq] at zero
    exact all n small zero
  · rw [Nat.toDigits_of_base_le (by decide) (by omega),
      List.head?_append_of_ne_nil _ Nat.toDigits_ne_nil] at zero
    have less := ih (n / 10) (by omega) zero
    omega

theorem isDecimal_toDigits (n : Nat) : IsDecimal (Nat.toDigits 10 n) n where
  nonempty := Nat.toDigits_ne_nil
  digit _ inside := Nat.isDigit_of_mem_toDigits (by decide) (by decide) inside
  value := Nat.ofDigitChars_ten_toDigits
  alone zero := by rw [eq_zero_of_head?_toDigits zero]; rfl

theorem toList_nodeId (file key : String) : (nodeId file key).toList =
    'n' :: Nat.toDigits 10 (hashCode (file ++ "::" ++ key)).natAbs := by
  rw [nodeId,String.toList_append]
  exact congrArg ('n' :: ·) Nat.toList_repr

/-- The hash of a text is the representative of the power sum of its code units, which takes ends of
texts along, and a node name holds its magnitude in decimal, that of the least number included. -/
theorem hashCode_of_utf16 (s t : String) :
    ∃ us vs, (∀ ws, Utf16 s.toList ws ↔ ws = us) ∧ (∀ ws, Utf16 t.toList ws ↔ ws = vs) ∧
      (∀ h, hashCode s = h ↔ -2 ^ 31 ≤ h ∧ h < 2 ^ 31 ∧ h ≡ powerSum us [ZMOD 2 ^ 32]) ∧
      hashCode (s ++ t) ≡ hashCode s * 31 ^ vs.length + hashCode t [ZMOD 2 ^ 32] ∧
      (∀ r, hashCode r = hashCode s → hashCode (r ++ t) = hashCode (s ++ t)) ∧
      (∀ file key, ∃ digits, IsDecimal digits (hashCode (file ++ "::" ++ key)).natAbs ∧
        (nodeId file key).toList = 'n' :: digits) ∧
      ∃ file key, hashCode (file ++ "::" ++ key) = -2 ^ 31 ∧ nodeId file key = "n2147483648" := by
  refine ⟨units s,units t,fun _ => utf16_iff,fun _ => utf16_iff,fun h => ?_,hashCode_append s t,
    fun _ same => hashCode_append_congr same t,
    fun file key => ⟨_,isDecimal_toDigits _,toList_nodeId file key⟩,"dag","esxooii",?_,?_⟩
  · rw [hashCode_eq,bmod_eq_iff,unitValue_eq]
  · decide +kernel
  · decide +kernel

end PipelineAtlas

import Mathlib.Data.Int.ModEq
import Mathlib.Data.Nat.Digits.Lemmas
import Mathlib.Tactic.Ring
import PipelineAtlas.NodeId

/-! Which things share a node name. The hash of a text is a number to the base 31 in 32 bits, so texts
share a name if their numbers agree there up to the sign. -/
namespace PipelineAtlas

def units (s : String) : List Nat := s.toList.flatMap codeUnits

/-- The number whose digits to the base 31 are the code units of a text, the highest first. -/
def unitValue (s : String) : Nat := Nat.ofDigits 31 (units s).reverse

theorem units_append (s t : String) : units (s ++ t) = units s ++ units t := by
  rw [units,String.toList_append,List.flatMap_append,units,units]

theorem unitValue_append (s t : String) :
    unitValue (s ++ t) = unitValue s * 31 ^ (units t).length + unitValue t := by
  rw [unitValue,units_append,List.reverse_append,Nat.ofDigits_append,List.length_reverse,unitValue,
    unitValue]
  ring

theorem bmod_eq_bmod_iff {x y : Int} {m : Nat} : x.bmod m = y.bmod m ↔ x ≡ y [ZMOD m] := by
  constructor
  · intro same
    rw [Int.ModEq,← Int.bmod_emod,same,Int.bmod_emod]
  · intro same
    rw [← Int.emod_bmod,same,Int.emod_bmod]

theorem natAbs_bmod_eq_iff {x y : Int} :
    (x.bmod 0x100000000).natAbs = (y.bmod 0x100000000).natAbs ↔
      x ≡ y [ZMOD 0x100000000] ∨ x ≡ -y [ZMOD 0x100000000] := by
  have first : x.bmod 0x100000000 % 0x100000000 = x % 0x100000000 := Int.bmod_emod
  have second : y.bmod 0x100000000 % 0x100000000 = y % 0x100000000 := Int.bmod_emod
  have low : -0x80000000 ≤ x.bmod 0x100000000 := Int.le_bmod (by decide)
  have low' : -0x80000000 ≤ y.bmod 0x100000000 := Int.le_bmod (by decide)
  have high : x.bmod 0x100000000 < 0x80000000 := Int.bmod_lt (by decide)
  have high' : y.bmod 0x100000000 < 0x80000000 := Int.bmod_lt (by decide)
  rw [Int.ModEq,Int.ModEq]
  omega

theorem foldl_hashStep (us : List Nat) (h : Int) :
    us.foldl hashStep (h.bmod 0x100000000) =
      (h * 31 ^ us.length + (Nat.ofDigits 31 us.reverse : Nat)).bmod 0x100000000 := by
  induction us generalizing h with
  | nil => simp
  | cons u us ih =>
    have step : hashStep (h.bmod 0x100000000) u = (h * 31 + u).bmod 0x100000000 := by
      rw [hashStep,bmod_eq_bmod_iff]
      have kept : h.bmod 0x100000000 ≡ h [ZMOD 0x100000000] := Int.bmod_emod
      exact (kept.mul_right 31).add_right u
    rw [List.foldl_cons,step,ih,List.length_cons,List.reverse_cons,Nat.ofDigits_append,
      List.length_reverse,Nat.ofDigits_singleton]
    congr 1
    push_cast
    ring

theorem hashCode_eq (s : String) : hashCode s = Int.bmod (unitValue s) 0x100000000 := by
  have sum := foldl_hashStep (units s) 0
  rw [Int.zero_bmod,Int.zero_mul,Int.zero_add] at sum
  exact sum

theorem toString_eq_iff {m n : Nat} : toString m = toString n ↔ m = n := by
  refine ⟨fun same => ?_,congrArg toString⟩
  have digits : Nat.toDigits 10 m = Nat.toDigits 10 n := by
    rw [← Nat.toList_repr,← Nat.toList_repr]
    exact congrArg String.toList same
  have numbers := congrArg (Nat.ofDigitChars 10 · 0) digits
  rwa [Nat.ofDigitChars_ten_toDigits,Nat.ofDigitChars_ten_toDigits] at numbers

/-- The numbers of two texts agree in 32 bits up to the sign. -/
def Clash (s t : String) : Prop :=
  unitValue s ≡ unitValue t [ZMOD 0x100000000] ∨ unitValue s ≡ -unitValue t [ZMOD 0x100000000]

instance (s t : String) : Decidable (Clash s t) := inferInstanceAs (Decidable (_ ∨ _))

theorem nodeId_eq_iff {file key file' key' : String} :
    nodeId file key = nodeId file' key' ↔
      Clash (file ++ "::" ++ key) (file' ++ "::" ++ key') := by
  rw [Clash,← natAbs_bmod_eq_iff,← hashCode_eq,← hashCode_eq,nodeId,nodeId,String.append_right_inj]
  exact toString_eq_iff

/-- Parts of the same length whose numbers agree may stand for each other in every key of every
file. -/
theorem nodeId_replace {s t : String} (sameLength : (units s).length = (units t).length)
    (sameValue : unitValue s ≡ unitValue t [ZMOD 0x100000000]) (file before after : String) :
    nodeId file (before ++ s ++ after) = nodeId file (before ++ t ++ after) := by
  rw [nodeId_eq_iff]
  refine .inl ?_
  simp only [← String.append_assoc,unitValue_append _ after,unitValue_append _ s,
    unitValue_append _ t,sameLength]
  push_cast
  exact ((sameValue.add_left _).mul_right _).add_right _

end PipelineAtlas

/-! Numbers in texts: runs of ASCII digits in bases up to sixteen, with or without a sign. Single
characters part the numbers that stand together. -/
namespace PipelineAtlas.Text

def digitValue (c : Char) : Option Nat :=
  if c.isDigit then some (c.toNat - '0'.toNat)
  else if 'a' ≤ c ∧ c ≤ 'f' then some (c.toNat - 'a'.toNat + 10)
  else if 'A' ≤ c ∧ c ≤ 'F' then some (c.toNat - 'A'.toNat + 10)
  else none

def digitsFrom (base n : Nat) : List Char → Option Nat
  | [] => some n
  | c :: cs =>
    match digitValue c with
    | some d => if d < base then digitsFrom base (n * base + d) cs else none
    | none => none

def digits? (base : Nat) : List Char → Option Nat
  | [] => none
  | cs => digitsFrom base 0 cs

def decimal? (limit : Nat) (cs : List Char) : Option Nat :=
  (digits? 10 cs).filter (· ≤ limit)

def unsigned? (limit : Nat) : List Char → Option Nat
  | '+' :: cs => decimal? limit cs
  | cs => decimal? limit cs

def int64? : List Char → Option Int
  | '-' :: cs => (decimal? 0x8000000000000000 cs).map fun n => -(n : Int)
  | '+' :: cs => (decimal? 0x7FFFFFFFFFFFFFFF cs).map fun n => (n : Int)
  | cs => (decimal? 0x7FFFFFFFFFFFFFFF cs).map fun n => (n : Int)

/-- The text behind a character that comes first. -/
def skipChar (c : Char) : List Char → Option (List Char)
  | [] => none
  | d :: s => if d = c then some s else none

def padded (width n : Nat) : String :=
  let digits := toString n
  String.ofList (List.replicate (width - digits.length) '0') ++ digits

end PipelineAtlas.Text

import PipelineAtlas.Text.Number

/-! What a scalar can be read as: nothing, a truth value, a whole number, or a number with a
fraction. -/
namespace PipelineAtlas.Yaml

/-- A number. One that is not written as a whole number is kept as the bits of its nearest
floating-point number, with one zero. -/
inductive Number where
  | whole (n : Int)
  | fraction (bits : UInt64)
deriving DecidableEq, Repr

def isNull (s : List Char) : Bool :=
  ["null","Null","NULL","~"].any fun t => t.toList == s

def truth? (s : List Char) : Option Bool :=
  if ["true","True","TRUE"].any fun t => t.toList == s then some true
  else if ["false","False","FALSE"].any fun t => t.toList == s then some false
  else none

def unsigned : List Char → List Char
  | '+' :: cs => cs
  | '-' :: cs => cs
  | cs => cs

def isPadded (s : List Char) : Bool :=
  match unsigned s with
  | '0' :: c :: cs => (c :: cs).all Char.isDigit
  | _ => false

def natural? : List Char → Option Nat
  | '0' :: 'x' :: cs => Text.digits? 16 cs
  | '0' :: 'o' :: cs => Text.digits? 8 cs
  | '0' :: 'b' :: cs => Text.digits? 2 cs
  | cs => if isPadded cs then none else Text.digits? 10 cs

def positive? : List Char → Option Nat
  | '+' :: cs => natural? cs
  | cs => natural? cs

def whole? : List Char → Option Int
  | '-' :: cs => (natural? cs).map fun n => -(n : Int)
  | cs => (positive? cs).map fun n => (n : Int)

/-- The power of ten behind the mark of an exponent, and 0 if nothing is left. -/
def exponent? : List Char → Option Int
  | [] => some 0
  | c :: cs =>
    if c = 'e' ∨ c = 'E' then
      let n := (Text.digits? 10 (unsigned cs)).map fun n => (n : Int)
      if cs.head? == some '-' then n.map fun n => -n else n
    else none

/-- The digits of a decimal number as one number, with the power of ten that it is multiplied
by. -/
def decimalParts? (s : List Char) : Option (Nat × Int) := do
  let before := s.takeWhile Char.isDigit
  let rest := s.drop before.length
  let fraction :=
    match rest with
    | '.' :: cs => cs.takeWhile Char.isDigit
    | _ => []
  let rest :=
    match rest with
    | '.' :: cs => cs.drop fraction.length
    | cs => cs
  let n ← Text.digits? 10 (before ++ fraction)
  let e ← exponent? rest
  return (n,e - fraction.length)

/-- The bits of the floating-point number nearest to a decimal number, if that is finite. Numbers
below `10^-400` are nearest to zero, and numbers above `10^400` are beyond all finite ones. -/
def nearestBits? (n : Nat) (e : Int) : Option UInt64 :=
  let size := (toString n).length + e
  if n = 0 ∨ size < -400 then some 0
  else if 400 < size then none
  else
    let x := Float.ofScientific n (decide (e < 0)) e.natAbs
    if x.isFinite then some x.toBits else none

def negateBits (bits : UInt64) : UInt64 :=
  if bits = 0 then 0 else bits ||| 0x8000000000000000

def infinityBits : UInt64 := 0x7FF0000000000000

def nanBits : UInt64 := 0x7FF8000000000000

def fraction? (s : List Char) : Option UInt64 :=
  let finite (cs : List Char) : Option UInt64 :=
    (decimalParts? cs).bind fun (n,e) => nearestBits? n e
  match s with
  | '+' :: cs =>
    if [".inf",".Inf",".INF"].any fun t => t.toList == cs then some infinityBits else finite cs
  | '-' :: cs =>
    if [".inf",".Inf",".INF"].any fun t => t.toList == cs then some (negateBits infinityBits)
    else (finite cs).map negateBits
  | cs =>
    if [".inf",".Inf",".INF"].any fun t => t.toList == cs then some infinityBits
    else if [".nan",".NaN",".NAN"].any fun t => t.toList == cs then some nanBits
    else finite cs

end PipelineAtlas.Yaml

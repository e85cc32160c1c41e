import PipelineAtlas.Script.Cell
import PipelineAtlas.Text.Blank

/-! Brackets in code: the text up to a matching bracket, and the parts of a text between separators
that no bracket encloses. The kinds of brackets are not told apart. -/
namespace PipelineAtlas.Script

namespace Cell

def isCode (x : Cell) (c : Char) : Bool := x.role == .code && x.char == c

def opens (x : Cell) : Bool := x.isCode '(' || x.isCode '[' || x.isCode '{'

def closes (x : Cell) : Bool := x.isCode ')' || x.isCode ']' || x.isCode '}'

/-- The number of open brackets after a cell; a bracket that closes nothing does not count. -/
def depthAfter (x : Cell) (depth : Nat) : Nat :=
  if x.opens then depth + 1 else if x.closes then depth - 1 else depth

end Cell

/-- The cells up to the bracket that closes the last of `depth` open ones, and those after it. -/
def closeFrom (depth : Nat) : List Cell → Option (List Cell × List Cell)
  | [] => none
  | x :: rest =>
    let after := x.depthAfter depth
    if x.closes && after == 0 then some ([],rest)
    else (closeFrom after rest).map fun (inside,behind) => (x :: inside,behind)

/-- What the bracket at the start of the cells encloses, and the cells after its partner. -/
def enclosed? : List Cell → Option (List Cell × List Cell)
  | [] => none
  | x :: rest => if x.opens then closeFrom 1 rest else none

/-- The parts between separators outside all brackets, given the part begun, last cell first. -/
def splitFrom (separator : Char) (depth : Nat) (begun : List Cell) : List Cell → List (List Cell)
  | [] => [begun.reverse]
  | x :: rest =>
    if depth = 0 && x.isCode separator then begun.reverse :: splitFrom separator 0 [] rest
    else splitFrom separator (x.depthAfter depth) (x :: begun) rest

def isBlankPart (cells : List Cell) : Bool := cells.all fun x => Text.isBlank x.char

def splitTopLevel (separator : Char) (cells : List Cell) : List (List Cell) :=
  (splitFrom separator 0 [] cells).filter fun part => !isBlankPart part

def trimCells (cells : List Cell) : List Cell :=
  ((cells.dropWhile fun x => Text.isBlank x.char).reverse.dropWhile
    fun x => Text.isBlank x.char).reverse

inductive Shift where
  /-- What stands on the left runs first. -/
  | forward
  /-- What stands on the right runs first. -/
  | backward
deriving DecidableEq, Repr

def Shift.ofChar? (c : Char) : Option Shift :=
  if c = '>' then some .forward else if c = '<' then some .backward else none

def shiftAt? (x y : Cell) : Option Shift :=
  if x.role = .code ∧ y.char = x.char then Shift.ofChar? x.char else none

/-- An operand and the marks and operands that follow it. -/
structure ShiftChain where
  first : List Cell
  rest : List (Shift × List Cell)
deriving DecidableEq, Repr

def ShiftChain.push (x : Cell) (chain : ShiftChain) : ShiftChain :=
  { chain with first := x :: chain.first }

def ShiftChain.shift (s : Shift) (chain : ShiftChain) : ShiftChain :=
  ⟨[],(s,chain.first) :: chain.rest⟩

def shiftChainFrom (depth : Nat) : List Cell → ShiftChain
  | [] => ⟨[],[]⟩
  | [x] => ⟨[x],[]⟩
  | x :: y :: rest =>
    match if depth = 0 then shiftAt? x y else none with
    | some s => (shiftChainFrom 0 rest).shift s
    | none => (shiftChainFrom (x.depthAfter depth) (y :: rest)).push x

def shiftChain (cells : List Cell) : ShiftChain := shiftChainFrom 0 cells

/-- Takes parentheses off that enclose all of the cells, at most `n` times. -/
def unwrapFrom : Nat → List Cell → List Cell
  | 0,cells => cells
  | n + 1,cells =>
    match cells with
    | [] => []
    | x :: _ =>
      if x.isCode '(' then
        match enclosed? cells with
        | some (inside,[]) => unwrapFrom n (trimCells inside)
        | _ => cells
      else cells

def unwrap (cells : List Cell) : List Cell := unwrapFrom cells.length (trimCells cells)

end PipelineAtlas.Script

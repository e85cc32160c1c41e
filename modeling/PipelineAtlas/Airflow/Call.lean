import PipelineAtlas.Script.Bracket
import PipelineAtlas.Script.Value

/-! Calls found in the code of a source: the first `DAG(...)` call, and the operator calls that a
line assigns to a variable. -/
namespace PipelineAtlas.Airflow

open Script

def isSpace (x : Cell) : Bool := x.shown == ' ' || x.shown == '\t'

def skipSpaces (cells : List Cell) : List Cell := cells.dropWhile isSpace

/-- The cells from an opening parenthesis on, which blanks may precede. -/
def openingAt? (cells : List Cell) : Option (List Cell) :=
  match skipSpaces cells with
  | x :: rest => if x.shown = '(' then some (x :: rest) else none
  | [] => none

def shownText (cells : List Cell) : List Char := cells.map Cell.shown

def declarationName : List Char := "DAG".toList

/-- The first call with that name: its line and the cells from its parenthesis on. `inWord` says
whether a word goes on from before. -/
def declarationFrom (inWord : Bool) (line : Nat) : List Cell → Option (Nat × List Cell)
  | [] => none
  | x :: rest =>
    match
      if !inWord &&
          shownText ((x :: rest).take declarationName.length) == declarationName then
        openingAt? ((x :: rest).drop declarationName.length)
      else none with
    | some call => some (line,call)
    | none => declarationFrom (Text.isWord x.shown) (if x.char = '\n' then line + 1 else line) rest

def declaration? (cells : List Cell) : Option (Nat × List Cell) := declarationFrom false 1 cells

def lineStartsFrom (line : Nat) : List Cell → List (Nat × List Cell)
  | [] => []
  | x :: rest =>
    if x.char = '\n' then (line + 1,rest) :: lineStartsFrom (line + 1) rest
    else lineStartsFrom line rest

def lineStarts (cells : List Cell) : List (Nat × List Cell) :=
  (1,cells) :: lineStartsFrom 1 cells

/-- An operator call assigned to a variable; `call` goes from its parenthesis on. -/
structure OperatorCall where
  target : String
  operator : String
  line : Nat
  call : List Cell
deriving DecidableEq, Repr

def startsName (word : List Char) : Bool := (word.head?).any Text.isAsciiStart

def isOperatorPath (path : List Char) : Bool :=
  let names := segments path
  names.dropLast.all startsName && (names.getLast?).any ("Operator".toList.isSuffixOf ·)

def operatorCall? (line : Nat) (cells : List Cell) : Option OperatorCall :=
  let cells := skipSpaces cells
  let target := shownText (cells.takeWhile fun x => Text.isWord x.shown)
  match skipSpaces (cells.dropWhile fun x => Text.isWord x.shown) with
  | equals :: rest =>
    let rest := skipSpaces rest
    let inPath : Cell → Bool := fun x => Text.isWord x.shown || x.shown == '.'
    let path := shownText (rest.takeWhile inPath)
    match openingAt? (rest.dropWhile inPath) with
    | some call =>
      if equals.shown == '=' && startsName target && isOperatorPath path then
        some ⟨String.ofList target,String.ofList path,line,call⟩
      else none
    | none => none
  | [] => none

def operatorCalls (cells : List Cell) : List OperatorCall :=
  (lineStarts cells).filterMap fun (line,rest) => operatorCall? line rest

/-- The arguments of a call that starts with its parenthesis, comments hidden. -/
def callArguments? (call : List Cell) : Option Arguments :=
  (enclosed? call).map fun (inside,_) => readArguments (cleanText inside)

end PipelineAtlas.Airflow

import PipelineAtlas.Script.Bracket
import PipelineAtlas.Script.Literal
import PipelineAtlas.Text.Number
import PipelineAtlas.Text.Quoted
import PipelineAtlas.Text.Word

/-! Values as they stand in the arguments of a call: literals, names, lists and calls. Whatever has
another form is kept as its text. -/
namespace PipelineAtlas.Script

structure Argument (α : Type) where
  key : Option String
  value : α

inductive Value where
  | string (s : String)
  | bool (b : Bool)
  | none
  | int (n : Int)
  | name (text : String)
  | list (items : List Value)
  | call (function : String) (arguments : List (Argument Value))
  | other (text : String)

abbrev Arguments := List (Argument Value)

def Arguments.byKey (args : Arguments) (key : String) : Option Value :=
  (args.find? fun a => a.key == some key).map (·.value)

def Arguments.positional (args : Arguments) : List Value :=
  (args.filter fun a => a.key.isNone).map (·.value)

mutual

def Value.describe : Value → String
  | .string s => String.ofList (Text.quoted s.toList)
  | .bool b => if b then "True" else "False"
  | .none => "None"
  | .int n => toString n
  | .name text => text
  | .list [] => "[]"
  | .list (v :: vs) => "[" ++ v.describe ++ Value.describeMore vs ++ "]"
  | .call function _ => function ++ "(...)"
  | .other text => text

def Value.describeMore : List Value → String
  | [] => ""
  | v :: vs => ", " ++ v.describe ++ Value.describeMore vs

end

def segmentsFrom (begun : List Char) : List Char → List (List Char)
  | [] => [begun.reverse]
  | c :: cs => if c = '.' then begun.reverse :: segmentsFrom [] cs else segmentsFrom (c :: begun) cs

def segments (s : List Char) : List (List Char) := segmentsFrom [] s

def isDottedName (s : List Char) : Bool := (segments s).all Text.isIdentifier

/-- An integer; underscores do not count. -/
def integer? (s : List Char) : Option Int := Text.int64? (s.filter (· != '_'))

def keyword? (s : List Char) : Option Value :=
  if s = "True".toList then some (.bool true)
  else if s = "False".toList then some (.bool false)
  else if s = "None".toList then some .none
  else none

def listBody? (cells : List Cell) : Option (List Cell) :=
  match cells with
  | x :: rest =>
    if x.char = '[' && (rest.getLast?.map (·.char)) == some ']' then some rest.dropLast else none
  | [] => none

def callParts? (cells : List Cell) : Option (List Char × List Cell) :=
  let function := Text.trim (text (cells.takeWhile fun x => x.char != '('))
  match enclosed? (cells.dropWhile fun x => x.char != '(') with
  | some (inside,[]) => if isDottedName function then some (function,inside) else none
  | _ => none

/-- The key in front of the first equals sign and the value behind it. Two equals signs in a row
are a comparison. -/
def keyParts? (cells : List Cell) : Option (List Char × List Cell) :=
  let key := Text.trim (text (cells.takeWhile fun x => x.char != '='))
  match cells.dropWhile fun x => x.char != '=' with
  | _ :: rest =>
    if (rest.head?.map (·.char)) == some '=' || !Text.isIdentifier key then none
    else some (key,rest)
  | [] => none

def splitArgument (cells : List Cell) : Option String × List Cell :=
  match keyParts? (trimCells cells) with
  | some (key,value) => (some (String.ofList key),value)
  | none => (none,cells)

def readValueFrom : Nat → List Cell → Value
  | 0,cells => .other (String.ofList (text cells))
  | n + 1,cells =>
    let cells := trimCells cells
    let chars := text cells
    match keyword? chars with
    | some v => v
    | none =>
    match literal? chars with
    | some s => .string (String.ofList s)
    | none =>
    match integer? chars with
    | some i => .int i
    | none =>
    match listBody? cells with
    | some inside => .list ((splitTopLevel ',' inside).map (readValueFrom n))
    | none =>
    match callParts? cells with
    | some (function,inside) =>
      .call (String.ofList function) ((splitTopLevel ',' inside).map fun part =>
        let (key,value) := splitArgument part
        ⟨key,readValueFrom n value⟩)
    | none =>
      if isDottedName chars then .name (String.ofList chars) else .other (String.ofList chars)

def readCells (cells : List Cell) : Value := readValueFrom (cells.length + 1) cells

def readValue (s : List Char) : Value := readCells (scan s)

def readArguments (s : List Char) : Arguments :=
  (splitTopLevel ',' (scan s)).map fun part =>
    let (key,value) := splitArgument part
    ⟨key,readCells value⟩

end PipelineAtlas.Script

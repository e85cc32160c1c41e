import PipelineAtlas.Yaml.BlockScalar
import PipelineAtlas.Yaml.Folding
import PipelineAtlas.Yaml.Tag

/-! The tokens of a text. In block collections the columns decide: an item or a key further right
than the enclosing collection opens a collection, and a line further left closes those to its right.
A node that can be the key of a mapping is only known to be one at the `:` behind it, so its place
among the tokens is remembered. -/
namespace PipelineAtlas.Yaml

/-- A node that may turn out to be a key: where it begins, and how many tokens are in front of it.
It must be one if nothing else can stand at its column. -/
structure KeyPlace where
  required : Bool
  number : Nat
  position : Position
deriving DecidableEq, Repr

/-- The state in the middle of a text: the tokens so far, last first, with their number, the columns
of the open block collections, innermost first, whether a key may begin here, and the possible key
of every open flow collection, innermost first, above that of the blocks. -/
structure Scan where
  cursor : Cursor
  tokens : List Token := []
  count : Nat := 0
  columns : List Nat := []
  keyAllowed : Bool := true
  keys : List (Option KeyPlace) := [none]
deriving DecidableEq, Repr

namespace Scan

def column (s : Scan) : Nat := s.cursor.position.column

def inFlow (s : Scan) : Bool := decide (1 < s.keys.length)

/-- The first column inside the innermost block collection. -/
def floor (s : Scan) : Nat :=
  match s.columns with
  | [] => 0
  | c :: _ => c + 1

def push (t : Token) (s : Scan) : Scan :=
  { s with tokens := t :: s.tokens,count := s.count + 1 }

def insertAt (number : Nat) (t : Token) (s : Scan) : Scan :=
  let later := s.count - number
  { s with tokens := s.tokens.take later ++ t :: s.tokens.drop later,count := s.count + 1 }

def setKey (k : Option KeyPlace) (s : Scan) : Scan := { s with keys := k :: s.keys.tail }

def mark (t : Token) (s : Scan) : Scan := { s with cursor := s.cursor.skip 1 }.push t

def allowKey (b : Bool) (s : Scan) : Scan := { s with keyAllowed := b }

/-- Gives up the possible key of the innermost collection, unless it must be a key. -/
def dropKey (s : Scan) : Option Scan :=
  match s.keys.head?.join with
  | some k => if k.required then none else some (s.setKey none)
  | none => some s

def saveKey (s : Scan) : Option Scan :=
  if s.keyAllowed then do
    let s ← s.dropKey
    return s.setKey
      (some ⟨!s.inFlow && s.columns.head? == some s.column,s.count,s.cursor.position⟩)
  else some s

/-- Whether a key can no longer begin at a place: it has to end on its line and within 1024
characters. -/
def isStale (p : Position) (k : KeyPlace) : Bool :=
  decide (k.position.line < p.line) || decide (k.position.column + 1024 < p.column)

def dropStale (s : Scan) : Option Scan :=
  let stale := fun k : KeyPlace => isStale s.cursor.position k
  if s.keys.any fun k => k.any fun k => stale k && k.required then none
  else some { s with keys := s.keys.map fun k => k.filter fun k => !stale k }

/-- Opens a block collection at a column, unless one is open there; `place` puts its token. -/
def openBlock (column : Nat) (place : Scan → Scan) (s : Scan) : Scan :=
  if !s.inFlow && decide (s.floor ≤ column) then
    { place s with columns := column :: s.columns }
  else s

def closeBlocks (keep : Nat → Bool) (s : Scan) : Scan :=
  if s.inFlow then s
  else
    let closed := (s.columns.takeWhile fun c => !keep c).length
    { s with
      tokens := List.replicate closed .blockEnd ++ s.tokens
      count := s.count + closed
      columns := s.columns.drop closed }

def openMarked (t : Token) (s : Scan) : Option Scan :=
  if s.inFlow then some s
  else if s.keyAllowed then some (s.openBlock s.column (push t))
  else none

def openFlow (t : Token) (s : Scan) : Option Scan := do
  let s ← s.saveKey
  return { s with keys := none :: s.keys }.allowKey true |>.mark t

def closeFlow (t : Token) (s : Scan) : Option Scan := do
  let s ← s.dropKey
  let s := if s.inFlow then { s with keys := s.keys.tail } else s
  return (s.allowKey false).mark t

def flowEntry (s : Scan) : Option Scan := do
  return ((← s.dropKey).allowKey true).mark .flowEntry

def blockEntry (s : Scan) : Option Scan := do
  let s ← s.openMarked .blockSequenceStart
  return ((← s.dropKey).allowKey true).mark .blockEntry

def explicitKey (s : Scan) : Option Scan := do
  let s ← s.openMarked .blockMappingStart
  return ((← s.dropKey).allowKey !s.inFlow).mark .key

/-- The mark in front of a value, which makes the possible key in front of it a key. -/
def value (s : Scan) : Option Scan :=
  match s.keys.head?.join with
  | some k =>
    let s := s.insertAt k.number .key
    let s := s.openBlock k.position.column (insertAt k.number .blockMappingStart)
    some (((s.setKey none).allowKey false).mark .value)
  | none => do
    let s ← s.openMarked .blockMappingStart
    return (s.allowKey !s.inFlow).mark .value

def moveTo (t : Token) (c : Cursor) (s : Scan) : Scan := { s with cursor := c }.push t

def name (make : List Char → Token) (s : Scan) : Option Scan := do
  let s ← s.saveKey
  let c := s.cursor.skip 1
  let name := c.rest.takeWhile isNameChar
  let c := c.skip name.length
  if !name.isEmpty && (isSpaced c.rest ||
      c.rest.head?.any fun x => ['?',':',',',']','}','%','@','\x60'].contains x) then
    some ((s.allowKey false).moveTo (make name) c)
  else none

def tag (s : Scan) : Option Scan := do
  let s ← s.saveKey
  let (handle,suffix,c) ← tag? s.inFlow s.cursor
  return (s.allowKey false).moveTo (.tag handle suffix) c

def block (folded : Bool) (s : Scan) : Option Scan := do
  let s ← s.dropKey
  let (text,c) ← block? folded s.floor (s.cursor.skip 1)
  return (s.allowKey true).moveTo (.scalar (if folded then .folded else .literal) text) c

def quoted (double : Bool) (s : Scan) : Option Scan := do
  let s ← s.saveKey
  let c := s.cursor.skip 1
  let (text,c) ←
    if double then doubleFrom c.position .none [] .empty c.rest
    else singleFrom c.position false [] .empty c.rest
  return (s.allowKey false).moveTo (.scalar .quoted text) c

def plain (s : Scan) : Option Scan := do
  let s ← s.saveKey
  let (text,broken,c) ←
    plainFrom s.inFlow s.floor s.cursor.position [] .empty s.cursor.rest
  return (s.allowKey broken).moveTo (.scalar .plain text) c

/-- Closes everything in front of a directive or a boundary of documents. -/
def closeAll (s : Scan) : Option Scan := do
  return (← (s.closeBlocks fun _ => false).dropKey).allowKey false

def directive (s : Scan) : Option Scan := do
  let s ← s.closeAll
  let (t,c) ← directive? s.cursor
  return s.moveTo t c

def boundary (t : Token) (s : Scan) : Option Scan := do
  let s ← s.closeAll
  return s.moveTo t (s.cursor.skip 3)

/-- Passes over white space and comments, and over a byte order mark at the start of a line. A line
break in front of a line of a block allows a key there. Tabs are no indentation. -/
def gapFrom (flow allowed comment : Bool) (p : Position) : List Char → Bool × Cursor
  | [] => (allowed,⟨[],p⟩)
  | c :: rest =>
    if isBreak c then gapFrom flow (allowed || !flow) false (p.after c) rest
    else if comment || c == ' ' || (c == '\t' && (flow || !allowed)) ||
        (c == '\ufeff' && p.column == 0) then
      gapFrom flow allowed comment (p.after c) rest
    else if c == '#' then gapFrom flow allowed true (p.after c) rest
    else (allowed,⟨c :: rest,p⟩)

def toToken (s : Scan) : Scan :=
  let (allowed,c) := gapFrom s.inFlow s.keyAllowed false s.cursor.position s.cursor.rest
  { s with cursor := c,keyAllowed := allowed }

def indicated (c : Char) (rest : List Char) (s : Scan) : Option Scan :=
  if c = '[' then s.openFlow .flowSequenceStart
  else if c = '{' then s.openFlow .flowMappingStart
  else if c = ']' then s.closeFlow .flowSequenceEnd
  else if c = '}' then s.closeFlow .flowMappingEnd
  else if c = ',' then s.flowEntry
  else if c = '-' ∧ isSpaced rest then s.blockEntry
  else if c = '?' ∧ (s.inFlow ∨ isSpaced rest) then s.explicitKey
  else if c = ':' ∧ (s.inFlow ∨ isSpaced rest) then s.value
  else if c = '*' then s.name .alias
  else if c = '&' then s.name .anchor
  else if c = '!' then s.tag
  else if c = '|' ∧ !s.inFlow then s.block false
  else if c = '>' ∧ !s.inFlow then s.block true
  else if c = '\'' then s.quoted false
  else if c = '"' then s.quoted true
  else if startsPlain s.inFlow c rest then s.plain
  else none

def step (s : Scan) : Option Scan := do
  let s ← s.toToken.dropStale
  let s := s.closeBlocks fun c => decide (c ≤ s.column)
  match s.cursor.rest with
  | [] => s.closeAll
  | c :: rest =>
    if s.column = 0 ∧ c = '%' then s.directive
    else if s.column = 0 ∧ isMarker '-' (c :: rest) then s.boundary .documentStart
    else if s.column = 0 ∧ isMarker '.' (c :: rest) then s.boundary .documentEnd
    else s.indicated c rest

/-- Reads all tokens. Every step but the last takes at least one character. -/
def run : Nat → Scan → Option (List Token)
  | 0,_ => none
  | fuel + 1,s => do
    let s ← s.step
    if s.cursor.rest.isEmpty then (← s.step).tokens.reverse else run fuel s

end Scan

def tokens? (text : List Char) : Option (List Token) :=
  if text.all isAllowed then
    let text := alignBreaks text
    Scan.run (text.length + 1) { cursor := ⟨text,⟨0,0⟩⟩ }
  else none

end PipelineAtlas.Yaml

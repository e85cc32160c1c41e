/-! Places in a YAML text. The text is taken with its line breaks made alike, so that a line feed is
the usual break; the line and paragraph separators of Unicode are breaks that keep their form. -/
namespace PipelineAtlas.Yaml

def isAllowed (c : Char) : Bool :=
  let n := c.toNat
  n == 9 || n == 10 || n == 13 || n == 0x85 || (decide (0x20 ≤ n) && decide (n ≤ 0x7E)) ||
    (decide (0xA0 ≤ n) && decide (n ≤ 0xD7FF)) || (decide (0xE000 ≤ n) && decide (n ≤ 0xFFFD)) ||
    decide (0x10000 ≤ n)

/-- The text with a line feed for every carriage return, next line and pair of carriage return and
line feed. -/
def alignBreaks : List Char → List Char
  | '\r' :: '\n' :: cs => '\n' :: alignBreaks cs
  | c :: cs => (if c = '\r' ∨ c = '\x85' then '\n' else c) :: alignBreaks cs
  | [] => []

def isBreak (c : Char) : Bool := c == '\n' || c == '\u2028' || c == '\u2029'

def isSpace (c : Char) : Bool := c == ' ' || c == '\t'

/-- Whether a text begins with a blank or a break, or has nothing left. -/
def isSpaced : List Char → Bool
  | [] => true
  | c :: _ => isSpace c || isBreak c

def isNameChar (c : Char) : Bool := c.isAlphanum || c == '_' || c == '-'

def isMarker (mark : Char) : List Char → Bool
  | a :: b :: c :: rest => a == mark && b == mark && c == mark && isSpaced rest
  | _ => false

/-- A line and a column, both counted from 0. -/
structure Position where
  line : Nat
  column : Nat
deriving DecidableEq, Repr

def Position.after (p : Position) (c : Char) : Position :=
  if isBreak c then ⟨p.line + 1,0⟩ else ⟨p.line,p.column + 1⟩

/-- Whether a document ends or starts at a position in front of a text. -/
def Position.isBoundary (p : Position) (rest : List Char) : Bool :=
  p.column == 0 && (isMarker '-' rest || isMarker '.' rest)

structure Cursor where
  rest : List Char
  position : Position
deriving DecidableEq, Repr

namespace Cursor

/-- Passes over characters none of which is a break. -/
def skip (c : Cursor) (n : Nat) : Cursor :=
  ⟨c.rest.drop n,⟨c.position.line,c.position.column + n⟩⟩

def skipWhile (p : Char → Bool) (c : Cursor) : Cursor := c.skip (c.rest.takeWhile p).length

/-- Passes over blanks and a comment up to the end of the line, which has to follow. -/
def toLineEnd (c : Cursor) : Option Cursor :=
  let c := c.skipWhile isSpace
  let c := if c.rest.head? == some '#' then c.skipWhile fun x => !isBreak x else c
  if c.rest.head?.all isBreak then some c else none

def next (c : Cursor) : Cursor :=
  match c.rest with
  | x :: rest => ⟨rest,c.position.after x⟩
  | [] => c

end Cursor

end PipelineAtlas.Yaml

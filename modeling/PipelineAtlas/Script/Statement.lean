import PipelineAtlas.Text.Blank

/-! Statements: the lines of a text, joined where a bracket is open or a backslash ends the line. -/
namespace PipelineAtlas.Script

/-- A statement on one line, and the line of its first character. -/
structure Statement where
  line : Nat
  text : List Char
deriving DecidableEq, Repr

/-- Line breaks become blanks, together with a backslash right in front of them. -/
def joinLines : List Char → List Char
  | '\\' :: '\r' :: '\n' :: cs => ' ' :: joinLines cs
  | '\\' :: '\n' :: cs => ' ' :: joinLines cs
  | c :: cs => (if c = '\r' ∨ c = '\n' then ' ' else c) :: joinLines cs
  | [] => []

/-- A scan for statements: open brackets, whether a backslash came last, the line at hand, and the
statement begun, last character first, with its line. -/
structure StatementScan where
  depth : Nat
  continued : Bool
  line : Nat
  start : Nat
  begun : List Char
deriving DecidableEq, Repr

namespace StatementScan

def atLine (line : Nat) : StatementScan := ⟨0,false,line,line,[]⟩

def finish (s : StatementScan) : List Statement :=
  if s.begun.isEmpty then []
  else [⟨s.start,Text.trimRight (joinLines s.begun.reverse)⟩]

def endsAt (s : StatementScan) (c : Char) : Bool := c == '\n' && s.depth == 0 && !s.continued

/-- Takes one character into the statement. White space does not begin a statement. -/
def push (s : StatementScan) (c : Char) : StatementScan :=
  { depth :=
      if c = '(' ∨ c = '[' ∨ c = '{' then s.depth + 1
      else if c = ')' ∨ c = ']' ∨ c = '}' then s.depth - 1
      else s.depth
    continued := if c = '\n' ∨ Text.isBlank c = false then c == '\\' else s.continued
    line := if c = '\n' then s.line + 1 else s.line
    start := if s.begun.isEmpty then s.line else s.start
    begun := if s.begun.isEmpty && Text.isBlank c then [] else c :: s.begun }

end StatementScan

def statementsFrom (s : StatementScan) : List Char → List Statement
  | [] => s.finish
  | c :: cs =>
    if s.endsAt c then s.finish ++ statementsFrom (.atLine (s.line + 1)) cs
    else statementsFrom (s.push c) cs

def statements (s : List Char) : List Statement := statementsFrom (.atLine 1) s

end PipelineAtlas.Script

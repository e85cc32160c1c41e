import PipelineAtlas.Text.Blank

/-! The lines of a text. A line feed ends a line, together with one carriage return in front of it;
a carriage return alone is an ordinary character. -/
namespace PipelineAtlas.Text

/-- A line that a line feed ended, given last character first: a carriage return at its end is
not part of it. -/
def endedLine : List Char → List Char
  | '\r' :: cs => cs.reverse
  | cs => cs.reverse

def linesFrom (begun : List Char) : List Char → List (List Char)
  | [] => if begun.isEmpty then [] else [begun.reverse]
  | c :: cs => if c = '\n' then endedLine begun :: linesFrom [] cs else linesFrom (c :: begun) cs

/-- The lines of a text. What follows the last line feed is a line unless it is empty. -/
def lines (s : List Char) : List (List Char) := linesFrom [] s

def trimmedLines (s : List Char) : List (List Char) := (lines s).map trim

/-- One-based number of the first line that passes the test, and 1 if there is none. -/
def lineWhere (test : List Char → Bool) (ls : List (List Char)) : Nat :=
  match ls.findIdx? test with
  | some i => i + 1
  | none => 1

end PipelineAtlas.Text

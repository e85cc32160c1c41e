import PipelineAtlas.Text.Lines

/-! Finding the line of a file that names a thing, such as `- id: load`. -/
namespace PipelineAtlas.Source

open Text

def behind? (start s : List Char) : Option (List Char) :=
  if start.isPrefixOf s then some (s.drop start.length) else none

def isQuoteMark (c : Char) : Bool := c == '"' || c == '\''

/-- The text without white space and then without quotation marks at either end. -/
def bareName (s : List Char) : List Char :=
  (((trim s).dropWhile isQuoteMark).reverse.dropWhile isQuoteMark).reverse

def gives (keys : List String) (name : String) (line : List Char) : Bool :=
  match keys.findSome? fun key => behind? key.toList line with
  | some rest => bareName rest == name.toList
  | none => false

/-- The number of the first of some trimmed lines that gives a name, and 1 if none does. -/
def lineGiving (keys : List String) (name : String) (ls : List (List Char)) : Nat :=
  lineWhere (gives keys name) ls

end PipelineAtlas.Source

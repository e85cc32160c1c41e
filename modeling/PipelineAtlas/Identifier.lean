/-! Identifiers of DAGs and tasks: non-empty, at most 250 characters long, and made of ASCII
letters, digits, underscores, hyphens and dots. -/
namespace PipelineAtlas

def maxIdentifierLength : Nat := 250

def isIdentifierChar (c : Char) : Bool := c.isAlphanum || c == '_' || c == '-' || c == '.'

def isWellFormed (id : String) : Bool :=
  !id.toList.isEmpty && decide (id.toList.length ≤ maxIdentifierLength) &&
    id.toList.all isIdentifierChar

end PipelineAtlas

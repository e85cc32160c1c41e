import PipelineAtlas.Script.Cell

/-! The value of a string literal in single, double or triple quotes, raw or not. -/
namespace PipelineAtlas.Script

/-- What a backslash and the character after it stand for. A pair without a meaning stands for
itself, and a backslash before a line feed joins two lines. -/
def escapeMeaning (c : Char) : List Char :=
  if c = 'n' then ['\n']
  else if c = 't' then ['\t']
  else if c = '\\' ∨ c = '\'' ∨ c = '"' then [c]
  else if c = '\n' then []
  else ['\\',c]

/-- The value of the text between the delimiters. There is none if a delimiter stands in it or a
backslash ends it. -/
def literalValue (raw : Bool) (delimiter : List Char) : List Char → Option (List Char)
  | [] => some []
  | c :: cs =>
    if delimiter.isPrefixOf (c :: cs) then none
    else if c ≠ '\\' ∨ raw then (literalValue raw delimiter cs).map (c :: ·)
    else
      match cs with
      | [] => none
      | d :: ds => (literalValue raw delimiter ds).map (escapeMeaning d ++ ·)

/-- The delimiter at the start of a literal. Three quotes are one only if six have room. -/
def delimiterOf (quote : Char) (s : List Char) : List Char :=
  if decide (6 ≤ s.length) && [quote,quote,quote].isPrefixOf s then [quote,quote,quote]
  else [quote]

/-- The text between two equal ends, which must not overlap. -/
def between (ends : List Char) (s : List Char) : Option (List Char) :=
  if ends.isPrefixOf s then
    let inner := s.drop ends.length
    if ends.isSuffixOf inner then some (inner.take (inner.length - ends.length)) else none
  else none

def quotedValue (raw : Bool) : List Char → Option (List Char)
  | [] => none
  | quote :: rest =>
    if isQuote quote then
      let delimiter := delimiterOf quote (quote :: rest)
      (between delimiter (quote :: rest)).bind (literalValue raw delimiter)
    else none

/-- The value of a text that is one literal. The letter r in front makes it raw. -/
def literal? : List Char → Option (List Char)
  | [] => none
  | c :: rest => if c = 'r' ∨ c = 'R' then quotedValue true rest else quotedValue false (c :: rest)

end PipelineAtlas.Script

/-! White space, the texts trimmed of it and the tokens between it. -/
namespace PipelineAtlas.Text

/-- White space in the sense of Unicode. -/
def isBlank (c : Char) : Bool :=
  let n := c.toNat
  (decide (9 ≤ n) && decide (n ≤ 13)) || n == 32 || n == 0x85 || n == 0xA0 || n == 0x1680 ||
    (decide (0x2000 ≤ n) && decide (n ≤ 0x200A)) || n == 0x2028 || n == 0x2029 || n == 0x202F ||
    n == 0x205F || n == 0x3000

def trimLeft (s : List Char) : List Char := s.dropWhile isBlank

def trimRight (s : List Char) : List Char := (s.reverse.dropWhile isBlank).reverse

def trim (s : List Char) : List Char := trimRight (trimLeft s)

/-- The tokens of a text, given the token already begun, last character first. -/
def tokensFrom (begun : List Char) : List Char → List (List Char)
  | [] => if begun.isEmpty then [] else [begun.reverse]
  | c :: cs =>
    if isBlank c then
      if begun.isEmpty then tokensFrom [] cs else begun.reverse :: tokensFrom [] cs
    else tokensFrom (c :: begun) cs

/-- The maximal runs of characters that are not white space. -/
def tokens (s : List Char) : List (List Char) := tokensFrom [] s

end PipelineAtlas.Text

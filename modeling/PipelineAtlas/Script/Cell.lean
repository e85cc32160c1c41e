/-! Python scripts character by character. Each character is code, part of a string literal, or
part of a comment. Two views of a source hide what is not wanted behind blanks, one for every byte,
so that both keep the length and the lines of the source. -/
namespace PipelineAtlas.Script

/-- What a character is part of. Quotes belong to their literal. -/
inductive Role where
  | code
  | literal
  | comment
deriving DecidableEq, Repr

structure Cell where
  char : Char
  role : Role
deriving DecidableEq, Repr

/-- Where a scan stands: in code, in the delimiters or the text of a literal, or in a comment. The
numbers count the quotes of a triple delimiter still to come. -/
inductive Mode where
  | code
  | opening (quote : Char) (left : Nat)
  | body (quote : Char) (triple : Bool)
  | escaped (quote : Char) (triple : Bool)
  | closing (left : Nat)
  | comment
deriving DecidableEq, Repr

def isQuote (c : Char) : Bool := c == '\'' || c == '"'

def twoMore (quote : Char) (rest : List Char) : Bool := [quote,quote].isPrefixOf rest

/-- The mode after a character and the role of the character. `rest` is the text after it, and
`comments` says whether a number sign starts a comment. -/
def Mode.next (comments : Bool) (c : Char) (rest : List Char) : Mode → Mode × Role
  | .code =>
    if isQuote c then
      (if twoMore c rest then .opening c 2 else .body c false,.literal)
    else if comments && c == '#' then (.comment,.comment)
    else (.code,.code)
  | .opening quote left =>
    (if left ≤ 1 then .body quote true else .opening quote (left - 1),.literal)
  | .body quote triple =>
    if c = '\\' then (.escaped quote triple,.literal)
    else if c = quote then
      if triple then (if twoMore quote rest then .closing 2 else .body quote true,.literal)
      else (.code,.literal)
    else (.body quote triple,.literal)
  | .escaped quote triple => (.body quote triple,.literal)
  | .closing left => (if left ≤ 1 then .code else .closing (left - 1),.literal)
  | .comment => if c = '\n' then (.code,.code) else (.comment,.comment)

/-- The cells of a text that a scan meets in some mode. A literal that is not closed runs to the
end of the text. -/
def scanFrom (comments : Bool) (mode : Mode) : List Char → List Cell
  | [] => []
  | c :: rest =>
    let (next,role) := mode.next comments c rest
    ⟨c,role⟩ :: scanFrom comments next rest

def source (s : List Char) : List Cell := scanFrom true .code s

def scan (s : List Char) : List Cell := scanFrom false .code s

/-- A blank for every byte of a character; a line feed stays. -/
def blanked (c : Char) : List Char :=
  if c = '\n' then ['\n'] else List.replicate c.utf8Size ' '

namespace Cell

def shown (x : Cell) : Char :=
  if x.role = .code || x.char = '\n' then x.char else ' '

def clean (x : Cell) : List Char :=
  if x.role = .comment then blanked x.char else [x.char]

def code (x : Cell) : List Char :=
  if x.role = .code then [x.char] else blanked x.char

end Cell

def text (cells : List Cell) : List Char := cells.map (·.char)

def cleanText (cells : List Cell) : List Char := cells.flatMap Cell.clean

def codeText (cells : List Cell) : List Char := cells.flatMap Cell.code

def hideComments (s : List Char) : List Char := cleanText (source s)

def hideLiterals (s : List Char) : List Char := codeText (scan s)

end PipelineAtlas.Script

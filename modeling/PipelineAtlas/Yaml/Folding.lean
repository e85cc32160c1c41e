import PipelineAtlas.Text.Number
import PipelineAtlas.Yaml.Cursor

/-! Plain and quoted scalars. They may run over several lines: a single line break between two runs
of text is a blank, and of several breaks the first is left out. -/
namespace PipelineAtlas.Yaml

/-- White space between two runs of text. Blanks, last first, count only if no break follows them;
after the first break, which may be escaped away, only further breaks count, last first. -/
inductive Gap where
  | blanks (cs : List Char)
  | breaks (first : Option Char) (more : List Char)
deriving DecidableEq, Repr

namespace Gap

def empty : Gap := .blanks []

def hasBreak : Gap → Bool
  | .blanks _ => false
  | .breaks _ _ => true

def push (c : Char) : Gap → Gap
  | .blanks cs => if isBreak c then .breaks (some c) [] else .blanks (c :: cs)
  | .breaks first more => if isBreak c then .breaks first (c :: more) else .breaks first more

def text : Gap → List Char
  | .blanks cs => cs.reverse
  | .breaks (some '\n') [] => [' ']
  | .breaks (some '\n') more => more.reverse
  | .breaks first more => first.toList ++ more.reverse

/-- Puts the white space behind a text that is given last character first. -/
def flush (g : Gap) (begun : List Char) : List Char := g.text.reverse ++ begun

end Gap

def isFlowMark (c : Char) : Bool :=
  c == ',' || c == '[' || c == ']' || c == '{' || c == '}'

def startsPlain (flow : Bool) (c : Char) (rest : List Char) : Bool :=
  if c = '-' then !rest.head?.any isSpace
  else if c = '?' ∨ c = ':' then !flow && !isSpaced rest
  else
    !isSpaced [c] && !isFlowMark c &&
      !(['#','&','*','!','|','>','\'','"','%','@','\x60'].contains c)

/-- A plain scalar that goes on at a position, given what is read of it, last character first, and
the white space behind that. Outside flow collections the text has to keep to columns from `floor`
on. Besides the text, the answer says whether line breaks were passed over at its end. -/
def plainFrom (flow : Bool) (floor : Nat) (p : Position) (begun : List Char) (g : Gap) :
    List Char → Option (List Char × Bool × Cursor)
  | [] => some (begun.reverse,g.hasBreak,⟨[],p⟩)
  | c :: rest =>
    if isSpace c || isBreak c then
      if c == '\t' && g.hasBreak && decide (p.column < floor) then none
      else plainFrom flow floor (p.after c) begun (g.push c) rest
    else if (g != .empty && (c == '#' || p.isBoundary (c :: rest) ||
        (!flow && decide (p.column < floor)))) || (c == ':' && isSpaced rest) ||
        (flow && isFlowMark c) then
      some (begun.reverse,g.hasBreak,⟨c :: rest,p⟩)
    else if flow && c == ':' && rest.head?.any (fun x => isFlowMark x || x == '?') then none
    else plainFrom flow floor (p.after c) (c :: g.flush begun) .empty rest

/-- A scalar in single quotes that goes on at a position; two quotes stand for one. `quote` says
whether a quote came last, so that the next character decides what it is. -/
def singleFrom (p : Position) (quote : Bool) (begun : List Char) (g : Gap) :
    List Char → Option (List Char × Cursor)
  | [] => if quote then some (begun.reverse,⟨[],p⟩) else none
  | c :: rest =>
    if quote && c != '\'' then some (begun.reverse,⟨c :: rest,p⟩)
    else if isSpace c || isBreak c then singleFrom (p.after c) false begun (g.push c) rest
    else if p.isBoundary (c :: rest) then none
    else if c == '\'' && !quote then singleFrom (p.after c) true (g.flush begun) .empty rest
    else singleFrom (p.after c) false (c :: g.flush begun) .empty rest

def escaped? (c : Char) : Option Char :=
  [('0','\x00'),('a','\x07'),('b','\x08'),('t','\t'),('\t','\t'),('n','\n'),
    ('v','\x0b'),('f','\x0c'),('r','\r'),('e','\x1b'),(' ',' '),('"','"'),('/','/'),
    ('\\','\\'),('N','\x85'),('_','\xa0'),('L','\u2028'),('P','\u2029')].lookup c

def escapeWidth? (c : Char) : Option Nat := [('x',2),('u',4),('U',8)].lookup c

def hexDigit? (c : Char) : Option Nat := Text.digits? 16 [c]

def charOfCode? (n : Nat) : Option Char := if n.isValidChar then some (Char.ofNat n) else none

/-- What a double-quoted scalar expects: text, what a backslash stands in front of, or some more
digits of a code point. -/
inductive Escape where
  | none
  | letter
  | digits (left value : Nat)
deriving DecidableEq, Repr

def doubleFrom (p : Position) (escape : Escape) (begun : List Char) (g : Gap) :
    List Char → Option (List Char × Cursor)
  | [] => none
  | c :: rest =>
    match escape with
    | .digits left value =>
      match hexDigit? c with
      | none => none
      | some d =>
        if 1 < left then doubleFrom (p.after c) (.digits (left - 1) (value * 16 + d)) begun g rest
        else
          match charOfCode? (value * 16 + d) with
          | none => none
          | some x => doubleFrom (p.after c) .none (x :: begun) g rest
    | .letter =>
      if isBreak c then doubleFrom (p.after c) .none begun (.breaks none []) rest
      else
        match escaped? c,escapeWidth? c with
        | some x,_ => doubleFrom (p.after c) .none (x :: begun) g rest
        | none,some n => doubleFrom (p.after c) (.digits n 0) begun g rest
        | none,none => none
    | .none =>
      if isSpace c || isBreak c then doubleFrom (p.after c) .none begun (g.push c) rest
      else if p.isBoundary (c :: rest) then none
      else if c = '"' then some ((g.flush begun).reverse,⟨rest,p.after c⟩)
      else if c = '\\' then doubleFrom (p.after c) .letter (g.flush begun) .empty rest
      else doubleFrom (p.after c) .none (c :: g.flush begun) .empty rest

end PipelineAtlas.Yaml

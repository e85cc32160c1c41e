import PipelineAtlas.Text.Number
import PipelineAtlas.Yaml.Cursor
import PipelineAtlas.Yaml.Token

/-! Block scalars: the indented lines below a `|` or a `>`. -/
namespace PipelineAtlas.Yaml

/-- What becomes of the line breaks at the end. -/
inductive Chomping where
  | strip
  | clip
  | keep
deriving DecidableEq, Repr

def chomping? (c : Char) : Option Chomping :=
  if c = '+' then some .keep else if c = '-' then some .strip else none

def increment? (c : Char) : Option Nat := (Text.digits? 10 [c]).filter (0 < ·)

/-- The choices in a header, in either order, and how many characters they take. -/
def blockHeader : List Char → Chomping × Option Nat × Nat
  | a :: b :: _ =>
    match chomping? a,increment? a,chomping? b,increment? b with
    | some k,_,_,some n => (k,some n,2)
    | some k,_,_,none => (k,none,1)
    | none,some n,some k,_ => (k,some n,2)
    | none,some n,none,_ => (.clip,some n,1)
    | none,none,_,_ => (.clip,none,0)
  | [a] =>
    match chomping? a,increment? a with
    | some k,_ => (k,none,1)
    | none,some n => (.clip,some n,1)
    | none,none => (.clip,none,0)
  | [] => (.clip,none,0)

/-- A block scalar that is being read: its indentation once that is known, the largest column in
front of its first line, the text, last character first, the break behind the last line, the breaks
of the empty lines below it, last first, and whether the last line began with a blank. -/
structure BlockScan where
  indent : Option Nat
  widest : Nat := 0
  begun : List Char := []
  lineEnd : Option Char := none
  empties : List Char := []
  indented : Bool := false
  inLine : Bool := false
deriving DecidableEq, Repr

namespace BlockScan

def inMargin (b : BlockScan) (column : Nat) : Bool := b.indent.all fun n => decide (column < n)

/-- Begins a line with a character. In folded scalars, a break between two lines that do not begin
with a blank is a blank, or nothing if empty lines lie between them. -/
def beginLine (b : BlockScan) (folded : Bool) (indent : Nat) (c : Char) : BlockScan :=
  let joint :=
    if folded && b.lineEnd == some '\n' && !b.indented && !isSpace c then
      if b.empties.isEmpty then [' '] else []
    else b.lineEnd.toList
  { b with
    indent := some indent
    begun := c :: (b.empties ++ joint ++ b.begun)
    lineEnd := none,empties := [],indented := isSpace c,inLine := true }

def finish (b : BlockScan) (chomping : Chomping) : List Char :=
  match chomping with
  | .strip => b.begun.reverse
  | .clip => (b.lineEnd.toList ++ b.begun).reverse
  | .keep => (b.empties ++ b.lineEnd.toList ++ b.begun).reverse

end BlockScan

/-- A block scalar that goes on at a position. Its indentation, if not given, is that of its first
line and at least `least`. -/
def blockFrom (folded : Bool) (chomping : Chomping) (least : Nat) (p : Position) (b : BlockScan) :
    List Char → Option (List Char × Cursor)
  | [] => some (b.finish chomping,⟨[],p⟩)
  | c :: rest =>
    if b.inLine then
      if isBreak c then
        blockFrom folded chomping least (p.after c)
          { b with lineEnd := some c,inLine := false } rest
      else blockFrom folded chomping least (p.after c) { b with begun := c :: b.begun } rest
    else if c == ' ' && b.inMargin p.column then
      blockFrom folded chomping least (p.after c) b rest
    else if c == '\t' && b.inMargin p.column then none
    else
      let widest := max b.widest p.column
      if isBreak c then
        blockFrom folded chomping least (p.after c)
          { b with widest := widest,empties := c :: b.empties } rest
      else
        let indent := b.indent.getD (max widest least)
        if p.column = indent then
          blockFrom folded chomping least (p.after c) (b.beginLine folded indent c) rest
        else some (b.finish chomping,⟨c :: rest,p⟩)

/-- The block scalar behind its indicator. `floor` is the first column inside the enclosing
block. -/
def block? (folded : Bool) (floor : Nat) (c : Cursor) : Option (List Char × Cursor) := do
  let (chomping,increment,width) := blockHeader c.rest
  let c ← (c.skip width).toLineEnd
  let c := c.next
  blockFrom folded chomping (max floor 1) c.position
    { indent := increment.map (floor - 1 + ·) } c.rest

end PipelineAtlas.Yaml

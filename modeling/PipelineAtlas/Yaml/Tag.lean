import PipelineAtlas.Yaml.Folding
import PipelineAtlas.Yaml.Token

/-! Tags and directives. A tag is `!<whole>`, `!handle!suffix`, `!suffix` or a lone `!`; in it,
octets of UTF-8 may be written as a percent sign and two hexadecimal digits. -/
namespace PipelineAtlas.Yaml

/-- Characters that stand for themselves in a tag. Some only do so in a whole tag. -/
def isTagChar (whole : Bool) (c : Char) : Bool :=
  isNameChar c ||
    [';','/','?',':','@','&','=','+','$','.','!','~','*','\'','(',')'].contains c ||
    (whole && [',','[',']'].contains c)

/-- How many octets follow the first one of a character, and the bits that it gives. -/
def leadOctet? (n : Nat) : Option (Nat × Nat) :=
  if n < 0x80 then some (0,n)
  else if n < 0xC0 then none
  else if n < 0xE0 then some (1,n % 0x20)
  else if n < 0xF0 then some (2,n % 0x10)
  else if n < 0xF8 then some (3,n % 0x08)
  else none

def joinOctet? (left code octet : Nat) : Option (Nat × Nat) :=
  if left = 0 then leadOctet? octet
  else if octet / 0x40 = 2 then some (left - 1,code * 0x40 + octet % 0x40)
  else none

/-- The characters of a tag and how many characters they take. `left` octets of a character with
the bits `code` are still to come. -/
def tagTextFrom (whole : Bool) (taken left code : Nat) (begun : List Char) :
    List Char → Option (List Char × Nat)
  | '%' :: a :: b :: rest =>
    match hexDigit? a,hexDigit? b with
    | some x,some y =>
      match joinOctet? left code (x * 16 + y) with
      | some (0,code) =>
        match charOfCode? code with
        | some c => tagTextFrom whole (taken + 3) 0 0 (c :: begun) rest
        | none => none
      | some (left,code) => tagTextFrom whole (taken + 3) left code begun rest
      | none => none
    | _,_ => none
  | c :: rest =>
    if 0 < left ∨ c = '%' then none
    else if isTagChar whole c then tagTextFrom whole (taken + 1) 0 0 (c :: begun) rest
    else some (begun.reverse,taken)
  | [] => if 0 < left then none else some (begun.reverse,taken)

def tagText? (whole : Bool) (c : Cursor) : Option (List Char × Cursor) := do
  let (text,taken) ← tagTextFrom whole 0 0 0 [] c.rest
  return (text,c.skip taken)

def someTagText? (whole : Bool) (c : Cursor) : Option (List Char × Cursor) :=
  (tagText? whole c).filter fun (text,_) => !text.isEmpty

def tagParts? (c : Cursor) : Option (List Char × List Char × Cursor) :=
  match c.rest with
  | '!' :: '<' :: _ => do
    let (text,c) ← someTagText? true (c.skip 2)
    if c.rest.head? == some '>' then some ([],text,c.skip 1) else none
  | _ :: rest =>
    let name := rest.takeWhile isNameChar
    let c := c.skip (name.length + 1)
    if c.rest.head? == some '!' then do
      let (text,c) ← someTagText? false (c.skip 1)
      return (('!' :: name) ++ ['!'],text,c)
    else do
      let (text,c) ← tagText? false c
      let suffix := name ++ text
      return if suffix.isEmpty then ([],['!'],c) else (['!'],suffix,c)
  | [] => none

/-- The tag at a place; white space has to follow, or a comma in flow collections. -/
def tag? (flow : Bool) (c : Cursor) : Option (List Char × List Char × Cursor) :=
  (tagParts? c).filter fun (_,_,c) => isSpaced c.rest || (flow && c.rest.head? == some ',')

def versionNumber? (c : Cursor) : Option (Nat × Cursor) :=
  let digits := c.rest.takeWhile Char.isDigit
  if 9 < digits.length then none
  else (Text.digits? 10 digits).map fun n => (n,c.skip digits.length)

/-- The version of a directive, which is 1.1 or 1.2. -/
def version? (c : Cursor) : Option Cursor := do
  let (major,c) ← versionNumber? c
  if c.rest.head? != some '.' then none
  else
    let (minor,c) ← versionNumber? (c.skip 1)
    if major = 1 ∧ (minor = 1 ∨ minor = 2) then some c else none

def definedHandle? (c : Cursor) : Option (List Char × Cursor) :=
  match c.rest with
  | '!' :: rest =>
    let name := rest.takeWhile isNameChar
    if (rest.drop name.length).head? == some '!' then
      some (('!' :: name) ++ ['!'],c.skip (name.length + 2))
    else if name.isEmpty then some (['!'],c.skip 1)
    else none
  | _ => none

def directiveBody? (name : List Char) (c : Cursor) : Option (Token × Cursor) :=
  let c := c.skipWhile isSpace
  if name = "YAML".toList then (version? c).map fun c => (.version,c)
  else if name = "TAG".toList then do
    let (handle,c) ← definedHandle? c
    if !c.rest.head?.any isSpace then none
    else
      let (text,c) ← someTagText? true (c.skipWhile isSpace)
      if isSpaced c.rest then some (.tagHandle handle text,c) else none
  else none

/-- The directive at a place, which takes the whole line. -/
def directive? (c : Cursor) : Option (Token × Cursor) := do
  let c := c.skip 1
  let name := c.rest.takeWhile isNameChar
  let c := c.skip name.length
  if !isSpaced c.rest then none
  else
    let (t,c) ← directiveBody? name c
    let c ← c.toLineEnd
    return (t,c.next)

end PipelineAtlas.Yaml

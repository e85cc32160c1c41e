import PipelineAtlas.Yaml.Reading
import PipelineAtlas.Yaml.Scalar

/-! Values of any shape that a text can hold. -/
namespace PipelineAtlas.Yaml

inductive Value where
  | null
  | bool (b : Bool)
  | number (n : Number)
  | string (s : String)
  | sequence (items : List Value)
  | mapping (entries : List (Value × Value))
  | tagged (tag : List Char) (v : Value)
deriving Repr

/-- A tag without the exclamation mark in front of it. The lone mark `!` is a tag of its own. -/
def unmarked : List Char → List Char
  | '!' :: c :: cs => c :: cs
  | tag => tag

/-- What a local tag is called; there is nothing for the tags of standard kinds. -/
def localName? : List Char → Option (List Char)
  | '!' :: cs => some (unmarked ('!' :: cs))
  | _ => none

namespace Value

mutual

/-- Whether two values are the same. The order of the entries of a mapping does not matter, nor does
a mark in front of a tag. -/
def same : Value → Value → Bool
  | .null,.null => true
  | .bool a,.bool b => a == b
  | .number a,.number b => a == b
  | .string a,.string b => a == b
  | .sequence as,.sequence bs => sameItems as bs
  | .mapping as,.mapping bs => as.length == bs.length && sameEntries as bs
  | .tagged s a,.tagged t b => unmarked s == unmarked t && same a b
  | _,_ => false

def sameItems : List Value → List Value → Bool
  | [],[] => true
  | a :: as,b :: bs => same a b && sameItems as bs
  | _,_ => false

def sameEntries : List (Value × Value) → List (Value × Value) → Bool
  | [],_ => true
  | (k,a) :: as,bs =>
    (bs.any fun (l,b) => same k l && same a b) && sameEntries as bs

end

def distinctEntries (seen : List (Value × Value)) : List (Value × Value) → Option Value
  | [] => some (.mapping seen.reverse)
  | (k,v) :: rest =>
    if seen.any fun (l,_) => same k l then none else distinctEntries ((k,v) :: seen) rest

def isWide (n : Int) : Bool := decide (n < -0x8000000000000000) || decide (0x10000000000000000 ≤ n)

/-- Beyond this range, a whole number is read like one with a fraction. -/
def isBeyond (n : Int) : Bool :=
  decide (n < -0x80000000000000000000000000000000) ||
    decide (0x100000000000000000000000000000000 ≤ n)

def ofWhole? (n : Int) : Option Value := if isWide n then none else some (.number (.whole n))

def ofFraction? (s : List Char) : Option Value :=
  (fraction? s).map fun bits => .number (.fraction bits)

/-- The value of a plain scalar. It is an error if it is a whole number that is too large to be
held and too small to be read otherwise. -/
def ofPlain (s : List Char) : Option Value :=
  if s.isEmpty || isNull s then some .null
  else
    match truth? s,(whole? s).filter fun n => !isBeyond n with
    | some b,_ => some (.bool b)
    | none,some n => ofWhole? n
    | none,none =>
      if isPadded s then some (.string (String.ofList s))
      else some ((ofFraction? s).getD (.string (String.ofList s)))

def ofUntagged (s : Scalar) : Option Value :=
  if s.style = .plain then ofPlain s.text else some (.string (String.ofList s.text))

def ofKind (tag text : List Char) : Option Value :=
  match text,String.ofList tag with
  | s,"tag:yaml.org,2002:null" => if isNull s then some .null else none
  | s,"tag:yaml.org,2002:bool" => (truth? s).map .bool
  | s,"tag:yaml.org,2002:int" => ((whole? s).filter fun n => !isBeyond n).bind ofWhole?
  | s,"tag:yaml.org,2002:float" => ofFraction? s
  | s,_ => some (.string (String.ofList s))

def withTag (tag : Option (List Char)) (v : Value) : Value :=
  match tag.bind localName? with
  | some name => .tagged name v
  | none => v

def ofScalar (s : Scalar) : Option Value :=
  match s.tag with
  | none => ofUntagged s
  | some tag =>
    match localName? tag with
    | some name => (ofUntagged s).map (.tagged name)
    | none => ofKind tag s.text

/-- The value of a node, in which at most `depth` collections lie inside one another. -/
def ofNode (d : Document) (depth : Nat) (n : Node) : Reading Value := do
  match ← d.follow n with
  | .nothing => return .null
  | .alias _ => failure
  | .scalar s => ofScalar s
  | .sequence tag items =>
    match depth with
    | 0 => failure
    | depth + 1 => return withTag tag (.sequence (← items.mapM (ofNode d depth)))
  | .mapping tag entries =>
    match depth with
    | 0 => failure
    | depth + 1 =>
      let entries ← entries.mapM fun (k,v) => do
        return (← ofNode d depth k,← ofNode d depth v)
      return withTag tag (← distinctEntries [] entries)

def read? (text : List Char) : Option Value := do
  let d ← Document.read? text
  d.readRoot (ofNode d 128)

def untagged : Value → Value
  | .tagged _ v => untagged v
  | v => v

def text? (v : Value) : Option String :=
  match v.untagged with
  | .string s => some s
  | _ => none

def items? (v : Value) : Option (List Value) :=
  match v.untagged with
  | .sequence items => some items
  | _ => none

def entries? (v : Value) : Option (List (Value × Value)) :=
  match v.untagged with
  | .mapping entries => some entries
  | _ => none

def field? (v : Value) (key : String) : Option Value := do
  let entry ← (← v.entries?).find? fun
    | (.string s,_) => s == key
    | _ => false
  return entry.2

end Value

end PipelineAtlas.Yaml

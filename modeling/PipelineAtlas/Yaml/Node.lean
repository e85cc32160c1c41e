import PipelineAtlas.Yaml.Event
import PipelineAtlas.Yaml.Tokens

/-! Nodes of a document. An alias stands for the node that bears the number of its anchor. -/
namespace PipelineAtlas.Yaml

structure Scalar where
  tag : Option (List Char)
  style : Style
  text : List Char
deriving DecidableEq, Repr

inductive Node where
  | nothing
  | alias (number : Nat)
  | scalar (s : Scalar)
  | sequence (tag : Option (List Char)) (items : List Node)
  | mapping (tag : Option (List Char)) (entries : List (Node × Node))
deriving Repr

/-- A node with an anchor: the number of the anchor and the place of the node in the text. -/
structure Anchored where
  number : Nat
  place : Nat
  node : Node
deriving Repr

/-- A document: its top node, its nodes with anchors, and how many events its text has. -/
structure Document where
  root : Node
  anchored : List Anchored
  size : Nat
deriving Repr

/-- A collection whose end has not come yet, its parts last first. -/
structure OpenNode where
  number : Option Nat
  place : Nat
  tag : Option (List Char)
  parts : List Node
deriving Repr

/-- The state in the middle of the events: the open collections, innermost first, the numbers of
the anchor names, the latest first, the nodes with anchors, and how many events were read. -/
structure Assembly where
  root : Option Node := none
  frames : List OpenNode := []
  numbers : List (List Char × Nat) := []
  anchored : List Anchored := []
  place : Nat := 0
deriving Repr

def pairs : List Node → List (Node × Node)
  | key :: value :: rest => (key,value) :: pairs rest
  | _ => []

namespace Assembly

def put (a : Assembly) (n : Node) : Assembly :=
  match a.frames with
  | f :: fs => { a with frames := { f with parts := n :: f.parts } :: fs }
  | [] => { a with root := some n }

def number (a : Assembly) : Option (List Char) → Option Nat × Assembly
  | none => (none,a)
  | some name =>
    let n := a.numbers.length
    (some n,{ a with numbers := (name,n) :: a.numbers.filter (·.1 != name) })

/-- Remembers a node with an anchor. Of two nodes with one number the later counts. -/
def remember (a : Assembly) (number : Option Nat) (place : Nat) (n : Node) : Assembly :=
  match number with
  | none => a
  | some k =>
    if a.anchored.any fun x => x.number == k && decide (place < x.place) then a
    else { a with anchored := ⟨k,place,n⟩ :: a.anchored }

def openNode (a : Assembly) (p : Properties) : Assembly :=
  let (number,a) := a.number p.anchor
  { a with frames := ⟨number,a.place,p.tag,[]⟩ :: a.frames }

def close (a : Assembly) (make : Option (List Char) → List Node → Node) : Assembly :=
  match a.frames with
  | f :: fs =>
    let n := make f.tag f.parts.reverse
    ({ a with frames := fs }.remember f.number f.place n).put n
  | [] => a

def step (a : Assembly) (e : Event) : Option Assembly :=
  let a := { a with place := a.place + 1 }
  match e with
  | .alias name => (a.numbers.lookup name).map fun n => a.put (.alias n)
  | .scalar p style text =>
    let n : Node := .scalar ⟨p.tag,style,text⟩
    let (number,a) := a.number p.anchor
    some ((a.remember number a.place n).put n)
  | .sequenceStart p | .mappingStart p => some (a.openNode p)
  | .sequenceEnd => some (a.close .sequence)
  | .mappingEnd => some (a.close fun tag parts => .mapping tag (pairs parts))

end Assembly

def Document.ofEvents? (events : List Event) : Option Document := do
  let a ← events.foldlM Assembly.step {}
  return ⟨a.root.getD .nothing,a.anchored,max a.place 1⟩

def Document.read? (text : List Char) : Option Document := do
  Document.ofEvents? (← events? (← tokens? text))

def Document.node? (d : Document) (number : Nat) : Option Node :=
  (d.anchored.find? (·.number == number)).map (·.node)

end PipelineAtlas.Yaml

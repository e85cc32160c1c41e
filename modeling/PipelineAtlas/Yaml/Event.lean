import PipelineAtlas.Yaml.Token

/-! Events: the nodes of a document in the order of the text, with the start and the end of every
collection. -/
namespace PipelineAtlas.Yaml

structure Properties where
  anchor : Option (List Char) := none
  tag : Option (List Char) := none
deriving DecidableEq, Repr

inductive Event where
  | alias (name : List Char)
  | scalar (p : Properties) (style : Style) (text : List Char)
  | sequenceStart (p : Properties)
  | sequenceEnd
  | mappingStart (p : Properties)
  | mappingEnd
deriving DecidableEq, Repr

abbrev Handles := List (List Char × List Char)

namespace Handles

def standard : Handles := [(['!'],['!']),(['!','!'],"tag:yaml.org,2002:".toList)]

def resolve? (hs : Handles) (handle suffix : List Char) : Option (List Char) :=
  if handle.isEmpty then some suffix else (hs.lookup handle).map (· ++ suffix)

/-- Anchor and tag in front of a node, in either order. -/
def properties? (hs : Handles) : List Token → Option (Properties × List Token)
  | .anchor a :: .tag h s :: ts => (hs.resolve? h s).map fun t => (⟨some a,some t⟩,ts)
  | .tag h s :: .anchor a :: ts => (hs.resolve? h s).map fun t => (⟨some a,some t⟩,ts)
  | .anchor a :: ts => some (⟨some a,none⟩,ts)
  | .tag h s :: ts => (hs.resolve? h s).map fun t => (⟨none,some t⟩,ts)
  | ts => some ({},ts)

end Handles

def Event.empty : Event := .scalar {} .plain []

inductive Goal where
  | node (block indentless : Bool)
  | blockItems
  | indentlessItems
  | blockKeys
  | blockValue
  | flowItems (first : Bool)
  | pairKey
  | pairValue
  | pairEnd
  | flowKeys (first : Bool)
  | flowValue
  | flowNoValue
deriving DecidableEq, Repr

/-- Events, what is to be read in place of a goal, and the tokens left. -/
abbrev Progress := List Event × List Goal × List Token

namespace Goal

def stepNode (hs : Handles) (block indentless : Bool) : List Token → Option Progress
  | .alias name :: ts => some ([.alias name],[],ts)
  | ts =>
    match hs.properties? ts with
    | none => none
    | some (p,ts) =>
      let missing :=
        if p.anchor.isSome || p.tag.isSome then some ([.scalar p .plain []],[],ts) else none
      match ts with
      | .blockEntry :: _ =>
        if indentless then some ([.sequenceStart p],[.indentlessItems],ts) else missing
      | .scalar style text :: ts => some ([.scalar p style text],[],ts)
      | .flowSequenceStart :: ts => some ([.sequenceStart p],[.flowItems true],ts)
      | .flowMappingStart :: ts => some ([.mappingStart p],[.flowKeys true],ts)
      | .blockSequenceStart :: ts' =>
        if block then some ([.sequenceStart p],[.blockItems],ts') else missing
      | .blockMappingStart :: ts' =>
        if block then some ([.mappingStart p],[.blockKeys],ts') else missing
      | _ => missing

def stepBlockItems : List Token → Option Progress
  | .blockEntry :: ts =>
    match ts with
    | .blockEntry :: _ | .blockEnd :: _ => some ([.empty],[.blockItems],ts)
    | _ => some ([],[.node true false,.blockItems],ts)
  | .blockEnd :: ts => some ([.sequenceEnd],[],ts)
  | _ => none

/-- Items of a sequence that stands at the column of the key above it. -/
def stepIndentlessItems : List Token → Option Progress
  | .blockEntry :: ts =>
    match ts with
    | .blockEntry :: _ | .key :: _ | .value :: _ | .blockEnd :: _ =>
      some ([.empty],[.indentlessItems],ts)
    | _ => some ([],[.node true false,.indentlessItems],ts)
  | ts => some ([.sequenceEnd],[],ts)

/-- A node of a block mapping, or nothing in front of a key, a value or the end. -/
def blockPart (next : Goal) (ts : List Token) : Progress :=
  match ts with
  | .key :: _ | .value :: _ | .blockEnd :: _ => ([.empty],[next],ts)
  | _ => ([],[.node true true,next],ts)

def stepBlockKeys : List Token → Option Progress
  | .key :: ts => some (blockPart .blockValue ts)
  | .blockEnd :: ts => some ([.mappingEnd],[],ts)
  | _ => none

def stepBlockValue : List Token → Option Progress
  | .value :: ts => some (blockPart .blockKeys ts)
  | ts => some ([.empty],[.blockKeys],ts)

/-- Passes over the comma that separates entries from the second one on. -/
def separated (first : Bool) (ts : List Token) : Option (List Token) :=
  if first then some ts
  else
    match ts with
    | .flowEntry :: ts => some ts
    | _ => none

def stepFlowItems (first : Bool) : List Token → Option Progress
  | .flowSequenceEnd :: ts => some ([.sequenceEnd],[],ts)
  | ts =>
    match separated first ts with
    | some (.flowSequenceEnd :: ts) => some ([.sequenceEnd],[],ts)
    | some (.key :: ts) => some ([.mappingStart {}],[.pairKey],ts)
    | some ts => some ([],[.node false false,.flowItems false],ts)
    | none => none

/-- The key of a pair in a flow sequence. A mark in the place of the key is passed over. -/
def stepPairKey : List Token → Option Progress
  | .value :: ts | .flowEntry :: ts | .flowSequenceEnd :: ts => some ([.empty],[.pairValue],ts)
  | ts => some ([],[.node false false,.pairValue],ts)

def stepPairValue : List Token → Option Progress
  | .value :: ts =>
    match ts with
    | .flowEntry :: _ | .flowSequenceEnd :: _ => some ([.empty],[.pairEnd],ts)
    | _ => some ([],[.node false false,.pairEnd],ts)
  | ts => some ([.empty],[.pairEnd],ts)

/-- A node of a flow mapping, or nothing in front of a comma or the end. -/
def flowPart (next : Goal) (ts : List Token) : Progress :=
  match ts with
  | .flowEntry :: _ | .flowMappingEnd :: _ => ([.empty],[next],ts)
  | _ => ([],[.node false false,next],ts)

def stepFlowKeys (first : Bool) : List Token → Option Progress
  | .flowMappingEnd :: ts => some ([.mappingEnd],[],ts)
  | ts =>
    match separated first ts with
    | some (.flowMappingEnd :: ts) => some ([.mappingEnd],[],ts)
    | some (.key :: .value :: ts) => some ([.empty],[.flowValue],.value :: ts)
    | some (.key :: ts) => some (flowPart .flowValue ts)
    | some ts => some ([],[.node false false,.flowNoValue],ts)
    | none => none

def stepFlowValue : List Token → Option Progress
  | .value :: ts => some (flowPart (.flowKeys false) ts)
  | ts => some ([.empty],[.flowKeys false],ts)

def step (hs : Handles) : Goal → List Token → Option Progress
  | .node block indentless,ts => stepNode hs block indentless ts
  | .blockItems,ts => stepBlockItems ts
  | .indentlessItems,ts => stepIndentlessItems ts
  | .blockKeys,ts => stepBlockKeys ts
  | .blockValue,ts => stepBlockValue ts
  | .flowItems first,ts => stepFlowItems first ts
  | .pairKey,ts => stepPairKey ts
  | .pairValue,ts => stepPairValue ts
  | .pairEnd,ts => some ([.mappingEnd],[.flowItems false],ts)
  | .flowKeys first,ts => stepFlowKeys first ts
  | .flowValue,ts => stepFlowValue ts
  | .flowNoValue,ts => some ([.empty],[.flowKeys false],ts)

/-- Reads goals one after the other; `done` are the events so far, last first. -/
def run (hs : Handles) :
    Nat → List Goal → List Event → List Token → Option (List Event × List Token)
  | _,[],done,ts => some (done.reverse,ts)
  | 0,_ :: _,_,_ => none
  | fuel + 1,g :: gs,done,ts =>
    match g.step hs ts with
    | some (events,more,ts) => run hs fuel (more ++ gs) (events.reverse ++ done) ts
    | none => none

end Goal

/-- The events of the node at the top of a document. A step takes a token or comes before one that
does, so that a few steps a token are enough. -/
def rootEvents? (hs : Handles) (ts : List Token) : Option (List Event × List Token) :=
  Goal.run hs (8 * ts.length + 8) [.node true false] [] ts

def isDirective : Token → Bool
  | .version | .tagHandle _ _ => true
  | _ => false

def isDocumentMark (t : Token) : Bool :=
  isDirective t || t == .documentStart || t == .documentEnd

def definedHandles (directives : List Token) : Handles :=
  directives.filterMap fun
    | .tagHandle handle expansion => some (handle,expansion)
    | _ => none

def markedEvents? (directives : List Token) : List Token → Option (List Event × List Token)
  | .documentStart :: ts =>
    let hs := definedHandles directives
    if 1 < directives.count .version ∨ ¬(hs.map (·.1)).Nodup then none
    else if ts.head?.all isDocumentMark then some ([.empty],ts)
    else rootEvents? (hs ++ .standard) ts
  | _ => none

/-- The events of a text with at most one document. There are none if there is no document. -/
def events? (ts : List Token) : Option (List Event) := do
  if ts.isEmpty then return []
  else
    let (events,rest) ←
      if ts.head?.any fun t => isDirective t || t == .documentStart then
        markedEvents? (ts.takeWhile isDirective) (ts.dropWhile isDirective)
      else rootEvents? .standard ts
    if rest.all (· == .documentEnd) then some events else none

end PipelineAtlas.Yaml

import PipelineAtlas.Graph
import PipelineAtlas.NodeId
import PipelineAtlas.Text.Lines
import PipelineAtlas.Text.Word

/-! Prefect flows: every function under a task decorator is a node. -/
namespace PipelineAtlas.Prefect

open Text

def definedHere? (s : List Char) : Option (List Char) :=
  match s with
  | 'd' :: 'e' :: 'f' :: c :: rest =>
    let name := (trimLeft rest).takeWhile isWord
    if isBlank c && !name.isEmpty then some name else none
  | _ => none

def defined? : List Char → Option (List Char)
  | [] => none
  | c :: cs => definedHere? (c :: cs) <|> defined? cs

def isDecorator (line : List Char) : Bool := "@task".toList.isPrefixOf (trim line)

def tasks (n : Nat) : List (List Char) → List (String × Nat)
  | a :: b :: rest =>
    (match if isDecorator a then defined? b else none with
      | some name => [(String.ofList name,n + 1)]
      | none => []) ++ tasks (n + 1) (b :: rest)
  | _ => []

def extract (content : List Char) (file : String) (g : PipelineGraph) : PipelineGraph :=
  (tasks 1 (lines content)).foldl
    (fun g (name,line) => g.define (nodeId file name) name ⟨file,line⟩) g

end PipelineAtlas.Prefect

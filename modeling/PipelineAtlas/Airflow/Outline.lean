import PipelineAtlas.Graph
import PipelineAtlas.NodeId
import PipelineAtlas.Text.Lines
import PipelineAtlas.Text.Word

/-! The outline of an Airflow file, read line by line: operators assigned to variables are nodes,
and `>>` between two parts of a line is an edge between the first names in them. -/
namespace PipelineAtlas.Airflow.Outline

open Text

def operatorEnd : List Char := "Operator".toList

def assignsOperator (s : List Char) : Bool :=
  match trimLeft s with
  | '=' :: rest =>
    let call := trimLeft rest
    operatorEnd.isSuffixOf (call.takeWhile isWord) && (call.dropWhile isWord).head? == some '('
  | _ => false

/-- The first name in a line to which an operator call is assigned. `inWord` says whether a word
goes on from before. -/
def assignedFrom (inWord : Bool) : List Char → Option (List Char)
  | [] => none
  | c :: cs =>
    if isWord c && !inWord && assignsOperator ((c :: cs).dropWhile isWord) then
      some ((c :: cs).takeWhile isWord)
    else assignedFrom (isWord c) cs

def assigned? (line : List Char) : Option (List Char) := assignedFrom false line

/-- The parts of a line between `>>` marks, given the part begun, last character first. -/
def partsFrom (begun : List Char) : List Char → List (List Char)
  | [] => [begun.reverse]
  | '>' :: '>' :: cs => begun.reverse :: partsFrom [] cs
  | c :: cs => partsFrom (c :: begun) cs

def parts (line : List Char) : List (List Char) := partsFrom [] line

def firstName? (part : List Char) : Option (List Char) :=
  let name := (part.dropWhile fun c => !isAsciiStart c).takeWhile isAsciiWord
  if name.isEmpty then none else some name

def neighbours : List α → List (α × α)
  | a :: b :: rest => (a,b) :: neighbours (b :: rest)
  | _ => []

def linked (line : List Char) : List (String × String) :=
  (neighbours (parts line)).filterMap fun (a,b) =>
    match firstName? a,firstName? b with
    | some a,some b => some (String.ofList a,String.ofList b)
    | _,_ => none

def addLink (file : String) (g : PipelineGraph) (link : String × String) : PipelineGraph :=
  let source := nodeId file link.1
  let target := nodeId file link.2
  ((g.addNode source link.1).addNode target link.2).addEdge source target

def addLine (file : String) (g : PipelineGraph) (line : List Char × Nat) : PipelineGraph :=
  let g :=
    match assigned? line.1 with
    | some name =>
      g.define (nodeId file (String.ofList name)) (String.ofList name) ⟨file,line.2⟩
    | none => g
  (linked line.1).foldl (addLink file) g

def extract (content : List Char) (file : String) (g : PipelineGraph) : PipelineGraph :=
  ((lines content).zipIdx 1).foldl (addLine file) g

end PipelineAtlas.Airflow.Outline

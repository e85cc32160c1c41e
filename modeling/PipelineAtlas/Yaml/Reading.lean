import PipelineAtlas.Yaml.Node

/-! Following the aliases of a document. However often a reading comes to an alias, it follows no
more than a hundred of them for each event of the document. -/
namespace PipelineAtlas.Yaml

/-- A reading that may fail, with the number of aliases that it may still follow. -/
abbrev Reading := StateT Nat Option

def Document.follow (d : Document) : Node → Reading Node
  | .alias number => fun left =>
    match left,d.node? number with
    | left + 1,some n => some (n,left)
    | _,_ => none
  | n => pure n

def Document.readRoot (d : Document) (read : Node → Reading α) : Option α :=
  ((read d.root).run (100 * d.size)).map (·.1)

end PipelineAtlas.Yaml

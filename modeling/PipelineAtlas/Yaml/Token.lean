/-! Tokens of YAML texts. -/
namespace PipelineAtlas.Yaml

inductive Style where
  | plain
  | quoted
  | literal
  | folded
deriving DecidableEq, Repr

/-- A tag as it is written stands as its handle and what follows it; a whole tag has an empty
handle. -/
inductive Token where
  | version
  | tagHandle (handle expansion : List Char)
  | documentStart
  | documentEnd
  | blockSequenceStart
  | blockMappingStart
  | blockEnd
  | flowSequenceStart
  | flowSequenceEnd
  | flowMappingStart
  | flowMappingEnd
  | blockEntry
  | flowEntry
  | key
  | value
  | alias (name : List Char)
  | anchor (name : List Char)
  | tag (handle suffix : List Char)
  | scalar (style : Style) (text : List Char)
deriving DecidableEq, Repr

end PipelineAtlas.Yaml

/-!
# Tokens

The parts that a document text is made of.  Indentation shows as tokens of its own: a block opens
with a start token and closes with an end token.
-/

namespace PipelineStacks.Yaml

/-- A part of a document text. -/
inductive Token
  | streamStart
  | streamEnd
  | versionDirective (major minor : Nat)
  | tagDirective (handle expansion : String)
  | documentStart
  | documentEnd
  | blockSequenceStart
  | blockMappingStart
  | blockEnd
  | flowSequenceStart
  | flowSequenceEnd
  | flowMappingStart
  | flowMappingEnd
  | blockEntry
  | flowEntry
  | key
  | value
  | alias (name : String)
  | anchor (name : String)
  | tag (handle suffix : String)
  /-- The text of a scalar, and whether it was written without quotes or a block indicator. -/
  | scalar (text : String) (plain : Bool)
deriving DecidableEq, Repr, Inhabited

end PipelineStacks.Yaml

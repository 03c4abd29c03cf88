import ExternalParser.Text.Utf8

namespace ExternalParser.Yaml

inductive Style where
  | plain
  | singleQuoted
  | doubleQuoted
  | literal
  | folded
deriving DecidableEq

-- Where blocks begin and end is told by indentation, and where a key begins only by the colon after it.
-- The tokens say both.
inductive Token where
  | version (major minor : Nat)
  | handle (name : String) (expansion : Bytes)
  | documentStart
  | documentEnd
  | blockSequence
  | blockMapping
  | blockEnd
  | flowSequence
  | flowSequenceEnd
  | flowMapping
  | flowMappingEnd
  | entry
  | comma
  | key
  | value
  | alias (name : String)
  | anchor (name : String)
  -- An empty handle says that the suffix is the whole tag.
  | tag (handle : String) (suffix : Bytes)
  | scalar (text : String) (style : Style)
deriving DecidableEq

end ExternalParser.Yaml

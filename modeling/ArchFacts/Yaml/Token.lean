/-!
# YAML tokens

A document is read as a list of tokens. Those of its blocks stand for the layout of the lines: where
a block starts and where it ends. A key is announced by a token of its own.
-/

namespace ArchFacts.Yaml

/-- How a scalar is written. -/
inductive Style where
  | plain
  | quoted
  | literal
  | folded
  deriving DecidableEq, Repr

/-- A token. A tag is a handle, which stands for the start of the tag, and the bytes of the rest. -/
inductive Token where
  | version (major minor : Nat)
  | tagHandle (handle : String) (start : List UInt8)
  | documentStart
  | documentEnd
  | blockSequenceStart
  | blockMappingStart
  | blockEnd
  | flowSequenceStart
  | flowSequenceEnd
  | flowMappingStart
  | flowMappingEnd
  | blockEntry
  | flowEntry
  | key
  | value
  | alias (name : String)
  | anchor (name : String)
  | tag (handle : String) (rest : List UInt8)
  | scalar (style : Style) (text : List Char)
  deriving DecidableEq, Repr

end ArchFacts.Yaml

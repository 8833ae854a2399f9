import Columnlet.Yaml.Property

/-!
Tokens of the YAML notation: what a text consists of once its blanks and comments are gone. The
collections that indentation makes have tokens of their own where they begin and end.
-/

namespace Columnlet.Yaml

/-- How a scalar is written. -/
inductive Style where
  | bare
  | quoted
  | literal
  | folded
  deriving DecidableEq, Repr

/-- A part of a text. -/
inductive Token where
  | directive (directive : Directive)
  | documentStart
  | documentEnd
  | blockSequence
  | blockMapping
  | blockEnd
  | flowSequence
  | flowSequenceEnd
  | flowMapping
  | flowMappingEnd
  | comma
  | dash
  | key
  | value
  | alias (name : String)
  | anchor (name : String)
  | tag (tag : Tag)
  | scalar (style : Style) (text : String)
  deriving DecidableEq, Repr

end Columnlet.Yaml

import Columnlet.Bytes
import Columnlet.Text.Digits
import Columnlet.Yaml.Token

/-!
Documents of the YAML notation as trees, and what a scalar in one can be read as. A scalar keeps
its text, and how it was written, because only bare ones are numbers or truth values unless a tag
says so.
-/

namespace Columnlet.Yaml

/-- A scalar as it was written. -/
structure Scalar where
  style : Style
  tag : Option Bytes
  text : String
  deriving DecidableEq, Repr

/-- A document or a part of one. An alias stands for the node of an anchor, by its number. -/
inductive Node where
  | scalar (s : Scalar)
  | sequence (items : List Node)
  | mapping (entries : List (Node × Node))
  | alias (anchor : Nat)
  deriving Repr

/-- A document: its outermost node, and the nodes that aliases stand for, by their numbers. -/
structure Document where
  root : Node
  anchored : Array Node
  deriving Repr

/-! ## Scalars -/

/-- The number below 2 to the 64 that a bare scalar spells: decimal without leading zeros, or with
a mark for base 16, 8 or 2, in either case after an optional plus sign. -/
def unsigned? (text : String) : Option UInt64 := do
  let cs := match text.toList with
    | '+' :: cs => cs
    | cs => cs
  let n ← match cs with
    | '0' :: 'x' :: cs => Text.number? 16 cs
    | '0' :: 'o' :: cs => Text.number? 8 cs
    | '0' :: 'b' :: cs => Text.number? 2 cs
    | '0' :: _ :: _ => none
    | cs => Text.number? 10 cs
  if n < UInt64.size then return .ofNat n else none

/-- Whether a text is a word for nothing. -/
def isNullWord (text : String) : Bool := ["~", "null", "Null", "NULL"].contains text

namespace Scalar

/-- The tag of the notation itself that has a given name. -/
def standardTag (name : String) : Bytes := .ofText ("tag:yaml.org,2002:" ++ name)

/-- A left out scalar. -/
def absent : Scalar := ⟨.bare, none, ""⟩

/-- Whether a scalar can be more than text: a bare one, or a literal one whose tag says so. -/
def isTyped (s : Scalar) (name : String) : Bool :=
  s.style = .bare || (s.style = .literal && s.tag = some (standardTag name))

/-- The number that a scalar spells. -/
def number? (s : Scalar) : Option UInt64 := if s.isTyped "int" then unsigned? s.text else none

/-- The truth value that a scalar spells. -/
def bool? (s : Scalar) : Option Bool :=
  if !s.isTyped "bool" then none
  else if ["true", "True", "TRUE"].contains s.text then some true
  else if ["false", "False", "FALSE"].contains s.text then some false
  else none

/-- Whether a scalar stands for nothing. One that is tagged so has to spell a word for it. -/
def isNull? (s : Scalar) : Option Bool :=
  match s.style, s.tag with
  | .bare, none => some (s.text = "" || isNullWord s.text)
  | .bare, some tag =>
    if tag ≠ standardTag "null" then some false
    else if isNullWord s.text then some true else none
  | _, _ => some false

/-- The choice that a tag names: the text behind an exclamation mark, if it is one. -/
def tagChoice? : Bytes → Option String
  | [] => none
  | mark :: name => if mark = 0x21 then Bytes.text? name else none

/-- The choice that a scalar names: by its tag if that names one, and then the scalar stands for
nothing, or by its text. -/
def choice? (s : Scalar) : Option String :=
  match s.tag.bind tagChoice? with
  | none => some s.text
  | some name =>
    if s.style = .bare && (s.text = "" || isNullWord s.text) then some name else none

end Scalar

/-! ## Fields -/

namespace Node

/-- The scalar that a node is. -/
def scalar? : Node → Option Scalar
  | scalar s => some s
  | _ => none

/-- The value of a field that may be left out, refusing a field given twice. -/
def field? (fields : List (String × Node)) (name : String) : Option (Option Node) :=
  match fields.filter (·.1 = name) with
  | [] => some none
  | [(_, value)] => some (some value)
  | _ => none

/-- The value of a field that has to be given, and once. -/
def required? (fields : List (String × Node)) (name : String) : Option Node :=
  (field? fields name).join

end Node

namespace Document

/-- The node that a node stands for. -/
def resolve (d : Document) : Node → Node
  | .alias anchor => d.anchored[anchor]?.getD (.alias anchor)
  | node => node

/-- The fields of a mapping whose keys are all scalars. -/
def fields? (d : Document) : Node → Option (List (String × Node))
  | .mapping entries => entries.mapM fun (key, value) => do
    return ((← (d.resolve key).scalar?).text, d.resolve value)
  | _ => none

end Document

end Columnlet.Yaml

import Columnlet.Yaml.Node
import Columnlet.Yaml.Token.Lexer

/-!
From the tokens of a text to its only document. The collections that are open make a stack; each
token opens one, adds to the innermost or closes it. A node that is left out is noticed by the
token after it.
-/

namespace Columnlet.Yaml

/-- What sort of collection is open. A sequence may stand without an indentation of its own in a
mapping, a single pair in a sequence in brackets, and a key without a value in braces. -/
inductive Kind where
  | blockSequence
  | plainSequence
  | blockMapping
  | flowSequence
  | flowMapping
  | flowPair
  | flowKey
  deriving DecidableEq, Repr

/-- Whether a collection stands in brackets. -/
def Kind.isFlow : Kind → Bool
  | .flowSequence | .flowMapping | .flowPair | .flowKey => true
  | .blockSequence | .plainSequence | .blockMapping => false

/-- A collection that is open: its items or its entries so far, the latest first, the key whose
value is still to come, and its place among the nodes with anchors if it has one. -/
structure Collection where
  kind : Kind
  items : List Node := []
  entries : List (Node × Node) := []
  key : Option Node := none
  place : Option Nat := none

namespace Collection

/-- Whether the value of a key is still to come. -/
def awaitsValue (c : Collection) : Bool := c.key.isSome

/-- The node that a collection makes. -/
def toNode (c : Collection) : Node :=
  match c.kind with
  | .blockSequence | .plainSequence | .flowSequence => .sequence c.items.reverse
  | _ => .mapping c.entries.reverse

end Collection

/-- The anchor and the tag in front of a node. -/
structure Properties where
  anchor : Option String := none
  tag : Option Bytes := none
  deriving DecidableEq

/-- What can come next: a node with its properties so far, the first token of an entry or the end
in brackets, punctuation, or the end of a document that is complete. -/
inductive Phase where
  | node (properties : Properties)
  | entry
  | punctuation
  | over (root : Node)

/-- How far a document has been built. -/
structure Builder where
  /-- What the handles of tags stand for. -/
  handles : List (String × Bytes)
  /-- Whether the document has a marker in front, so that it may be empty. -/
  marked : Bool
  stack : List Collection := []
  phase : Phase := .node {}
  /-- The names of anchors, each once, and the numbers that aliases of them have. -/
  names : List (String × Nat) := []
  /-- The nodes with anchors, in the order in which they begin. -/
  anchored : Array Node := #[]
  /-- For each number of an anchor, the place of its node among these. -/
  places : Array Nat := #[]

namespace Builder

/-! ## Nodes -/

/-- The left out node. -/
def absent : Node := .scalar .absent

/-- A node put into the innermost collection. A pair in a sequence is complete with its value, and
a lone key gets one at once. Without a collection the node is the whole document. -/
def place (node : Node) : List Collection → List Collection × Phase
  | [] => ([], .over node)
  | c :: outer =>
    match c.kind, c.key with
    | .blockSequence, _ | .plainSequence, _ | .flowSequence, _ =>
      ({ c with items := node :: c.items } :: outer, .punctuation)
    | .flowPair, some key => place (.mapping [(key, node)]) outer
    | .flowKey, _ =>
      ({ c with kind := .flowMapping, entries := (node, absent) :: c.entries } :: outer,
        .punctuation)
    | _, some key =>
      ({ c with entries := (key, node) :: c.entries, key := none } :: outer, .punctuation)
    | _, none => ({ c with key := some node } :: outer, .punctuation)

/-- A node that is complete. -/
def deliver (b : Builder) (node : Node) : Builder :=
  let (stack, phase) := place node b.stack
  { b with stack, phase }

/-- The place of the node of a new anchor, which is still to come. The number of an anchor is the
count of the names before it. So one that repeats a name has the number of the anchor after it too,
and an alias by that number stands for the last of the nodes that have it. -/
def register (b : Builder) : Option String → Builder × Option Nat
  | none => (b, none)
  | some name =>
    let number := b.names.length
    let place := b.anchored.size
    ({ b with
        names := (name, number) :: b.names.filter (·.1 ≠ name)
        anchored := b.anchored.push absent
        places := (b.places.take number).push place },
      some place)

/-- The node with an anchor that has a given place. -/
def settle (b : Builder) (node : Node) : Option Nat → Builder
  | none => b
  | some place => { b with anchored := b.anchored.setIfInBounds place node }

/-- The nodes that aliases stand for, by their numbers. -/
def aliased (b : Builder) : Array Node := b.places.map fun place => b.anchored.getD place absent

/-- A scalar that is complete. -/
def scalar (b : Builder) (properties : Properties) (s : Scalar) : Builder :=
  let (b, place) := b.register properties.anchor
  (b.settle (.scalar s) place).deliver (.scalar s)

/-- Open a collection. -/
def openCollection (b : Builder) (properties : Properties) (kind : Kind) (phase : Phase) :
    Builder :=
  let (b, place) := b.register properties.anchor
  { b with stack := { kind, place } :: b.stack, phase }

/-- Close the innermost collection. -/
def close (b : Builder) : Builder :=
  match b.stack with
  | [] => b
  | c :: outer => ({ b with stack := outer }.settle c.toNode c.place).deliver c.toNode

/-- What a tag stands for, if its handle is known. -/
def resolveTag? (b : Builder) (tag : Tag) : Option Bytes :=
  if tag.handle = "" then some tag.suffix
  else (b.handles.lookup tag.handle).map (· ++ tag.suffix)

/-! ## Tokens -/

/-- Whether a node without properties may be left out in front of a token. -/
def mayLack (b : Builder) (t : Token) : Bool :=
  match b.stack with
  | [] => b.marked && [.documentStart, .documentEnd].contains t
  | c :: _ =>
    match c.kind with
    | .blockSequence => [.dash, .blockEnd].contains t
    | .plainSequence => [.dash, .key, .value, .blockEnd].contains t
    | .blockMapping => [.key, .value, .blockEnd].contains t
    | .flowPair =>
      [.comma, .flowSequenceEnd].contains t || (!c.awaitsValue && t = .value)
    | .flowMapping =>
      [.comma, .flowMappingEnd].contains t || (!c.awaitsValue && t = .value)
    | .flowSequence | .flowKey => false

/-- Whether the innermost collection is a mapping by indentation, in which a sequence may stand
without an indentation of its own. -/
def inBlockMapping (b : Builder) : Bool := b.stack.head?.any (·.kind = .blockMapping)

/-- Whether the innermost collection stands in brackets, in which no collection by indentation may
stand. -/
def inFlow (b : Builder) : Bool := b.stack.head?.any (·.kind.isFlow)

/-- Whether a single pair in a sequence awaits its key. -/
def atPairKey (b : Builder) : Bool :=
  b.stack.head?.any fun c => c.kind = .flowPair && !c.awaitsValue

/-- Go over a token of punctuation. -/
def punctuate (b : Builder) (t : Token) : Option Builder :=
  match b.phase, b.stack with
  | .over _, _ => if t = .documentEnd then some b else none
  | _, [] => none
  | _, c :: _ =>
    match c.kind, t with
    | .blockSequence, .dash | .plainSequence, .dash => some { b with phase := .node {} }
    | .blockSequence, .blockEnd => some b.close
    | .blockMapping, .key => if c.awaitsValue then none else some { b with phase := .node {} }
    | .blockMapping, .blockEnd => if c.awaitsValue then none else some b.close
    | .blockMapping, .value | .flowPair, .value | .flowMapping, .value =>
      if c.awaitsValue then some { b with phase := .node {} } else none
    | .flowSequence, .comma => some { b with phase := .entry }
    | .flowMapping, .comma => if c.awaitsValue then none else some { b with phase := .entry }
    | .flowSequence, .flowSequenceEnd => some b.close
    | .flowMapping, .flowMappingEnd => if c.awaitsValue then none else some b.close
    | _, _ => none

/-- Close a sequence without an indentation of its own in front of what is no item of it. -/
def endItems (b : Builder) (t : Token) : Builder :=
  if b.stack.head?.any (·.kind = .plainSequence) && t ≠ .dash then b.close else b

/-- Supply a value that is left out. -/
def endKey (b : Builder) (t : Token) : Builder :=
  let lacks := b.stack.head?.any fun c =>
    [.blockMapping, .flowPair, .flowMapping].contains c.kind && c.awaitsValue && t ≠ .value
  if lacks then b.deliver absent else b

/-- Go over a token where punctuation is due. -/
def feedPunctuation (b : Builder) (t : Token) : Option Builder :=
  ((b.endItems t).endKey t).punctuate t

/-- Go over a token where a node is due. -/
def feedNode (b : Builder) (properties : Properties) (t : Token) : Option Builder :=
  let lone := properties = {}
  match t with
  | .alias name =>
    if lone then (b.names.lookup name).map fun number => b.deliver (.alias number) else none
  | .anchor name =>
    if properties.anchor.isSome then none
    else some { b with phase := .node { properties with anchor := some name } }
  | .tag tag =>
    if properties.tag.isSome then none
    else (b.resolveTag? tag).map fun tag =>
      { b with phase := .node { properties with tag := some tag } }
  | .scalar style text => some (b.scalar properties ⟨style, properties.tag, text⟩)
  | .blockSequence =>
    if b.inFlow then none else some (b.openCollection properties .blockSequence .punctuation)
  | .blockMapping =>
    if b.inFlow then none else some (b.openCollection properties .blockMapping .punctuation)
  | .flowSequence => some (b.openCollection properties .flowSequence .entry)
  | .flowMapping => some (b.openCollection properties .flowMapping .entry)
  | t =>
    if t = .dash && b.inBlockMapping then
      some (b.openCollection properties .plainSequence (.node {}))
    else if !lone then
      (b.scalar properties { Scalar.absent with tag := properties.tag }).feedPunctuation t
    else if !b.mayLack t then none
    else if b.atPairKey then some (b.deliver absent)
    else (b.deliver absent).feedPunctuation t

/-- Go over a token where an entry in brackets may begin. -/
def feedEntry (b : Builder) (t : Token) : Option Builder :=
  match b.stack with
  | [] => none
  | c :: outer =>
    match c.kind, t with
    | .flowSequence, .flowSequenceEnd | .flowMapping, .flowMappingEnd => some b.close
    | .flowSequence, .key => some (b.openCollection {} .flowPair (.node {}))
    | .flowMapping, .key => some { b with phase := .node {} }
    | .flowMapping, t =>
      { b with stack := { c with kind := .flowKey } :: outer, phase := .node {} }.feedNode {} t
    | _, t => { b with phase := .node {} }.feedNode {} t

/-- Go over a token. -/
def feed (b : Builder) (t : Token) : Option Builder :=
  match b.phase with
  | .node properties => b.feedNode properties t
  | .entry => b.feedEntry t
  | .punctuation | .over _ => b.feedPunctuation t

end Builder

/-! ## Documents -/

namespace Document

/-- What handles stand for unless a directive says otherwise. -/
def standardHandles : List (String × Bytes) :=
  [("!", .ofText "!"), ("!!", Scalar.standardTag "")]

/-- What the handles of tags stand for after some directives; each may say its part once. -/
def handles? : List Directive → Option (List (String × Bytes))
  | [] => some standardHandles
  | .version major minor :: rest =>
    if rest.any (handleName · = none) || major ≠ 1 || !(minor = 1 || minor = 2) then none
    else handles? rest
  | .handle name stands :: rest =>
    if rest.any (handleName · = some name) then none
    else (handles? rest).map ((name, stands) :: ·)
where
  /-- The handle that a directive is about, none if it tells a version. -/
  handleName : Directive → Option String
    | .handle name _ => some name
    | .version .. => none

/-- The directives in front of a document. -/
def directives : List Token → List Directive
  | .directive d :: rest => d :: directives rest
  | _ => []

/-- The document that tokens make, if it is the only one. The end of a text ends it too. -/
def ofTokens? (tokens : List Token) : Option Document := do
  let directives := directives tokens
  let handles ← handles? directives
  let rest := tokens.drop directives.length
  let marked := rest.head? = some .documentStart
  if !directives.isEmpty && !marked then none
  let body := if marked then rest.drop 1 else rest
  let b ← (body ++ [Token.documentEnd]).foldlM Builder.feed { handles, marked }
  match b.phase with
  | .over root => return ⟨root, b.aliased⟩
  | _ => none

end Document

/-- The only document of a text. -/
def parse? (text : String) : Option Document := (tokens? text).bind Document.ofTokens?

end Columnlet.Yaml

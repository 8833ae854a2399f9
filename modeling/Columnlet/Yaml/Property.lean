import Columnlet.Bytes
import Columnlet.Text.Digits
import Columnlet.Yaml.Mark

/-!
Names, tags and directives of the YAML notation. They stand within one line, so what has been read
is counted in characters.
-/

namespace Columnlet.Yaml

/-- A value read from within a line, with the count of its characters. -/
structure Taken (α : Type) where
  value : α
  count : Nat
  rest : List Char

/-- The longest front of a text whose characters satisfy a condition. -/
def takeFront (p : Char → Bool) (cs : List Char) : Taken (List Char) :=
  let front := cs.takeWhile p
  ⟨front, front.length, cs.drop front.length⟩

/-! ## Anchors -/

/-- Whether a name may end here. -/
def endsName : List Char → Bool
  | [] => true
  | c :: rest => endsWord (c :: rest) || ['?', ':', ',', ']', '\x7d', '%', '@', '\x60'].contains c

/-- Read the name of an anchor. -/
def anchorName? (cs : List Char) : Option (Taken String) :=
  let name := takeFront isNameChar cs
  if name.count = 0 || !endsName name.rest then none
  else some { name with value := String.ofList name.value }

/-! ## Tags -/

/-- A tag as it is written: the handle that stands for the front of it, and the rest. A tag consists
of bytes, because its escapes need not spell characters. -/
structure Tag where
  handle : String
  suffix : Bytes
  deriving DecidableEq, Repr

/-- Whether a character may stand in a tag; inside angle brackets more of them may. -/
def isTagChar (verbatim : Bool) (c : Char) : Bool :=
  let marks :=
    [';', '/', '?', ':', '@', '&', '=', '+', '$', '.', '%', '!', '~', '*', '\x27', '(', ')']
  isNameChar c || marks.contains c || (verbatim && [',', '[', ']'].contains c)

/-- The count of bytes that spell a character, by the first of them. -/
def leadWidth? (b : UInt8) : Option Nat :=
  if b < 0x80 then some 1
  else if b / 0x20 = 0x06 then some 2
  else if b / 0x10 = 0x0E then some 3
  else if b / 0x08 = 0x1E then some 4
  else none

/-- Whether a byte can continue the spelling of a character. -/
def isTrail (b : UInt8) : Bool := b / 0x40 = 0x02

/-- The bytes spelled by escapes at the front of a text, given how many. -/
def escapedBytes? : Nat → List Char → Option Bytes
  | 0, _ => some []
  | count + 1, '%' :: a :: b :: rest => do
    let high ← Text.digitOf? 16 a
    let low ← Text.digitOf? 16 b
    return .ofNat (high * 16 + low) :: (← escapedBytes? count rest)
  | _ + 1, _ => none

/-- The bytes spelled by the escapes at the front of a text that go together: as many as the first
asks for, of which the others continue it. -/
def escapedGroup? (cs : List Char) : Option Bytes := do
  let first ← (← escapedBytes? 1 cs).head?
  let bytes ← escapedBytes? (← leadWidth? first) cs
  if bytes.tail.all isTrail then return bytes else none

/-- The bytes of a part of a tag, its escapes resolved; `skip` characters belong to one already. -/
def unescapeFrom (out : Bytes) (skip : Nat) : List Char → Option Bytes
  | [] => some out.reverse
  | c :: rest =>
    match skip with
    | skip + 1 => unescapeFrom out skip rest
    | 0 =>
      if c = '%' then
        match escapedGroup? (c :: rest) with
        | none => none
        | some bytes => unescapeFrom (bytes.reverse ++ out) (3 * bytes.length - 1) rest
      else unescapeFrom (.ofNat c.toNat :: out) 0 rest

/-- Read a part of a tag. What stands behind a zero byte does not count. -/
def tagPart? (verbatim : Bool) (cs : List Char) : Option (Taken Bytes) :=
  let part := takeFront (isTagChar verbatim) cs
  (unescapeFrom [] 0 part.value).map fun bytes => { part with value := bytes.takeWhile (· ≠ 0) }

/-- Read a part of a tag that is not empty. -/
def tagText? (verbatim : Bool) (cs : List Char) : Option (Taken Bytes) :=
  (tagPart? verbatim cs).filter (0 < ·.count)

/-- Read a tag from behind its exclamation mark: in angle brackets, with a handle that ends with
another exclamation mark, or with the shortest handle. A lone exclamation mark is a tag too. -/
def tag? (cs : List Char) : Option (Taken Tag) :=
  match cs with
  | '<' :: rest => do
    let text ← tagText? true rest
    match text.rest with
    | '>' :: rest => return ⟨⟨"", text.value⟩, text.count + 2, rest⟩
    | _ => none
  | _ =>
    let name := takeFront isNameChar cs
    match name.rest with
    | '!' :: rest => do
      let text ← tagText? false rest
      return ⟨⟨"!" ++ String.ofList name.value ++ "!", text.value⟩, name.count + 1 + text.count,
        text.rest⟩
    | _ => do
      let text ← tagPart? false cs
      let tag : Tag := if text.value = [] then ⟨"", .ofText "!"⟩ else ⟨"!", text.value⟩
      return ⟨tag, text.count, text.rest⟩

/-- Whether a tag may end here. -/
def endsTag (flow : Bool) (rest : List Char) : Bool :=
  endsWord rest || (flow && rest.head? = some ',')

/-! ## Directives -/

/-- What a directive says: the version of the notation, or what a handle stands for. -/
inductive Directive where
  | version (major minor : Nat)
  | handle (name : String) (stands : Bytes)
  deriving DecidableEq, Repr

/-- Read a number of at most nine digits. -/
def shortNumber? (cs : List Char) : Option (Taken Nat) := do
  let digits := takeFront Char.isDigit cs
  let n ← Text.number? 10 digits.value
  if digits.count ≤ 9 then return { digits with value := n } else none

/-- Read what a directive says of the version. -/
def version? (cs : List Char) : Option (Directive × List Char) := do
  let major ← shortNumber? cs
  match major.rest with
  | '.' :: rest =>
    let minor ← shortNumber? rest
    return (.version major.value minor.value, minor.rest)
  | _ => none

/-- Read what a directive says of a handle. -/
def handle? (cs : List Char) : Option (Directive × List Char) :=
  match cs with
  | '!' :: rest => do
    let name := takeFront isNameChar rest
    let (handle, rest) ← match name.rest with
      | '!' :: rest => some ("!" ++ String.ofList name.value ++ "!", rest)
      | rest => if name.count = 0 then some ("!", rest) else none
    if !(rest.head?.any isBlank) then none
    let text ← tagText? true (rest.dropWhile isBlank)
    if endsWord text.rest then return (.handle handle text.value, text.rest) else none
  | _ => none

/-- The directive of a line, behind its percent sign. Nothing but a comment may follow it. -/
def directive? (line : List Char) : Option Directive := do
  let name := takeFront isNameChar line
  if !endsWord name.rest then none
  let (directive, rest) ←
    if name.value = "YAML".toList then version? (name.rest.dropWhile isBlank)
    else if name.value = "TAG".toList then handle? (name.rest.dropWhile isBlank)
    else none
  match rest.dropWhile isBlank with
  | [] => return directive
  | c :: _ => if c = '#' then return directive else none

end Columnlet.Yaml

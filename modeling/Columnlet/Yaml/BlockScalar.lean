import Columnlet.Yaml.Scalar

/-!
Scalars of the YAML notation that stand in lines of their own, behind a bar or a greater-than
sign. Their lines are indented alike; the second kind joins lines that are not indented further.
-/

namespace Columnlet.Yaml

/-- What becomes of the ends of lines at the end of a block scalar. -/
inductive Chomping where
  | strip
  | clip
  | keep
  deriving DecidableEq, Repr

/-- How a block scalar is to be read: whether its lines stay apart, what becomes of its end, and
by how many columns more than its surroundings it is indented, if that is told. -/
structure BlockStyle where
  literal : Bool
  chomping : Chomping := .clip
  indent : Option Nat := none
  deriving DecidableEq, Repr

namespace BlockStyle

/-- The chomping that a sign asks for. -/
def chomping? : Char → Option Chomping
  | '-' => some .strip
  | '+' => some .keep
  | _ => none

/-- The indentation that a digit tells, which is not zero. -/
def indent? (c : Char) : Option Nat := (Text.digitOf? 10 c).filter (0 < ·)

/-- The style that signs ask for: at most one for the end and one for the indentation. -/
def ofSigns? (literal : Bool) (signs : List Char) : Option BlockStyle :=
  let chompings := signs.filterMap chomping?
  let indents := signs.filterMap indent?
  if chompings.length ≤ 1 ∧ indents.length ≤ 1 ∧ chompings.length + indents.length = signs.length
  then some { literal, chomping := chompings.head?.getD .clip, indent := indents.head? }
  else none

end BlockStyle

/-! ## Lines -/

/-- The indentation of the lines up to the first that is not empty, the widest of them. A tab in
front of a line makes it unknown. -/
def widestFrom (widest column : Nat) : List Char → Option Nat
  | [] => some (max widest column)
  | c :: rest =>
    if c = ' ' then widestFrom widest (column + 1) rest
    else if c = '\t' then none
    else if isBreak c then widestFrom (max widest column) 0 rest
    else some (max widest column)

/-- What has been read of a block scalar, the latest first: its text, what ended the last line, and
what ended the empty lines after it. -/
structure Lines where
  out : List Char := []
  last : Option Char := none
  more : List Char := []
  /-- Whether the last line began with a blank. -/
  indented : Bool := false

namespace Lines

/-- Go on with a line that begins with a given character. Two lines are joined by a blank if
neither is indented further and no empty line is between them. -/
def start (style : BlockStyle) (l : Lines) (c : Char) : Lines :=
  let joins := !style.literal && l.last = some '\n' && !l.indented && !isBlank c
  let ended := if joins then (if l.more.isEmpty then [' '] else []) else l.last.toList
  { out := c :: (l.more ++ ended ++ l.out), indented := isBlank c }

/-- The text, with as much of its end as the style keeps. -/
def close (style : BlockStyle) (l : Lines) : String :=
  match style.chomping with
  | .strip => textOf l.out
  | .clip => textOf (l.last.toList ++ l.out)
  | .keep => textOf (l.more ++ l.last.toList ++ l.out)

end Lines

/-- Read a block scalar on, from within a line or from the blanks in front of one. -/
def linesFrom (style : BlockStyle) (indent : Nat) (within : Bool) (l : Lines) (m : Mark) :
    List Char → Option (Read String)
  | [] => some ⟨l.close style, m, []⟩
  | c :: rest =>
    if within then
      if isBreak c then linesFrom style indent false { l with last := some c } m.newline rest
      else linesFrom style indent true { l with out := c :: l.out } (m.after c) rest
    else if c = ' ' && m.column < indent then linesFrom style indent false l (m.after c) rest
    else if c = '\t' && m.column < indent then none
    else if isBreak c then
      linesFrom style indent false { l with more := c :: l.more } m.newline rest
    else if m.column < indent then some ⟨l.close style, m, c :: rest⟩
    else linesFrom style indent true (l.start style c) (m.after c) rest

/-- Read a block scalar from the line after its signs on. -/
def blockLines (style : BlockStyle) (margin : Nat) (m : Mark) (rest : List Char) :
    Option (Read String) :=
  match style.indent with
  | some more => linesFrom style (margin - 1 + more) false {} m rest
  | none =>
    match widestFrom 0 m.column rest with
    | none => none
    | some widest => linesFrom style (max (max widest margin) 1) false {} m rest

/-- Read a block scalar from behind the character that announces it. Nothing but a comment may
follow its signs. -/
def blockScalar? (literal : Bool) (margin : Nat) (m : Mark) (rest : List Char) :
    Option (Read String) := do
  let signs := rest.takeWhile fun c => c = '+' || c = '-' || c.isDigit
  let style ← BlockStyle.ofSigns? literal signs
  let m := m.behind signs
  let rest := rest.drop signs.length
  let blanks := rest.takeWhile isBlank
  let m := m.behind blanks
  let rest := rest.drop blanks.length
  let comment := if rest.head? = some '#' then rest.takeWhile (!isBreak ·) else []
  let m := m.behind comment
  match rest.drop comment.length with
  | [] => blockLines style margin m []
  | c :: rest => if isBreak c then blockLines style margin m.newline rest else none

end Columnlet.Yaml

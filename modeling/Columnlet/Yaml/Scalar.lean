import Columnlet.Text.Digits
import Columnlet.Yaml.Mark

/-!
Scalars of the YAML notation that are folded as they are read: bare, in single or in double
quotes. What is met between two words, blanks and ends of lines, is a gap. A gap within a line is
kept; one that ends a line is a blank, or if it ends more lines, what ends those after the first.
-/

namespace Columnlet.Yaml

/-! ## Gaps -/

/-- What was met since the last word of a scalar, the latest first: the blanks up to the end of the
line, what ended the first line, and what ended the lines after it. -/
structure Gap where
  blanks : List Char := []
  /-- Whether the end of the first line was escaped, so that it leaves nothing. -/
  escaped : Bool := false
  first : Option Char := none
  more : List Char := []

namespace Gap

/-- Whether the gap reaches over the end of a line. -/
def broken (g : Gap) : Bool := g.escaped || g.first.isSome

/-- Whether nothing was met. -/
def isEmpty (g : Gap) : Bool := g.blanks.isEmpty && !g.broken

/-- The gap with one more blank; blanks at the start of a line do not count. -/
def blank (g : Gap) (c : Char) : Gap := if g.broken then g else { g with blanks := c :: g.blanks }

/-- The gap with one more end of a line. -/
def newline (g : Gap) (c : Char) : Gap :=
  if g.broken then { g with more := c :: g.more } else { first := some c }

/-- What a gap leaves in front of the next word, both written backwards. A separator of lines or
paragraphs is kept also where it ends the first line. -/
def foldOnto (g : Gap) (out : List Char) : List Char :=
  match g.first with
  | none => if g.escaped then g.more ++ out else g.blanks ++ out
  | some '\n' => if g.more.isEmpty then ' ' :: out else g.more ++ out
  | some c => g.more ++ c :: out

end Gap

/-- The text of characters written backwards. -/
def textOf (out : List Char) : String := String.ofList out.reverse

/-! ## Bare scalars -/

/-- Whether a bare scalar can begin so. -/
def startsBare (flow : Bool) : List Char → Bool
  | [] => false
  | '-' :: rest => !endsWord rest
  | '?' :: rest | ':' :: rest => !flow && !endsWord rest
  | c :: _ =>
    !(isBlank c || isBreak c || isFlowEnd c ||
      ['#', '&', '*', '!', '|', '>', '\x27', '"', '%', '@', '\x60'].contains c)

/-- Whether a bare scalar ends with a gap, because of what follows: a line that is not indented by
`margin`, the marker of a document, or a comment. -/
def Gap.leaves (g : Gap) (flow : Bool) (margin : Nat) (m : Mark) (rest : List Char) : Bool :=
  (g.broken && !flow && m.column < margin) || m.atMarker rest ||
    (rest.head? = some '#' && !g.isEmpty)

/-- Read a bare scalar on, with the text so far in `out`, up to where it ends and over the gap in
front of that; the value tells also whether that gap ended a line. Outside of brackets a line that
is not indented by `margin` ends the scalar, and nowhere may a tab stand in front of that. -/
def bareFrom (flow : Bool) (margin : Nat) (out : List Char) (gap : Gap) (m : Mark) :
    List Char → Option (Read (String × Bool))
  | [] => some ⟨(textOf out, gap.broken), m, []⟩
  | c :: rest =>
    if isBlank c then
      if c = '\t' && gap.broken && m.column < margin then none
      else bareFrom flow margin out (gap.blank c) (m.after c) rest
    else if isBreak c then bareFrom flow margin out (gap.newline c) m.newline rest
    else if c = ':' && flow && !gap.leaves flow margin m (c :: rest) &&
        rest.head?.any fun d => d = '?' || isFlowEnd d then none
    else if gap.leaves flow margin m (c :: rest) || (c = ':' && endsWord rest) ||
        (flow && isFlowEnd c) then
      some ⟨(textOf out, gap.broken), m, c :: rest⟩
    else bareFrom flow margin (c :: gap.foldOnto out) {} (m.after c) rest

/-! ## Quoted scalars -/

/-- Read a scalar in single quotes on, in which a quote is written twice. -/
def singleFrom (out : List Char) (gap : Gap) (m : Mark) : List Char → Option (Read String)
  | [] => none
  | '\x27' :: '\x27' :: rest =>
    singleFrom ('\x27' :: gap.foldOnto out) {} ((m.after '\x27').after '\x27') rest
  | '\x27' :: rest => some ⟨textOf (gap.foldOnto out), m.after '\x27', rest⟩
  | c :: rest =>
    if m.atMarker (c :: rest) then none
    else if isBlank c then singleFrom out (gap.blank c) (m.after c) rest
    else if isBreak c then singleFrom out (gap.newline c) m.newline rest
    else singleFrom (c :: gap.foldOnto out) {} (m.after c) rest

/-- The character of an escape of one letter. -/
def escape? : Char → Option Char
  | '0' => some '\x00'
  | 'a' => some '\x07'
  | 'b' => some '\x08'
  | 't' | '\t' => some '\t'
  | 'n' => some '\n'
  | 'v' => some '\x0b'
  | 'f' => some '\x0c'
  | 'r' => some '\r'
  | 'e' => some '\x1b'
  | ' ' => some ' '
  | '"' => some '"'
  | '/' => some '/'
  | '\\' => some '\\'
  | 'N' => some '\u0085'
  | '_' => some '\u00a0'
  | 'L' => some '\u2028'
  | 'P' => some '\u2029'
  | _ => none

/-- The count of hexadecimal digits after a letter that spells a character by number. -/
def codeWidth? : Char → Option Nat
  | 'x' => some 2
  | 'u' => some 4
  | 'U' => some 8
  | _ => none

/-- The character of a number, if it is that of one. -/
def codePoint? (n : Nat) : Option Char :=
  if h : n.isValidChar then some (Char.ofNatAux n h) else none

/-- Read a scalar in double quotes on. `code` is the number of hexadecimal digits still to come
of a character spelled by number, and what they spell so far. -/
def doubleFrom (out : List Char) (gap : Gap) (code : Option (Nat × Nat)) (m : Mark) :
    List Char → Option (Read String)
  | [] => none
  | c :: rest =>
    match code with
    | some (left, n) =>
      match Text.digitOf? 16 c with
      | none => none
      | some d =>
        let n := n * 16 + d
        if left ≤ 1 then
          match codePoint? n with
          | none => none
          | some spelled => doubleFrom (spelled :: out) {} none (m.after c) rest
        else doubleFrom out {} (some (left - 1, n)) (m.after c) rest
    | none =>
      if m.atMarker (c :: rest) then none
      else if c = '"' then some ⟨textOf (gap.foldOnto out), m.after c, rest⟩
      else if isBlank c then doubleFrom out (gap.blank c) none (m.after c) rest
      else if isBreak c then doubleFrom out (gap.newline c) none m.newline rest
      else if c = '\\' then
        let before := gap.foldOnto out
        match rest with
        | [] => none
        | e :: rest =>
          if isBreak e then
            doubleFrom before { escaped := true } none (m.after c).newline rest
          else
            match codeWidth? e with
            | some width => doubleFrom before {} (some (width, 0)) ((m.after c).after e) rest
            | none =>
              match escape? e with
              | some spelled => doubleFrom (spelled :: before) {} none ((m.after c).after e) rest
              | none => none
      else doubleFrom (c :: gap.foldOnto out) {} none (m.after c) rest

end Columnlet.Yaml

/-!
Characters of the YAML notation and marks in a text. A mark counts bytes from the start, lines, and
characters from the start of a line: lengths are measured in bytes, indentation in columns.
-/

namespace Columnlet.Yaml

/-! ## Characters -/

/-- Whether a character may stand in a text. -/
def isAllowed (c : Char) : Bool :=
  let n := c.toNat
  n = 0x09 || n = 0x0A || n = 0x0D || (0x20 ≤ n && n ≤ 0x7E) || n = 0x85 ||
    (0xA0 ≤ n && n ≤ 0xFFFD) || 0x10000 ≤ n

/-- The characters of a text with each way to end a line written as a line feed. The separators of
lines and of paragraphs end a line too, but stay what they are. -/
def unifyBreaks (cs : List Char) : List Char :=
  (cs.zip (cs.drop 1 ++ [' '])).filterMap fun (c, next) =>
    if c = '\r' && next = '\n' then none
    else if c = '\r' || c = '\u0085' then some '\n'
    else some c

/-- Whether a character ends a line. -/
def isBreak (c : Char) : Bool := c = '\n' || c = '\u2028' || c = '\u2029'

/-- Whether a character is a space or a tab. -/
def isBlank (c : Char) : Bool := c = ' ' || c = '\t'

/-- The mark of the byte order, which may stand in front of a line. -/
def byteOrderMark : Char := '\ufeff'

/-- Whether a character may stand in the name of an anchor, a handle or a directive. -/
def isNameChar (c : Char) : Bool := c.isAlphanum || c = '_' || c = '-'

/-- Whether a word ends here: at a blank, at the end of a line or of the text. -/
def endsWord : List Char → Bool
  | [] => true
  | c :: _ => isBlank c || isBreak c

/-- Whether a line that begins so begins or ends a document. -/
def isMarker : List Char → Bool
  | '-' :: '-' :: '-' :: rest => endsWord rest
  | '.' :: '.' :: '.' :: rest => endsWord rest
  | _ => false

/-- The characters that end a bare scalar inside brackets. -/
def isFlowEnd (c : Char) : Bool := [',', '[', ']', '\x7b', '\x7d'].contains c

/-! ## Marks -/

/-- A place in a text: the bytes before it, the lines before its own, and the characters before it
in its own. The end of a line counts as one byte. -/
structure Mark where
  index : Nat := 0
  line : Nat := 0
  column : Nat := 0
  deriving DecidableEq, Repr

namespace Mark

/-- The mark behind a character that does not end the line. -/
def after (m : Mark) (c : Char) : Mark where
  index := m.index + c.utf8Size
  line := m.line
  column := m.column + 1

/-- The mark behind some characters of one line. -/
def behind (m : Mark) (cs : List Char) : Mark := cs.foldl after m

/-- The mark behind the end of a line. -/
def newline (m : Mark) : Mark where
  index := m.index + 1
  line := m.line + 1
  column := 0

/-- Whether a marker of a document stands here. -/
def atMarker (m : Mark) (rest : List Char) : Bool := m.column = 0 && isMarker rest

end Mark

/-- A value read from the front of a text, the mark behind it, and what follows. -/
structure Read (α : Type) where
  value : α
  mark : Mark
  rest : List Char

/-- A reading with its value changed. -/
def Read.map {α β : Type} (f : α → β) (r : Read α) : Read β := ⟨f r.value, r.mark, r.rest⟩

end Columnlet.Yaml

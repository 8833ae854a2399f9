import Columnlet.Text.Quoted

/-!
Values of the JSON notation, written over several lines with two blanks for each level.
-/

namespace Columnlet.Text

/-- A number, a text, or members by name. -/
inductive Json where
  | number (n : Nat)
  | text (s : String)
  | object (members : List (String × Json))

namespace Json

/-- One character of a text. -/
def escape (c : Char) : List Char :=
  match c with
  | '"' => ['\\', '"']
  | '\\' => ['\\', '\\']
  | '\x08' => ['\\', 'b']
  | '\x0c' => ['\\', 'f']
  | '\n' => ['\\', 'n']
  | '\r' => ['\\', 'r']
  | '\t' => ['\\', 't']
  | c =>
    if c.toNat < 0x20 then
      let digits := hexDigits c.toNat
      ['\\', 'u', '0', '0'] ++ List.replicate (2 - digits.length) '0' ++ digits
    else [c]

/-- A text between quotes. -/
def quote (s : String) : String := String.ofList ('"' :: s.toList.flatMap escape ++ ['"'])

/-- The blanks at the start of a line of a level. -/
def indent (level : Nat) : String := String.ofList (List.replicate (2 * level) ' ')

mutual

/-- A value whose lines after the first are of a level. -/
def render (level : Nat) : Json → String
  | number n => toString n
  | text s => quote s
  | object members =>
    "\x7b\n" ++ String.intercalate ",\n" (renderMembers (level + 1) members) ++ "\n" ++
      indent level ++ "\x7d"

/-- The lines of members. -/
def renderMembers (level : Nat) : List (String × Json) → List String
  | [] => []
  | (name, value) :: rest =>
    (indent level ++ quote name ++ ": " ++ render level value) :: renderMembers level rest

end

end Json

end Columnlet.Text

import Columnlet.Text.Invisible

/-!
Quoted text: a string between double quotes in which quotes and backslashes are escaped and
invisible characters are spelled by number, so that what is read shows every character.
-/

namespace Columnlet.Text

/-- The digits of a number in base sixteen, in lower case. -/
def hexDigits (n : Nat) : List Char := Nat.toDigits 16 n

/-- One character inside quotes. -/
def quoteChar (c : Char) : List Char :=
  match c with
  | '\x00' => ['\\', '0']
  | '\t' => ['\\', 't']
  | '\n' => ['\\', 'n']
  | '\r' => ['\\', 'r']
  | '\\' => ['\\', '\\']
  | '"' => ['\\', '"']
  | c => if isInvisible c then "\\u\x7b".toList ++ hexDigits c.toNat ++ "\x7d".toList else [c]

/-- A text between double quotes, every character of it visible. -/
def quote (s : String) : String :=
  String.ofList ('"' :: s.toList.flatMap quoteChar ++ ['"'])

end Columnlet.Text

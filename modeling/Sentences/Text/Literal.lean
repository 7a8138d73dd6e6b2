import Sentences.Text.Hidden

/-!
# Texts between quotes

A text is shown to a reader between double quotes, so that every character of it can be told: the
quote and the backslash get a backslash, four controls have short escapes, and a hidden character
is written as its number in hexadecimal digits.
-/

namespace Sentences.Text

/-- How a character is shown between quotes. -/
def literalChar (c : Char) : Text :=
  match c with
  | '"' => ['\\', '"']
  | '\\' => ['\\', '\\']
  | '\n' => ['\\', 'n']
  | '\r' => ['\\', 'r']
  | '\t' => ['\\', 't']
  | '\x00' => ['\\', '0']
  | c => if isHidden c then ['\\', 'u', '\x7b'] ++ Nat.toDigits 16 c.toNat ++ ['\x7d'] else [c]

/-- A text between double quotes. -/
def literal (t : Text) : Text :=
  '"' :: t.flatMap literalChar ++ ['"']

end Sentences.Text

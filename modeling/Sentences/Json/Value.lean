import Sentences.Text.Decimal

/-!
# JSON values and how they are written

Two layouts: compact, with no white space at all, and indented, with one item a line, two spaces
for each level and a space after the colon. An empty list or object is a pair of brackets in both.

In a string the quote, the backslash and the characters below the space are escaped, with a short
escape where JSON has one; all other characters stand for themselves.
-/

namespace Sentences.Json

/-- A JSON value; of numbers only the natural ones. -/
inductive Value where
  | null
  | bool (b : Bool)
  | number (n : Nat)
  | string (t : Text)
  | array (items : List Value)
  | object (members : List (Text × Value))
  deriving Inhabited

/-! ## 1. Strings -/

/-- How a character stands in a string. -/
def escape (c : Char) : Text :=
  match c with
  | '"' => ['\\', '"']
  | '\\' => ['\\', '\\']
  | '\x08' => ['\\', 'b']
  | '\x0c' => ['\\', 'f']
  | '\n' => ['\\', 'n']
  | '\r' => ['\\', 'r']
  | '\t' => ['\\', 't']
  | c =>
    if c.toNat < 0x20 then
      ['\\', 'u', '0', '0', Nat.digitChar (c.toNat / 16), Nat.digitChar (c.toNat % 16)]
    else [c]

/-- A text as a JSON string. -/
def quoted (t : Text) : Text :=
  '"' :: t.flatMap escape ++ ['"']

/-! ## 2. Layouts -/

/-- Where white space goes; the depth counts the brackets around the value. -/
inductive Layout where
  | compact
  | indented (depth : Nat)

namespace Layout

/-- What stands before an item or a closing bracket. -/
def newLine : Layout → Text
  | .compact => []
  | .indented depth => '\n' :: List.replicate (2 * depth) ' '

/-- The layout between the brackets of a value. -/
def deeper : Layout → Layout
  | .compact => .compact
  | .indented depth => .indented (depth + 1)

/-- What stands between a key and its value. -/
def colon : Layout → Text
  | .compact => [':']
  | .indented _ => [':', ' ']

/-- Written items between brackets, with a comma between two of them. -/
def enclose (l : Layout) (opening closing : Char) (items : List Text) : Text :=
  match items with
  | [] => [opening, closing]
  | first :: rest =>
    opening :: (l.deeper.newLine ++ first) ++ rest.flatMap (fun item => ',' :: l.deeper.newLine ++ item)
      ++ l.newLine ++ [closing]

end Layout

/-! ## 3. Values -/

/-- The word for a truth value. -/
def ofBool : Bool → Text
  | true => "true".toList
  | false => "false".toList

mutual

/-- A value as text. -/
def Value.write (l : Layout) : Value → Text
  | .null => "null".toList
  | .bool b => ofBool b
  | .number n => Text.ofNat n
  | .string t => quoted t
  | .array items => l.enclose '[' ']' (writeItems l.deeper items)
  | .object members => l.enclose '\x7b' '\x7d' (writeMembers l.deeper members)

/-- The items of a list, each as text. -/
def writeItems (l : Layout) : List Value → List Text
  | [] => []
  | v :: rest => v.write l :: writeItems l rest

/-- The members of an object, each as text. -/
def writeMembers (l : Layout) : List (Text × Value) → List Text
  | [] => []
  | (key, v) :: rest => (quoted key ++ l.colon ++ v.write l) :: writeMembers l rest

end

/-- A value without white space. -/
def Value.compact (v : Value) : Text :=
  v.write .compact

/-- A value over several lines. -/
def Value.indented (v : Value) : Text :=
  v.write (.indented 0)

end Sentences.Json

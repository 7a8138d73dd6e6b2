import Sentences.Json.Number
import Sentences.Text.Basic

/-!
# Reading JSON text

A reader takes a value of one wanted shape from the front of a text and leaves the rest. It goes
from left to right and stops at the first fault.

* White space is the space, the tab, the line feed and the carriage return.
* A value of another shape is a mismatch as soon as it is seen to be a value: a word, a number or a
  string is read to its end first, a list or an object is not.
* A record is an object, with members in any order, or a list of its fields in order. A field
  given twice is a mismatch, and so is one that is wanted and not given; other members are passed
  over.

Loops run on the length of the text that is left, which every turn makes shorter.
-/

namespace Sentences.Json

/-- Takes a value from the front of a text. -/
abbrev Reader (α : Type) := StateT Text (Except Fault) α

/-- White space between the parts of a JSON text. -/
def isSpace (c : Char) : Bool :=
  c == ' ' || c == '\n' || c == '\t' || c == '\r'

namespace Reader

variable {α σ : Type}

/-! ## 1. Characters -/

/-- The next character, which stays where it is. -/
def here : Reader (Option Char) :=
  fun t => .ok (t.head?, t)

/-- The next character after white space, which is dropped; the character stays. -/
def ahead : Reader (Option Char) := do
  modify (List.dropWhile isSpace)
  here

/-- The next character after white space, in a place where the text must go on. -/
def mustGoOn : Reader Char := do
  match ← ahead with
  | none => throw .truncated
  | some c => return c

/-- Drops a character that was looked at. -/
def advance : Reader Unit :=
  modify List.tail

/-- Takes a character; `early` is the fault of a text that ends here. -/
def next (early : Fault) : Reader Char := do
  match ← here with
  | none => throw early
  | some c => advance; return c

/-- Takes the characters of a word. -/
def word : Text → Reader Unit
  | [] => return ()
  | c :: rest => do
    if (← next .truncated) = c then word rest else throw .malformed

/-! ## 2. Strings -/

/-- The value of a hexadecimal digit. -/
def hexDigit? (c : Char) : Option Nat :=
  if c.isDigit then some (c.toNat - '0'.toNat)
  else if 'a' ≤ c ∧ c ≤ 'f' then some (c.toNat - 'a'.toNat + 10)
  else if 'A' ≤ c ∧ c ≤ 'F' then some (c.toNat - 'A'.toNat + 10)
  else none

/-- The number that hexadecimal digits stand for. -/
def hexNumber? (digits : Text) : Option Nat :=
  (digits.mapM hexDigit?).map (List.foldl (fun n d => 16 * n + d) 0)

/-- A code unit as four hexadecimal digits. Fewer than four bytes are too short a text. -/
def codeUnit : Reader Nat := fun t =>
  if Text.byteLength (t.take 4) < 4 then .error .truncated
  else match hexNumber? (t.take 4) with
    | some n => .ok (n, t.drop 4)
    | none => .error .malformed

/-- The second half of a surrogate pair. -/
def lowSurrogate : Reader Nat := do
  word ['\\', 'u']
  let low ← codeUnit
  if 0xDC00 ≤ low ∧ low ≤ 0xDFFF then return low else throw .malformed

/-- The character that code units stand for. A high surrogate needs a low one after it. -/
def codePoint : Reader Char := do
  let unit ← codeUnit
  if 0xDC00 ≤ unit ∧ unit ≤ 0xDFFF then throw .malformed
  else if 0xD800 ≤ unit ∧ unit ≤ 0xDBFF then
    return Char.ofNat (0x10000 + 0x400 * (unit - 0xD800) + ((← lowSurrogate) - 0xDC00))
  else return Char.ofNat unit

/-- What an escape stands for, after its backslash; `point` reads the numbered escapes. -/
def escaped (point : Reader Char) : Reader Char := do
  match ← next .truncated with
  | '"' => return '"'
  | '\\' => return '\\'
  | '/' => return '/'
  | 'b' => return '\x08'
  | 'f' => return '\x0c'
  | 'n' => return '\n'
  | 'r' => return '\r'
  | 't' => return '\t'
  | 'u' => point
  | _ => throw .malformed

/-- The characters up to the closing quote. -/
def characters (point : Reader Char) : Nat → Reader Text
  | 0 => throw .truncated
  | fuel + 1 => do
    match ← next .truncated with
    | '"' => return []
    | '\\' => return (← escaped point) :: (← characters point fuel)
    | c => if c.toNat < 0x20 then throw .malformed else return c :: (← characters point fuel)

/-- A string after its opening quote. -/
def stringBody : Reader Text := fun t => characters codePoint t.length t

/-- A string after its opening quote, when its text is of no interest: surrogates may be alone. -/
def skippedString : Reader Unit := fun t => do
  let (_, rest) ← characters (codeUnit.map fun _ => '\x00') t.length t
  return ((), rest)

/-! ## 3. Numbers -/

/-- The decimal digits that come next. -/
def digits : Reader Text :=
  fun t => .ok (t.takeWhile Char.isDigit, t.dropWhile Char.isDigit)

/-- The decimal digits that come next, at least one; `early` is the fault of a text that ends. -/
def someDigits (early : Fault) : Reader Text := do
  match ← here with
  | none => throw early
  | some c => if c.isDigit then digits else throw .malformed

/-- The digits before the point: a zero stands alone. -/
def whole (early : Fault) : Reader Text := do
  let ds ← someDigits early
  if ds.head? = some '0' ∧ ds ≠ ['0'] then throw .malformed else return ds

/-- The digits after a point, none if there is no point. -/
def fraction (early : Fault) : Reader Text := do
  if (← here) = some '.' then advance; someDigits early else return []

/-- The sign of an exponent, `true` for a negative one. -/
def sign : Reader Bool := do
  match ← here with
  | some '-' => advance; return true
  | some '+' => advance; return false
  | _ => return false

/-- The exponent, if there is one. -/
def exponent (early : Fault) : Reader (Option (Bool × Text)) := do
  match ← here with
  | some 'e' | some 'E' =>
    advance
    let negative ← sign
    return some (negative, ← someDigits early)
  | _ => return none

/-- A number; `early` is the fault of a text that ends where a digit has to be. -/
def numeral (early : Fault) : Reader Numeral := do
  let negative := (← here) = some '-'
  if negative then advance
  let whole ← whole early
  let fraction ← fraction early
  let exponent ← exponent early
  return { negative, whole, fraction, exponent }

/-- A number in range. -/
def number : Reader Number := do
  (← numeral .truncated).value

/-! ## 4. Values of another shape -/

/-- Reports what stands here, where a value of another shape is wanted. -/
def mismatch : Reader α := do
  match ← here with
  | some '[' | some '\x7b' => throw .mismatch
  | some '"' => advance; let _ ← stringBody; throw .mismatch
  | some 'n' => word "null".toList; throw .mismatch
  | some 't' => word "true".toList; throw .mismatch
  | some 'f' => word "false".toList; throw .mismatch
  | some c =>
    if c = '-' ∨ c.isDigit then
      let _ ← number
      throw .mismatch
    else throw .malformed
  | none => throw .truncated

/-! ## 5. Plain values -/

/-- A string. -/
def string : Reader Text := do
  if (← mustGoOn) = '"' then advance; stringBody else mismatch

/-- A string where nothing but a string can stand. -/
def key : Reader Text := do
  if (← mustGoOn) = '"' then advance; stringBody else throw .malformed

/-- A truth value. -/
def bool : Reader Bool := do
  match ← mustGoOn with
  | 't' => word "true".toList; return true
  | 'f' => word "false".toList; return false
  | _ => mismatch

/-- A natural number below `2 ^ 64`, or nothing. -/
def number? : Reader (Option UInt64) := do
  let c ← mustGoOn
  if c = 'n' then word "null".toList; return none
  else if c = '-' ∨ c.isDigit then
    match ← number with
    | .natural n => return some n
    | .other => throw .mismatch
  else mismatch

/-! ## 6. Lists and objects -/

/-- Whether a list goes on; every item but the first has a comma before it. -/
def hasItem (first : Bool) : Reader Bool := do
  match ← ahead with
  | none => throw .truncated
  | some ']' => return false
  | some c =>
    if first then return true
    else if c = ',' then
      advance
      if (← mustGoOn) = ']' then throw .malformed else return true
    else throw .malformed

/-- Whether an object goes on, with a quote; every member but the first has a comma before it. -/
def hasMember (first : Bool) : Reader Bool := do
  match ← ahead with
  | none => throw .truncated
  | some '\x7d' => return false
  | some c =>
    if first then
      if c = '"' then return true else throw .malformed
    else if c = ',' then
      advance
      if (← mustGoOn) = '"' then return true else throw .malformed
    else throw .malformed

/-- Takes the bracket that ends a list or an object. -/
def close (bracket : Char) : Reader Unit := do
  if (← mustGoOn) = bracket then advance else throw .malformed

/-- Takes the colon between a key and its value. -/
def colon : Reader Unit := do
  if (← mustGoOn) = ':' then advance else throw .malformed

/-- The items of a list up to its closing bracket. -/
def items (item : Reader α) : Nat → Bool → Reader (List α)
  | 0, _ => throw .truncated
  | fuel + 1, first => do
    if ← hasItem first then
      let a ← item
      return a :: (← items item fuel false)
    else return []

/-- The members of an object up to its closing bracket. -/
def members (key : Reader α) (value : Reader σ) : Nat → Bool → Reader (List (α × σ))
  | 0, _ => throw .truncated
  | fuel + 1, first => do
    if ← hasMember first then
      advance
      let k ← key
      colon
      let v ← value
      return (k, v) :: (← members key value fuel false)
    else return []

/-- A list after its opening bracket. -/
def listBody (item : Reader α) : Reader (List α) := do
  let as ← fun t => items item t.length true t
  close ']'
  return as

/-- An object after its opening bracket. -/
def objectBody (key : Reader α) (value : Reader σ) : Reader (List (α × σ)) := do
  let ms ← fun t => members key value t.length true t
  close '\x7d'
  return ms

/-- A list of values of one shape. -/
def list (item : Reader α) : Reader (List α) := do
  if (← mustGoOn) = '[' then advance; listBody item else mismatch

/-- An object with any keys and values of one shape, in the order of the text. -/
def dictionary (value : Reader α) : Reader (List (Text × α)) := do
  if (← mustGoOn) = '\x7b' then advance; objectBody stringBody value else mismatch

/-! ## 7. Values of no interest -/

/-- Passes over a value of any shape. -/
def skip : Nat → Reader Unit
  | 0 => throw .truncated
  | fuel + 1 => do
    match ← mustGoOn with
    | '[' => advance; let _ ← listBody (skip fuel)
    | '\x7b' => advance; let _ ← objectBody skippedString (skip fuel)
    | '"' => advance; skippedString
    | 'n' => word "null".toList
    | 't' => word "true".toList
    | 'f' => word "false".toList
    | c => if c = '-' ∨ c.isDigit then let _ ← numeral .malformed else throw .malformed

/-- Passes over a value of any shape, however deep. -/
def anything : Reader Unit := fun t => skip t.length t

/-! ## 8. Records -/

/-- A field of a record that is read into a draft. -/
structure RecordField (σ : Type) where
  name : Text
  /-- Whether the draft has the field already. -/
  given : σ → Bool
  /-- Reads the value of the field into the draft. -/
  read : σ → Reader σ

/-- Reads the members of an object into a draft, up to the closing bracket. -/
def fieldsByName (fields : List (RecordField σ)) : Nat → Bool → σ → Reader σ
  | 0, _, _ => throw .truncated
  | fuel + 1, first, draft => do
    if ← hasMember first then
      advance
      let key ← stringBody
      match fields.find? fun f => decide (f.name = key) with
      | none =>
        colon
        anything
        fieldsByName fields fuel false draft
      | some f =>
        if f.given draft then throw .mismatch
        else
          colon
          fieldsByName fields fuel false (← f.read draft)
    else return draft

/-- Reads the items of a list into a draft, one for each field, as far as they go. -/
def fieldsInOrder : List (RecordField σ) → Bool → σ → Reader σ
  | [], _, draft => return draft
  | f :: rest, first, draft => do
    if ← hasItem first then fieldsInOrder rest false (← f.read draft) else return draft

/-- A record: `finish` makes it from the draft, unless a field is wanting. -/
def record (fields : List (RecordField σ)) (draft : σ) (finish : σ → Option α) : Reader α := do
  match ← mustGoOn with
  | '[' =>
    advance
    match finish (← fieldsInOrder fields true draft) with
    | none => throw .mismatch
    | some a => close ']'; return a
  | '\x7b' =>
    advance
    let read : Reader σ := fun t => fieldsByName fields t.length true draft t
    match finish (← read) with
    | none => throw .mismatch
    | some a => close '\x7d'; return a
  | _ => mismatch

/-! ## 9. Whole texts -/

/-- The value of a text that holds nothing else but white space. -/
def readAll (r : Reader α) (t : Text) : Except Fault α :=
  match r t with
  | .error fault => .error fault
  | .ok (a, rest) => if rest.all isSpace then .ok a else .error .malformed

end Reader

end Sentences.Json

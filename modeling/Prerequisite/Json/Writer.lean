/-
Writing JSON.

The written form has no blanks, fields stay in their order, and characters outside ASCII are
written as they are.  In a text the quote, the backslash and the characters below U+0020 are
escaped, the latter by a letter where JSON has one and by four small hexadecimal digits otherwise.
So a written value never contains a line feed, which is what makes one value a line.

Writing appends to the text written so far, and a list of items is one loop over it.
-/
import Prerequisite.Json.Basic
import Prerequisite.Json.Binary64
import Prerequisite.Text.Push

namespace Prerequisite

/-- The text of a number. -/
def Number.text : Number → String
  | .whole n =>
      if n < 0 then "-" ++ String.ofList (Nat.toDigits 10 n.natAbs)
      else String.ofList (Nat.toDigits 10 n.natAbs)
  | .binary64 bits => Binary64.text bits

namespace Json

/-- The hexadecimal digit of a number below sixteen. -/
def hexDigit (n : Nat) : Char :=
  if n < 10 then Char.ofNat ('0'.toNat + n) else Char.ofNat ('a'.toNat + (n - 10))

/-- **How a character is written inside a text.** -/
def escape (c : Char) : List Char :=
  match c with
  | '"' => ['\\', '"']
  | '\\' => ['\\', '\\']
  | '\n' => ['\\', 'n']
  | '\r' => ['\\', 'r']
  | '\t' => ['\\', 't']
  | '\x08' => ['\\', 'b']
  | '\x0c' => ['\\', 'f']
  | c =>
      if c.toNat < 0x20 then
        ['\\', 'u', '0', '0', hexDigit (c.toNat / 16), hexDigit (c.toNat % 16)]
      else [c]

/-- Appends a character in its escaped form. -/
def writeChar (out : String) (c : Char) : String := Text.pushAll out (escape c)

/-- Appends a text in quotes. -/
def writeString (out s : String) : String := (s.toList.foldl writeChar (out.push '"')).push '"'

mutual

/-- **Appends a value.** -/
def write (out : String) : Json → String
  | .null => out ++ "null"
  | .bool true => out ++ "true"
  | .bool false => out ++ "false"
  | .number n => out ++ Number.text n
  | .string s => writeString out s
  | .array items => (writeItems "" (out.push '[') items).push ']'
  | .object fields => (writeFields "" (out.push '\x7b') fields).push '\x7d'
  | .void => out ++ "null"

/-- Appends items, the first one after `separator` and the others after commas. -/
def writeItems (separator out : String) : List Json → String
  | [] => out
  | v :: vs => writeItems "," (write (out ++ separator) v) vs

/-- Appends fields, the first one after `separator` and the others after commas. -/
def writeFields (separator out : String) : List (String × Json) → String
  | [] => out
  | (name, v) :: fs =>
      writeFields "," (write ((writeString (out ++ separator) name).push ':') v) fs

end

/-- The text of a value. -/
def text (v : Json) : String := write "" v

end Json

end Prerequisite

/-
Values of TOML.

A document is a table, and tables remember how they came about, because that decides who may still
add to them: a table with a header of its own, one that only lies on the way to other headers, one
that was written with dotted keys, and one that was written in braces and is complete.  An array of
tables is made by headers too, a table at a time, and the newest of its tables stands first.

Integers are kept as numerals.  Whether a numeral has a value, and how large it may be, is for those
to say who want the value.
-/
import Prerequisite.Text.Hex

namespace Prerequisite.Toml

/-- How a table came about. -/
inductive Origin where
  /-- It has a header of its own, or is the document. -/
  | header
  /-- It lies on the way to another header. -/
  | implied
  /-- It lies on the way of a dotted key. -/
  | dotted
  /-- It was written in braces. -/
  | braces
  deriving DecidableEq, Repr

/-- An integer as it is written, without its marks.  It need not have a value. -/
structure Numeral where
  /-- Whether there is a minus sign. -/
  negative : Bool
  /-- The base of the digits. -/
  base : Nat
  /-- What stands where its digits belong. -/
  digits : List Char
  deriving DecidableEq, Repr

/-- A value. -/
inductive Item where
  | string (s : String)
  | integer (n : Numeral)
  | float (numeral : String)
  | boolean (b : Bool)
  /-- A date, a time, or both. -/
  | dateTime (text : String)
  | array (items : List Item)
  | table (origin : Origin) (entries : List (String × Item))
  /-- An array of tables that headers made, the newest first. -/
  | tables (newestFirst : List (List (String × Item)))
  deriving Repr

/-- Names with their values, in the order they were written. -/
abbrev Entries := List (String × Item)

namespace Numeral

/-- Reads digits of a base onto a value, as long as it stays below `2 ^ 64`. -/
def wordOnto (base value : Nat) : List Char → Option UInt64
  | [] => some (UInt64.ofNat value)
  | c :: cs =>
      match Text.hexValue? c with
      | none => none
      | some d =>
          let next := value * base + d
          if d < base ∧ next < UInt64.size then wordOnto base next cs else none

/-- **The value of a numeral, if it is a number of 64 bits without a sign.**  It must have digits
and nothing else, and zero is the same with a minus sign. -/
def word? (n : Numeral) : Option UInt64 :=
  if n.digits.isEmpty then none
  else
    match wordOnto n.base 0 n.digits with
    | some w => if n.negative && w != 0 then none else some w
    | none => none

end Numeral

namespace Item

/-- The items of an array, in the order they were written. -/
def items? : Item → Option (List Item)
  | .array items => some items
  | .tables newestFirst => some (newestFirst.reverse.map (.table .header))
  | _ => none

/-- The text, if the value is one. -/
def string? : Item → Option String
  | .string s => some s
  | _ => none

/-- The number of 64 bits without a sign, if the value is one. -/
def word? : Item → Option UInt64
  | .integer n => n.word?
  | _ => none

end Item

end Prerequisite.Toml

/-
JSON values.

Fields keep the order they were written in, and a name that occurs twice is kept twice: who decodes
an object says what that means.  Numbers come in two kinds, as readers of JSON tell them apart:
whole numbers of 64 bits, and everything else as a binary64.

One value more than the format has stands for what is well formed and yet denotes nothing: a number
beyond the range of binary64, or a text with half of a surrogate pair.  A decoder that skips a
field must not stumble over such a value; one that wants the value finds nothing there.
-/
namespace Prerequisite

/-- A JSON number. -/
inductive Number where
  /-- A whole number that fits in 64 bits, signed or unsigned. -/
  | whole (n : Int)
  /-- The bits of a binary64. -/
  | binary64 (bits : UInt64)
  deriving DecidableEq, Repr

/-- A JSON value. -/
inductive Json where
  | null
  | bool (b : Bool)
  | number (n : Number)
  | string (s : String)
  | array (items : List Json)
  | object (fields : List (String × Json))
  /-- Well formed, but without a value. -/
  | void
  deriving Repr

namespace Json

/-- A whole number as a value. -/
def nat (n : Nat) : Json := .number (.whole n)

/-- The items, if the value is an array. -/
def items? : Json → Option (List Json)
  | .array items => some items
  | _ => none

/-- The text, if the value is one. -/
def string? : Json → Option String
  | .string s => some s
  | _ => none

/-- The number of 64 bits without a sign, if the value is one. -/
def word? : Json → Option UInt64
  | .number (.whole n) => if 0 ≤ n ∧ n < UInt64.size then some (UInt64.ofNat n.toNat) else none
  | _ => none

/-- The name that a value stands for where names are wanted: a text, or an object with that name
alone and null under it. -/
def unitName? : Json → Option String
  | .string s => some s
  | .object [(name, .null)] => some name
  | _ => none

/-- What a list of fields holds under a name: the last field with that name counts. -/
def lookup (name : String) (fields : List (String × Json)) : Option Json :=
  fields.foldl (fun found f => if f.1 = name then some f.2 else found) none

/-- What an object holds under a name; other values hold nothing. -/
def field? (v : Json) (name : String) : Option Json :=
  match v with
  | .object fields => lookup name fields
  | _ => none

end Json

end Prerequisite

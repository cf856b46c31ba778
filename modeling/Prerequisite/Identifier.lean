/-
Ids.

Sections and users are numbered by the host with unsigned numbers of 64 bits; a restore is named by
a text that the host chooses.
-/
import Prerequisite.Text.Decimal

namespace Prerequisite

/-- The largest id. -/
def maxId : Nat := UInt64.size - 1

/-- The id of a section of a course. -/
structure SectionId where
  /-- The number the host gave the section. -/
  number : UInt64
  deriving DecidableEq, Repr

/-- The id of a user. -/
structure UserId where
  /-- The number the host gave the user. -/
  number : UInt64
  deriving DecidableEq, Repr

/-- The name of one restore of a course. -/
structure RestoreId where
  /-- The text the host chose. -/
  name : String
  deriving DecidableEq, Repr

namespace SectionId

/-- The decimal digits of an id, without leading zeros. -/
def digits (s : SectionId) : List Char := Nat.toDigits 10 s.number.toNat

/-- The id in decimal. -/
def text (s : SectionId) : String := String.ofList s.digits

/-- Reads an id from digits alone; leading zeros are allowed. -/
def ofDigits (cs : List Char) : Except Decimal.Fault SectionId :=
  (Decimal.read maxId cs).map fun n => ⟨UInt64.ofNat n⟩

/-- Reads an id from a text of digits that may start with a plus sign. -/
def ofText (s : String) : Except Decimal.Fault SectionId :=
  (Decimal.readSigned maxId s.toList).map fun n => ⟨UInt64.ofNat n⟩

end SectionId

/-- The id in decimal. -/
def UserId.text (u : UserId) : String := String.ofList (Nat.toDigits 10 u.number.toNat)

end Prerequisite

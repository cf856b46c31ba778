/-
Decimal numerals.

Ids are written in decimal and read back from runs of digits that may carry leading zeros.
Writing is `Nat.toDigits 10`, which gives the shortest numeral.  Reading goes through the run once
and stops at the first fault, so a run of any length is read over numbers that stay small: a prefix
that exceeds the bound already decides the answer, because more digits only make a number larger.
-/
namespace Prerequisite.Decimal

/-- Why a text is no numeral within the bound. -/
inductive Fault where
  /-- There is no character at all. -/
  | empty
  /-- Some character is no digit, and no prefix before it is too large. -/
  | invalidDigit
  /-- Some prefix of digits already exceeds the bound. -/
  | tooLarge
  deriving DecidableEq, Repr

/-- The wording of a fault. -/
def Fault.message : Fault → String
  | .empty => "cannot parse integer from empty string"
  | .invalidDigit => "invalid digit found in string"
  | .tooLarge => "number too large to fit in target type"

/-- The number a digit character stands for. -/
def digitValue (c : Char) : Nat := c.toNat - '0'.toNat

/-- Reads digits onto a number already read, as long as it stays within `bound`. -/
def readOnto (bound value : Nat) : List Char → Except Fault Nat
  | [] => .ok value
  | c :: cs =>
      if c.isDigit then
        if value * 10 + digitValue c ≤ bound then readOnto bound (value * 10 + digitValue c) cs
        else .error .tooLarge
      else .error .invalidDigit

/-- Reads a run of digits with leading zeros allowed, up to `bound`. -/
def read (bound : Nat) : List Char → Except Fault Nat
  | [] => .error .empty
  | cs => readOnto bound 0 cs

/-- Reads a numeral that may also start with a plus sign. -/
def readSigned (bound : Nat) : List Char → Except Fault Nat
  | '+' :: c :: cs => read bound (c :: cs)
  | cs => read bound cs

end Prerequisite.Decimal

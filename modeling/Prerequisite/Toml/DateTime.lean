/-
Dates and times.

A date is a year, a month and a day; a time is an hour and a minute, with or without a second, and
the second with or without a fraction.  There may be either, or a date and a time with one mark
between them, and only then may an offset follow.

Months have the days they have in that year, and a minute may have a leap second.
-/
namespace Prerequisite.Toml.DateTime

/-- The number of two digits. -/
def two? (a b : Char) : Option Nat :=
  if a.isDigit && b.isDigit then
    some ((a.toNat - '0'.toNat) * 10 + (b.toNat - '0'.toNat))
  else none

/-- Whether a year has a leap day. -/
def isLeap (year : Nat) : Bool := year % 4 == 0 && (year % 100 != 0 || year % 400 == 0)

/-- The number of days of a month. -/
def daysIn (year month : Nat) : Nat :=
  if month = 2 then if isLeap year then 29 else 28
  else if month = 4 ∨ month = 6 ∨ month = 9 ∨ month = 11 then 30
  else 31

/-- Whether there is such a day. -/
def isDay (year month day : Nat) : Bool :=
  1 ≤ month && month ≤ 12 && 1 ≤ day && day ≤ daysIn year month

/-- What is left after a date. -/
def date? (s : List Char) : Option (List Char) :=
  match s with
  | a :: b :: c :: d :: '-' :: e :: f :: '-' :: g :: h :: r =>
      match two? a b, two? c d, two? e f, two? g h with
      | some century, some year, some month, some day =>
          if isDay (century * 100 + year) month day then some r else none
      | _, _, _, _ => none
  | _ => none

/-- What is left after a fraction of a second, if there is a point. -/
def fraction? (s : List Char) : Option (List Char) :=
  match s with
  | '.' :: c :: cs => if c.isDigit then some (cs.dropWhile Char.isDigit) else none
  | ['.'] => none
  | s => some s

/-- What is left after a second, if there is one. -/
def second? (s : List Char) : Option (List Char) :=
  match s with
  | ':' :: a :: b :: r =>
      match two? a b with
      | some second => if second ≤ 60 then fraction? r else none
      | none => none
  | s => some s

/-- What is left after a time. -/
def time? (s : List Char) : Option (List Char) :=
  match s with
  | a :: b :: ':' :: c :: d :: r =>
      match two? a b, two? c d with
      | some hour, some minute => if hour ≤ 23 ∧ minute ≤ 59 then second? r else none
      | _, _ => none
  | _ => none

/-- Whether a text is an offset, or nothing. -/
def isOffset (s : List Char) : Bool :=
  match s with
  | [] => true
  | [z] => z == 'Z' || z == 'z'
  | [sign, a, b, ':', c, d] =>
      (sign == '+' || sign == '-') &&
        match two? a b, two? c d with
        | some hour, some minute => hour ≤ 23 && minute ≤ 59
        | _, _ => false
  | _ => false

/-- Whether a character may stand between a date and a time. -/
def isMark (c : Char) : Bool := c == 'T' || c == 't' || c == ' '

/-- **Whether a text is a date, a time, or both.** -/
def isDateTime (s : List Char) : Bool :=
  match date? s with
  | some [] => true
  | some (mark :: r) =>
      isMark mark &&
        match time? r with
        | some rest => isOffset rest
        | none => false
  | none => time? s == some []

end Prerequisite.Toml.DateTime

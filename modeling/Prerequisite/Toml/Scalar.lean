/-
Values of TOML without quotes or brackets.

Such a value is a run of characters up to the next comma, bracket, comment or end of the line.  A
run ends at blanks too, unless characters of another run follow right behind them.  The run as a
whole is a truth value, an integer, a float or a date-time, or it is a mistake.

What a run of digits goes on with decides what it is: a dash or a colon makes a date-time of it, a
point or an exponent a float, and a mark an integer.  Marks may stand between the digits of a
number, one at a time.  A number in base ten has no zeros in front; the other bases have a prefix
of their own and no sign.

A float and a date-time are looked at to their end.  Of an integer with marks only the characters
beside the marks are looked at, and a prefix may have no digits after it: such an integer has no
value, which is a mistake only where one is wanted.
-/
import Prerequisite.Text.Push
import Prerequisite.Toml.Basic
import Prerequisite.Toml.Blank
import Prerequisite.Toml.DateTime

namespace Prerequisite.Toml

open Prerequisite.Text

namespace Scalar

/-! ### Marks -/

/-- **Whether the marks of a text stand where they may:** behind a digit and in front of one.
`afterDigit` says whether the text itself stands behind a digit. -/
def marksFit (isDigit : Char → Bool) (afterDigit : Bool) : List Char → Bool
  | [] => true
  | c :: cs =>
      if c == '_' then afterDigit && cs.head?.any isDigit && marksFit isDigit false cs
      else marksFit isDigit (isDigit c) cs

/-- A text without its marks. -/
def unmarked (s : List Char) : List Char := s.filter (· != '_')

/-- Whether a character belongs to a run of digits and marks. -/
def isDigitOrMark (c : Char) : Bool := c.isDigit || c == '_'

/-! ### Signs -/

/-- Whether a number has a minus in front, and what comes after its sign. -/
def sign (s : List Char) : Bool × List Char :=
  match s with
  | '-' :: r => (true, r)
  | '+' :: r => (false, r)
  | s => (false, s)

/-! ### Floats -/

/-- Whether a run of digits and marks has a digit, and no zero in front of others unless `zeros`
may stand there. -/
def hasDigits (zeros : Bool) (s : List Char) : Bool :=
  let count := s.countP Char.isDigit
  1 ≤ count && (zeros || count == 1 || s.head? != some '0')

/-- Whether a text is an exponent, or nothing. -/
def isExponent (s : List Char) : Bool :=
  match s with
  | [] => true
  | e :: r =>
      (e == 'e' || e == 'E') && (sign r).2.all isDigitOrMark && hasDigits true (sign r).2

/-- Whether a text is a fraction behind its point, with or without an exponent. -/
def isFraction (s : List Char) : Bool :=
  hasDigits true (s.takeWhile isDigitOrMark) && isExponent (s.dropWhile isDigitOrMark)

/-- Whether a text is a float without its sign, whatever its marks. -/
def isFloat (s : List Char) : Bool :=
  hasDigits false (s.takeWhile isDigitOrMark) &&
    match s.dropWhile isDigitOrMark with
    | '.' :: r => isFraction r
    | r => isExponent r

/-! ### Runs -/

/-- Whether a character is a digit in base sixteen. -/
def isHex (c : Char) : Bool := (hexValue? c).isSome

/-- Whether a character is a digit in base eight. -/
def isOctal (c : Char) : Bool := '0' ≤ c && c ≤ '7'

/-- Whether a character is a digit in base two. -/
def isBinary (c : Char) : Bool := c == '0' || c == '1'

/-- An integer in another base than ten, behind its prefix. -/
def based? (isDigit : Char → Bool) (base : Nat) (s : List Char) : Option Item :=
  if s.all (fun c => isDigit c || c == '_') && marksFit isDigit false s then
    some (.integer ⟨false, base, unmarked s⟩)
  else none

/-- The value of a run that is a number in base ten or a date-time: whether it has a minus in front,
what comes after its sign, and the whole run. -/
def decimal? (negative : Bool) (body whole : List Char) : Option Item :=
  let integer := .integer ⟨negative, 10, unmarked body⟩
  match body.dropWhile Char.isDigit with
  | [] => if body == ['0'] || (body != [] && body.head? != some '0') then some integer else none
  | c :: cs =>
      if c == '-' || c == ':' then
        if DateTime.isDateTime whole then some (.dateTime (String.ofList whole)) else none
      else if (c :: cs).contains ' ' then none
      else if (c :: cs).any (fun d => d == '.' || d == 'e' || d == 'E') then
        if isFloat body && marksFit Char.isDigit false body then
          some (.float (String.ofList whole))
        else none
      else if c == '_' && body.head? != some '0' && marksFit isHex false body then
        some integer
      else none

/-- **The value that a run of characters is.** -/
def ofRun? (s : List Char) : Option Item :=
  let (negative, body) := sign s
  if s == ['t', 'r', 'u', 'e'] then some (.boolean true)
  else if s == ['f', 'a', 'l', 's', 'e'] then some (.boolean false)
  else if body == ['i', 'n', 'f'] || body == ['n', 'a', 'n'] then some (.float (String.ofList s))
  else
    match s with
    | '0' :: 'x' :: r => based? isHex 16 r
    | '0' :: 'o' :: r => based? isOctal 8 r
    | '0' :: 'b' :: r => based? isBinary 2 r
    | _ => decimal? negative body s

/-! ### Taking a run -/

/-- Whether a character belongs to a run. -/
def isInRun (c : Char) : Bool :=
  !(isBlank c || c == '\n' || c == '\r' || c == '#' || c == ',' || c == '=' || c == '[' ||
    c == ']' || c == '\x7b' || c == '\x7d')

/-- Whether a run goes on behind blanks with this character. -/
def resumes (c : Char) : Bool := isInRun c && c != '.' && c != '"' && c != '\''

/-- Takes the rest of a run and appends it to what was taken of it before. -/
def runTail (n : Nat) (out : String) (s : List Char) (h : s.length < n) : Reading String n :=
  match hs : s with
  | [] => ⟨out, [], h⟩
  | c :: cs =>
      if isInRun c then runTail n (out.push c) cs (length_lt_of_succ_lt h)
      else if isBlank c then
        match hd : skipBlanks cs with
        | [] => ⟨out, s, hs ▸ h⟩
        | d :: ds =>
            have hlt : ds.length < cs.length := by
              have := length_skipBlanks_le cs
              rw [hd, List.length_cons] at this
              exact this
            if resumes d then
              runTail n ((pushAll (out.push c) (cs.takeWhile isBlank)).push d) ds
                (Nat.lt_trans hlt (length_lt_of_succ_lt h))
            else ⟨out, s, hs ▸ h⟩
      else ⟨out, s, hs ▸ h⟩
termination_by s.length
decreasing_by
  · exact length_lt_succ cs
  · exact Nat.lt_succ_of_lt hlt

/-- **Takes a value without quotes or brackets.** -/
def scalar (s : List Char) : Option (Reading Item s.length) :=
  match s with
  | [] => none
  | c :: cs =>
      if isInRun c then
        let run := runTail (cs.length + 1) (String.singleton c) cs (length_lt_succ cs)
        (ofRun? run.value.toList).map fun v => ⟨v, run.rest, run.shorter⟩
      else none

end Scalar

end Prerequisite.Toml

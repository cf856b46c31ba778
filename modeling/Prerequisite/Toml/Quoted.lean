/-
Quoted texts of TOML.

There are four kinds.  Basic texts stand in quotes and know escapes, literal texts stand in
apostrophes and know none, and either may run over several lines between three of its marks.

A text over several lines loses a line feed right after its opening.  In a basic one a backslash at
the end of a line takes away everything up to the next character that is not blank.  Either may end
with up to two of its marks more than the three that close it.
-/
import Prerequisite.Toml.Blank
import Prerequisite.Text.Hex
import Prerequisite.Text.Push

namespace Prerequisite.Toml

open Prerequisite.Text

/-! ### Escapes -/

/-- The character with a number, if there is one. -/
def charOf? (n : Nat) : Option Char :=
  if n < 0xD800 ∨ (0xDFFF < n ∧ n < 0x110000) then some (Char.ofNat n) else none

/-- Reads a given count of hexadecimal digits onto a value. -/
def hexOnto (value : Nat) : Nat → List Char → Option (Nat × List Char)
  | 0, s => some (value, s)
  | _ + 1, [] => none
  | count + 1, c :: cs =>
      match hexValue? c with
      | some d => hexOnto (value * 16 + d) count cs
      | none => none

theorem length_hexOnto_le {value count n : Nat} {s r : List Char}
    (h : hexOnto value count s = some (n, r)) : r.length ≤ s.length := by
  induction count generalizing value s with
  | zero =>
    simp only [hexOnto, Option.some.injEq, Prod.mk.injEq] at h
    exact Nat.le_of_eq (congrArg List.length h.2.symm)
  | succ count ih =>
    cases s with
    | nil => simp [hexOnto] at h
    | cons c cs =>
      unfold hexOnto at h
      split at h
      · exact Nat.le_succ_of_le (ih h)
      · exact absurd h (by simp)

/-- The character with the number of so many hexadecimal digits. -/
def hexChar (count : Nat) (s : List Char) : Option (Reading Char (s.length + 1)) :=
  match h : hexOnto 0 count s with
  | some (n, r) =>
      (charOf? n).map fun c => ⟨c, r, Nat.lt_succ_of_le (length_hexOnto_le h)⟩
  | none => none

/-- The character behind a backslash. -/
def escape (s : List Char) : Option (Reading Char s.length) :=
  match s with
  | 'b' :: cs => some (.leaving '\x08' cs)
  | 't' :: cs => some (.leaving '\t' cs)
  | 'n' :: cs => some (.leaving '\n' cs)
  | 'f' :: cs => some (.leaving '\x0c' cs)
  | 'r' :: cs => some (.leaving '\r' cs)
  | 'e' :: cs => some (.leaving '\x1b' cs)
  | '"' :: cs => some (.leaving '"' cs)
  | '\\' :: cs => some (.leaving '\\' cs)
  | 'x' :: cs => hexChar 2 cs
  | 'u' :: cs => hexChar 4 cs
  | 'U' :: cs => hexChar 8 cs
  | _ => none

/-! ### Parts

A quoted text is taken part by part.  What may stand in it is different for each of the four kinds,
and the loop over the parts is the same.
-/

/-- A part of a quoted text. -/
inductive Part where
  /-- Characters that belong to the text. -/
  | chars (cs : List Char)
  /-- The marks that close it. -/
  | close
  deriving DecidableEq, Repr

/-- Takes parts and appends their characters to those already taken, up to and with the marks that
close the text. -/
def tail (part : (s : List Char) → Option (Reading Part s.length)) (n : Nat) (out : String)
    (s : List Char) (h : s.length < n) : Option (Reading String n) :=
  match part s with
  | none => none
  | some ⟨.close, rest, shorter⟩ => some ⟨out, rest, Nat.lt_trans shorter h⟩
  | some ⟨.chars cs, rest, shorter⟩ =>
      tail part n (pushAll out cs) rest (Nat.lt_trans shorter h)
termination_by s.length

/-- Takes a part that is an escape, behind its backslash. -/
def escapePart (s : List Char) : Option (Reading Part s.length) :=
  (escape s).map (·.map fun c => .chars [c])

/-! ### Texts on one line -/

/-- Takes a part of a basic text. -/
def basicPart (s : List Char) : Option (Reading Part s.length) :=
  match s with
  | [] => none
  | '"' :: cs => some (.leaving .close cs)
  | '\\' :: cs => (escapePart cs).map (·.succ)
  | c :: cs => if isPlain c then some (.leaving (.chars [c]) cs) else none

/-- Takes a part of a literal text. -/
def literalPart (s : List Char) : Option (Reading Part s.length) :=
  match s with
  | [] => none
  | '\'' :: cs => some (.leaving .close cs)
  | c :: cs => if isPlain c then some (.leaving (.chars [c]) cs) else none

/-! ### Texts over several lines -/

/-- Leaves out an end of a line in front. -/
def dropNewline (s : List Char) : List Char :=
  match s with
  | '\n' :: r => r
  | '\r' :: '\n' :: r => r
  | s => s

theorem length_dropNewline_le (s : List Char) : (dropNewline s).length ≤ s.length := by
  unfold dropNewline
  split
  · simp
  · simp only [List.length_cons]; omega
  · exact Nat.le_refl _

/-- Leaves out blanks and ends of lines. -/
def skipBlankLines (s : List Char) : List Char :=
  match s with
  | '\r' :: '\n' :: r => skipBlankLines r
  | c :: cs => if isBlank c || c == '\n' then skipBlankLines cs else c :: cs
  | [] => []

theorem length_skipBlankLines_le (s : List Char) : (skipBlankLines s).length ≤ s.length := by
  fun_induction skipBlankLines s with
  | case1 r ih => simp only [List.length_cons]; omega
  | case2 c cs _ _ ih => simp only [List.length_cons]; omega
  | case3 => exact Nat.le_refl _
  | case4 => exact Nat.le_refl _

/-- Whether a line ends right here. -/
def startsWithNewline : List Char → Bool
  | '\n' :: _ => true
  | '\r' :: '\n' :: _ => true
  | _ => false

/-- Takes up to two marks more than the three that closed a text: they belong to it. -/
def closing (mark : Char) (out : String) (s : List Char) : String × List Char :=
  match s with
  | a :: b :: r =>
      if a == mark then if b == mark then ((out.push a).push b, r) else (out.push a, b :: r)
      else (out, s)
  | [a] => if a == mark then (out.push a, []) else (out, s)
  | [] => (out, [])

theorem length_closing_le (mark : Char) (out : String) (s : List Char) :
    (closing mark out s).2.length ≤ s.length := by
  unfold closing
  split
  · split
    · split <;> (simp only [List.length_cons]; omega)
    · exact Nat.le_refl _
  · split <;> simp
  · exact Nat.le_refl _

/-- The text that goes on with up to two marks. -/
def withMarks (mark : Char) {n : Nat} (r : Reading String n) : Reading String n :=
  ⟨(closing mark r.value r.rest).1, (closing mark r.value r.rest).2,
    Nat.lt_of_le_of_lt (length_closing_le mark r.value r.rest) r.shorter⟩

/-- Takes a part of a basic text over several lines. -/
def basicLinesPart (s : List Char) : Option (Reading Part s.length) :=
  match s with
  | [] => none
  | '"' :: '"' :: '"' :: cs => some (Reading.leaving .close cs).succ.succ
  | '\\' :: cs =>
      if startsWithNewline (skipBlanks cs) then
        some ⟨.chars [], skipBlankLines cs, Nat.lt_succ_of_le (length_skipBlankLines_le cs)⟩
      else (escapePart cs).map (·.succ)
  | '\n' :: cs => some (.leaving (.chars ['\n']) cs)
  | '\r' :: '\n' :: cs => some (Reading.leaving (.chars ['\r', '\n']) cs).succ
  | c :: cs => if isPlain c then some (.leaving (.chars [c]) cs) else none

/-- Takes a part of a literal text over several lines. -/
def literalLinesPart (s : List Char) : Option (Reading Part s.length) :=
  match s with
  | [] => none
  | '\'' :: '\'' :: '\'' :: cs => some (Reading.leaving .close cs).succ.succ
  | '\n' :: cs => some (.leaving (.chars ['\n']) cs)
  | '\r' :: '\n' :: cs => some (Reading.leaving (.chars ['\r', '\n']) cs).succ
  | c :: cs => if isPlain c then some (.leaving (.chars [c]) cs) else none

/-! ### Any text -/

/-- **Takes a text on one line,** if there is one in front. -/
def lineText? (s : List Char) : Option (Option (Reading String s.length)) :=
  match s with
  | '"' :: cs => some (tail basicPart (cs.length + 1) "" cs (length_lt_succ cs))
  | '\'' :: cs => some (tail literalPart (cs.length + 1) "" cs (length_lt_succ cs))
  | _ => none

/-- Takes the rest of a text over several lines, behind its opening marks. -/
def linesText (part : (s : List Char) → Option (Reading Part s.length)) (mark : Char)
    (s : List Char) : Option (Reading String (s.length + 1)) :=
  (tail part (s.length + 1) "" (dropNewline s)
    (Nat.lt_succ_of_le (length_dropNewline_le s))).map (withMarks mark)

/-- **Takes a text of any kind,** if there is one in front. -/
def text? (s : List Char) : Option (Option (Reading String s.length)) :=
  match s with
  | '"' :: '"' :: '"' :: cs => some ((linesText basicLinesPart '"' cs).map (·.succ.succ))
  | '\'' :: '\'' :: '\'' :: cs => some ((linesText literalLinesPart '\'' cs).map (·.succ.succ))
  | s => lineText? s

end Prerequisite.Toml

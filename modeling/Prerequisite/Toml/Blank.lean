/-
What stands between the parts of a TOML document.

Blanks are spaces and tabs.  A line ends with a line feed, with or without a carriage return in
front of it, and a carriage return alone is a mistake.  A comment goes on to the end of its line;
it may not hold control characters other than tabs.
-/
import Prerequisite.Text.Reading

namespace Prerequisite.Toml

open Prerequisite.Text

/-- Whether a character is a blank. -/
def isBlank (c : Char) : Bool := c == ' ' || c == '\t'

/-- Leaves out the blanks in front. -/
def skipBlanks (s : List Char) : List Char := s.dropWhile isBlank

theorem length_skipBlanks_le (s : List Char) : (skipBlanks s).length ≤ s.length :=
  length_dropWhile_le isBlank s

/-- Whether a character may stand in comments and, unescaped, in texts. -/
def isPlain (c : Char) : Bool := c == '\t' || (0x20 ≤ c.toNat && c.toNat != 0x7F)

/-- What is left after a comment, if there is one in front.  It ends where its line does, or before
a character that it may not hold. -/
def skipComment (s : List Char) : List Char :=
  match s with
  | '#' :: cs => cs.dropWhile isPlain
  | s => s

theorem length_skipComment_le (s : List Char) : (skipComment s).length ≤ s.length := by
  unfold skipComment
  split
  · exact Nat.le_succ_of_le (length_dropWhile_le isPlain _)
  · exact Nat.le_refl _

/-- The end of a line, in front of fewer than `n` characters. -/
inductive LineEnd (n : Nat) where
  /-- The text ends too. -/
  | last
  /-- The text goes on with another line. -/
  | next (rest : List Char) (shorter : rest.length < n)

/-- Takes the end of a line in front of a text. -/
def newline? (s : List Char) : Option (LineEnd s.length) :=
  match s with
  | [] => some .last
  | '\n' :: r => some (.next r (length_lt_succ r))
  | '\r' :: '\n' :: r => some (.next r (by simp only [List.length_cons]; omega))
  | _ => none

/-- The same end of a line, seen from a longer text. -/
def LineEnd.widen {m n : Nat} (h : m ≤ n) : LineEnd m → LineEnd n
  | .last => .last
  | .next rest shorter => .next rest (Nat.lt_of_lt_of_le shorter h)

/-- **Takes the rest of a line that holds nothing more** than blanks and a comment. -/
def lineEnd? (s : List Char) : Option (LineEnd s.length) :=
  (newline? (skipComment (skipBlanks s))).map
    (·.widen (Nat.le_trans (length_skipComment_le _) (length_skipBlanks_le _)))

/-- Leaves out blanks, comments and ends of lines; none if a comment or an end is not well formed.
The text is shorter than some `n`, and so is what is left. -/
def skipLinesOf (n : Nat) (s : List Char) (h : s.length < n) : Option (Reading Unit n) :=
  match hs : skipBlanks s with
  | [] => some ⟨(), [], Nat.lt_of_le_of_lt (Nat.zero_le _) h⟩
  | c :: cs =>
      have hc : (c :: cs).length ≤ s.length := hs ▸ length_skipBlanks_le s
      if c == '\n' || c == '\r' || c == '#' then
        match newline? (skipComment (c :: cs)) with
        | none => none
        | some .last => some ⟨(), [], Nat.lt_of_le_of_lt (Nat.zero_le _) h⟩
        | some (.next r shorter) =>
            have hr : r.length < s.length :=
              Nat.lt_of_lt_of_le shorter (Nat.le_trans (length_skipComment_le _) hc)
            skipLinesOf n r (Nat.lt_trans hr h)
      else some ⟨(), c :: cs, Nat.lt_of_le_of_lt hc h⟩
termination_by s.length

/-- Leaves out blanks, comments and ends of lines. -/
def skipLines (s : List Char) : Option (Reading Unit (s.length + 1)) :=
  skipLinesOf (s.length + 1) s (length_lt_succ s)

end Prerequisite.Toml

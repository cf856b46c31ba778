/-
Tokens of formula texts, and the scan that finds them.

A scan cuts a text into pieces, blanks and lexemes, and loses nothing: the pieces put together are
the text again.  A lexeme is a token with the characters it was written with and the byte offset of
the first one.  A run of digits is taken as far as it goes, and every other token is one character.

The scan goes from left to right and stops at the first fault, so what it reports is the leftmost
one: a character that starts no token, or a run of digits that is no id.
-/
import Prerequisite.Identifier
import Prerequisite.Formula.Error
import Prerequisite.Text.Reading

namespace Prerequisite

/-- A token of the language of formulas. -/
inductive Token where
  /-- A section id. -/
  | atom (id : SectionId)
  /-- The operator `^`. -/
  | and
  /-- The operator `v`. -/
  | or
  /-- The operator `!`. -/
  | not
  /-- An opening parenthesis. -/
  | opening
  /-- A closing parenthesis. -/
  | closing
  deriving DecidableEq, Repr

namespace Token

/-- The token that a character is by itself. -/
def ofChar? : Char → Option Token
  | '^' => some .and
  | 'v' => some .or
  | '!' => some .not
  | '(' => some .opening
  | ')' => some .closing
  | _ => none

/-- The shortest way to write a token. -/
def chars : Token → List Char
  | .atom id => id.digits
  | .and => ['^']
  | .or => ['v']
  | .not => ['!']
  | .opening => ['(']
  | .closing => [')']

/-- The section of a token that is an atom. -/
def atom? : Token → Option SectionId
  | .atom id => some id
  | _ => none

end Token

/-- A token as it stands in a text. -/
structure Lexeme where
  /-- What it means. -/
  token : Token
  /-- How it is written. -/
  source : List Char
  /-- The byte offset of its first character. -/
  position : Nat
  deriving DecidableEq, Repr

namespace Lexeme

/-- The byte offset just past a lexeme. -/
def stop (l : Lexeme) : Nat := l.position + Text.byteSize l.source

end Lexeme

/-- A piece of a text. -/
inductive Piece where
  /-- A blank. -/
  | blank (c : Char)
  /-- A token. -/
  | lexeme (l : Lexeme)
  deriving DecidableEq, Repr

namespace Piece

/-- The characters of a piece. -/
def source : Piece → List Char
  | .blank c => [c]
  | .lexeme l => l.source

/-- The lexeme, if the piece is one. -/
def lexeme? : Piece → Option Lexeme
  | .blank _ => none
  | .lexeme l => some l

end Piece

namespace Scan

/-- The blanks that may stand between tokens. -/
def isBlank (c : Char) : Bool := c == ' ' || c == '\t' || c == '\n' || c == '\r'

/-- **Cuts a text into pieces,** after those already cut; the text starts at a byte offset. -/
def onto (done : Array Piece) (position : Nat) (text : List Char) :
    Except FormulaError (Array Piece) :=
  match text with
  | [] => .ok done
  | c :: rest =>
      if isBlank c then onto (done.push (.blank c)) (position + c.utf8Size) rest
      else if c.isDigit then
        match SectionId.ofDigits (c :: rest.takeWhile Char.isDigit) with
        | .ok id =>
            onto (done.push (.lexeme ⟨.atom id, c :: rest.takeWhile Char.isDigit, position⟩))
              (position + Text.byteSize (c :: rest.takeWhile Char.isDigit))
              (rest.dropWhile Char.isDigit)
        | .error _ =>
            .error (.invalidAtom (String.ofList (c :: rest.takeWhile Char.isDigit)) position)
      else
        match Token.ofChar? c with
        | some t => onto (done.push (.lexeme ⟨t, [c], position⟩)) (position + c.utf8Size) rest
        | none => .error (.unexpected .token (.source (String.ofList [c])) position)
termination_by text.length
decreasing_by
  · simp
  · have := Text.length_dropWhile_le Char.isDigit rest
    simp only [List.length_cons]
    omega
  · simp

/-- **Scans a text under limits:** its size is looked at first, and it must hold a token. -/
def pieces (limits : Limits) (text : List Char) : Except FormulaError (List Piece) :=
  if limits.maxBytes < Text.byteSize text then
    .error (.tooLarge limits.maxBytes (Text.byteSize text))
  else
    match onto #[] 0 text with
    | .error e => .error e
    | .ok done => if done.any (·.lexeme?.isSome) then .ok done.toList else .error .empty

end Scan

/-- **The lexemes of a text.** -/
def lexemes (limits : Limits) (text : String) : Except FormulaError (List Lexeme) :=
  (Scan.pieces limits text.toList).map (·.filterMap Piece.lexeme?)

end Prerequisite

/-
What can be wrong with a formula text, and the limits it is read under.

An error names its cause and where in the text it arises; positions are byte offsets.  The wording
is a function of the cause.
-/
import Prerequisite.Text.Size

namespace Prerequisite

/-- The limits a formula text is read under. -/
structure Limits where
  /-- The most bytes a text may have. -/
  maxBytes : Nat
  /-- The most parentheses and negations that may lie around a place. -/
  maxNesting : Nat
  deriving DecidableEq, Repr

namespace Limits

/-- The limits where none are given: 64 KiB, and 32 levels. -/
def default : Limits := ⟨65536, 32⟩

end Limits

/-- What could have stood where something else was found. -/
inductive Expectation where
  /-- Any token at all. -/
  | token
  /-- The start of an operand. -/
  | operand
  /-- What may follow an operand inside parentheses. -/
  | continuation
  deriving DecidableEq, Repr

/-- The wording of an expectation. -/
def Expectation.text : Expectation → String
  | .token => "section id, operator, or parenthesis"
  | .operand => "section id, `!`, or `(`"
  | .continuation => "operator or `)`"

/-- What was found where something else was expected. -/
inductive Found where
  /-- This piece of the text. -/
  | source (text : String)
  /-- Nothing more. -/
  | endOfInput
  deriving DecidableEq, Repr

/-- The wording of a finding. -/
def Found.text : Found → String
  | .source text => text
  | .endOfInput => "end of input"

/-- What is wrong with a formula text. -/
inductive FormulaError where
  /-- There is no token in it. -/
  | empty
  /-- It has too many bytes. -/
  | tooLarge (max actual : Nat)
  /-- A parenthesis or negation at `position` is inside too many others. -/
  | tooDeep (max actual position : Nat)
  /-- Something else was expected at `position`. -/
  | unexpected (expected : Expectation) (found : Found) (position : Nat)
  /-- The parenthesis at `position` has no partner. -/
  | unbalanced (position : Nat)
  /-- The digits at `position` are no id. -/
  | invalidAtom (raw : String) (position : Nat)
  /-- The text goes on at `position`, after a complete formula. -/
  | trailing (position : Nat)
  deriving DecidableEq, Repr

/-- The wording of an error. -/
def FormulaError.message : FormulaError → String
  | .empty => "formula is empty"
  | .tooLarge max actual =>
      "formula exceeds size limit: " ++ toString actual ++ " bytes (max " ++ toString max ++ ")"
  | .tooDeep max actual position =>
      "formula nesting exceeds limit: depth " ++ toString actual ++ " (max " ++ toString max ++
        ") at " ++ toString position
  | .unexpected expected found position =>
      "unexpected `" ++ found.text ++ "` at " ++ toString position ++ ", expected " ++
        expected.text
  | .unbalanced position => "unbalanced parenthesis at " ++ toString position
  | .invalidAtom raw position => "invalid section id `" ++ raw ++ "` at " ++ toString position
  | .trailing position => "unexpected trailing input at " ++ toString position

end Prerequisite

/-
New ids for old ones.

In a restore the sections of a course get new ids, and a formula text has to follow.  Each id in the
text gives way to its new one in decimal, and everything else is kept as it is: operators,
parentheses and blanks.  New ids are asked for from left to right, and the first id
without one is an error.
-/
import Prerequisite.Condition.Error
import Prerequisite.Formula.Token
import Prerequisite.Text.Push

namespace Prerequisite

/-- What became of a formula text. -/
structure Remapped where
  /-- The text with its new ids. -/
  formula : String
  /-- Whether it differs from the old one. -/
  changed : Bool
  deriving DecidableEq, Repr

namespace Remap

/-- Answers which id an old one became, if it was part of the restore. -/
abbrev NewIds (σ : Type) := SectionId → EStateM ServiceError σ (Option SectionId)

variable {σ : Type} (newId : NewIds σ)

/-- **The new text of a piece.** -/
def piece : Piece → σ → EStateM.Result ConditionError σ (List Char)
  | .blank c, s => .ok [c] s
  | .lexeme l, s =>
      match l.token with
      | .atom old =>
          match newId old s with
          | .ok (some new) s' => .ok new.digits s'
          | .ok none s' => .error (.unknownSection old) s'
          | .error e s' => .error (.service e) s'
      | _ => .ok l.source s

/-- Writes the new texts of pieces behind what is already written. -/
def piecesOnto (out : String) : List Piece → σ → EStateM.Result ConditionError σ String
  | [], s => .ok out s
  | p :: ps, s =>
      match piece newId p s with
      | .ok cs s' => piecesOnto (Text.pushAll out cs) ps s'
      | .error e s' => .error e s'

end Remap

/-- **Gives the sections of a formula text their new ids.** -/
def remap {σ : Type} (newId : Remap.NewIds σ) (limits : Limits) (formula : String) :
    EStateM ConditionError σ Remapped := fun s =>
  match Scan.pieces limits formula.toList with
  | .error e => .error (.invalidFormula e) s
  | .ok ps =>
      match Remap.piecesOnto newId "" ps s with
      | .ok new s' => .ok ⟨new, new != formula⟩ s'
      | .error e s' => .error e s'

end Prerequisite

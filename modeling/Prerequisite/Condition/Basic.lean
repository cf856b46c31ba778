/-
Conditions.

A condition is a formula text that can be read under some limits, the tree it is read as, those
limits, and the scope that chooses its words.  That the text reads as the tree is part of the type,
so the two cannot come apart.

A condition is built from a formula text, or from the structure it was stored in.
-/
import Prerequisite.Condition.Stored
import Prerequisite.Formula.Parser
import Prerequisite.Scope

namespace Prerequisite

/-- A condition on the sections that a user has completed. -/
structure Condition where
  /-- What it stands in front of. -/
  scope : Scope
  /-- The text of its formula, as it was written. -/
  formula : String
  /-- Its formula. -/
  tree : Formula
  /-- The limits its formula is read under. -/
  limits : Limits
  /-- The text reads as the formula. -/
  reads : Formula.parse limits formula = .ok tree
  deriving DecidableEq

namespace Condition

/-- **The condition with a formula text.** -/
def ofFormula (limits : Limits) (formula : String) : Except ConditionError Condition :=
  match h : Formula.parse limits formula with
  | .ok tree => .ok ⟨Scope.default, formula, tree, limits, h⟩
  | .error e => .error (.invalidFormula e)

/-- The condition that a structure holds. -/
def ofStored (limits : Limits) (s : StoredCondition) : Except ConditionError Condition :=
  if s.kind = StoredCondition.adler then
    match s.formula with
    | some formula => ofFormula limits formula
    | none => .error .missingCondition
  else .error (.unsupportedType s.kind)

/-- **The condition that a value holds,** read under the limits where none are given. -/
def ofJson (v : Json) : Except ConditionError Condition :=
  match StoredCondition.ofJson v with
  | .ok s => ofStored Limits.default s
  | .error fault => .error (.malformed fault)

/-- The condition with another scope. -/
def withScope (c : Condition) (scope : Scope) : Condition := { c with scope := scope }

/-- The structure a condition is stored in. -/
def save (c : Condition) : StoredCondition := .ofFormula c.formula

/-- The value a condition is stored as. -/
def toJson (c : Condition) : Json :=
  .object [("type", .string StoredCondition.adler), ("condition", .string c.formula)]

/-- One line about a condition. -/
def summary (c : Condition) : String := c.scope.label ++ " condition: " ++ c.formula

end Condition

end Prerequisite

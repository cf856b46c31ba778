/-
What can go wrong with a condition.

Building one fails because of its formula or because of the structure it was stored in, a restore
fails because of a section, and every question may fail because the host does.
-/
import Prerequisite.Formula.Error
import Prerequisite.Host.Error

namespace Prerequisite

/-- What is wrong with the structure that a condition is read from. -/
inductive StructureFault where
  /-- It is no object. -/
  | notObject
  /-- A field is missing. -/
  | missingField (name : String)
  /-- A field holds something other than a text. -/
  | notText (found : String)
  deriving DecidableEq, Repr

/-- The wording of a fault. -/
def StructureFault.message : StructureFault → String
  | .notObject => "condition must be a JSON object"
  | .missingField name => "missing field `" ++ name ++ "`"
  | .notText found => "invalid type: " ++ found ++ ", expected a string"

/-- What went wrong with a condition. -/
inductive ConditionError where
  /-- Its formula cannot be read. -/
  | invalidFormula (error : FormulaError)
  /-- There is no formula in what it was stored as. -/
  | missingCondition
  /-- What was stored is something else. -/
  | unsupportedType (kind : String)
  /-- What was stored cannot be read. -/
  | malformed (fault : StructureFault)
  /-- A section is no part of a restore. -/
  | unknownSection (id : SectionId)
  /-- A service of the host failed. -/
  | service (error : ServiceError)
  deriving DecidableEq, Repr

/-- The wording of an error. -/
def ConditionError.message : ConditionError → String
  | .invalidFormula error => "invalid condition: " ++ error.message
  | .missingCondition => "adler condition not set"
  | .unsupportedType kind => "unsupported condition type: " ++ kind
  | .malformed fault => "invalid condition structure: " ++ fault.message
  | .unknownSection id => "unknown section: " ++ id.text
  | .service error => error.message

end Prerequisite

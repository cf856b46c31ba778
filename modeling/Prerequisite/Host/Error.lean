/-
How a service of the host fails.

A user who is not enrolled is told apart from a service that cannot answer, because only the first
says something about the user.
-/
import Prerequisite.Identifier

namespace Prerequisite

/-- Why a service of the host gave no answer. -/
inductive ServiceError where
  /-- The user is no part of the course. -/
  | notEnrolled (user : UserId)
  /-- The service is out of reach, or does not know what it was asked for. -/
  | unavailable (reason : String)
  /-- What the service reads from is broken. -/
  | storage (reason : String)
  deriving DecidableEq, Repr

/-- The wording of a failure. -/
def ServiceError.message : ServiceError → String
  | .notEnrolled user => "user " ++ user.text ++ " is not enrolled"
  | .unavailable reason => "service unavailable: " ++ reason
  | .storage reason => "storage error: " ++ reason

end Prerequisite

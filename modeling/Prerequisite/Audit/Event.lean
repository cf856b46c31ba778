/-
Events that a host may want to know about.

A condition reports what an administrator should hear of: that it let somebody through because it
could not ask, and what became of it in a restore.  An event is written as one JSON object on one
line, always with the same ten fields in the same order; what it says nothing about is null.
-/
import Prerequisite.Catalog
import Prerequisite.Json.Writer

namespace Prerequisite

/-- How grave an event is. -/
inductive Severity where
  /-- Something happened as it should. -/
  | info
  /-- Something was missing, and a way around it was found. -/
  | warning
  /-- Something could not be done. -/
  | error
  deriving DecidableEq, Repr

namespace Severity

/-- All severities. -/
def all : List Severity := [.info, .warning, .error]

/-- The name of a severity in stored values. -/
def name : Severity → String
  | .info => "info"
  | .warning => "warning"
  | .error => "error"

/-- The severity with a name. -/
def ofName? (s : String) : Option Severity := all.find? fun severity => severity.name == s

end Severity

/-- An event. -/
structure AuditEvent where
  /-- What kind of event it is. -/
  name : String
  /-- When it happened, in milliseconds since the beginning of 1970.  64 bits hold the milliseconds
  of more than 500 million years, so no clock that a host goes by gets to their end. -/
  time : UInt64
  /-- How grave it is. -/
  severity : Severity
  /-- The scope of the condition. -/
  scope : Scope
  /-- The formula of the condition. -/
  formula : String
  /-- The user it is about. -/
  user : Option UserId
  /-- The restore it belongs to. -/
  restore : Option RestoreId
  /-- The section it is about. -/
  sectionId : Option SectionId
  /-- What happened, in words. -/
  message : String
  deriving DecidableEq, Repr

namespace AuditEvent

/-- Somebody was let through because completion could not be asked for. -/
def dependencyMissing (time : UInt64) (scope : Scope) (formula : String) (user : UserId) :
    AuditEvent where
  name := "dependency_missing"
  time := time
  severity := .warning
  scope := scope
  formula := formula
  user := some user
  restore := none
  sectionId := none
  message := "local_adler is not available"

/-- A restore gave the sections of a formula new ids. -/
def restoreRemapped (time : UInt64) (scope : Scope) (old new : String) (restore : RestoreId) :
    AuditEvent where
  name := "restore_remapped"
  time := time
  severity := .info
  scope := scope
  formula := new
  user := none
  restore := some restore
  sectionId := none
  message := "condition remapped from `" ++ old ++ "`"

/-- A section of a formula was no part of a restore. -/
def restoreUnknownSection (time : UInt64) (scope : Scope) (formula : String) (restore : RestoreId)
    (unknown : SectionId) : AuditEvent where
  name := "restore_unknown_section"
  time := time
  severity := .error
  scope := scope
  formula := formula
  user := none
  restore := some restore
  sectionId := some unknown
  message := "section " ++ unknown.text ++ " was not restored"

/-- **The JSON object of an event.** -/
def toJson (e : AuditEvent) : Json :=
  .object [
    ("event", .string e.name),
    ("timestamp_ms", .nat e.time.toNat),
    ("level", .string e.severity.name),
    ("component", .string component),
    ("scope", .string e.scope.name),
    ("formula", .string e.formula),
    ("user_id", match e.user with | some u => .nat u.number.toNat | none => .null),
    ("restore_id", match e.restore with | some r => .string r.name | none => .null),
    ("section_id", match e.sectionId with | some s => .nat s.number.toNat | none => .null),
    ("message", .string e.message)]

/-- The text of an event, which has no line feed in it. -/
def text (e : AuditEvent) : String := e.toJson.text

end AuditEvent

end Prerequisite

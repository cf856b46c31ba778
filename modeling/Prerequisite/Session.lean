/-
Sessions.

A session is a host with its records, and a condition that is worked on: it is built, asked,
described, restored, put aside and taken up again.  Limits may be set for the session as a whole.

A step either succeeds with an answer and a new session, or it fails and leaves the session as it
is.  Either way there is a journal of what the host was asked and told meanwhile.
-/
import Prerequisite.Condition.Query
import Prerequisite.Condition.Restore
import Prerequisite.Formula.Printer
import Prerequisite.Formula.Serial
import Prerequisite.Host.Records
import Prerequisite.Settings.Decoding

namespace Prerequisite

/-- Settings as they are handed in. -/
inductive SettingsSource where
  /-- A document, which is read and checked. -/
  | document (text : String)
  /-- Settings put together elsewhere, which are taken as they are. -/
  | given (s : Settings)

/-- The settings that are handed in. -/
def SettingsSource.settings : SettingsSource → Except SettingsError Settings
  | .document text => Settings.ofToml text
  | .given s => .ok s

/-- A session. -/
structure Session where
  /-- What the host knows. -/
  records : Records
  /-- The condition that is worked on. -/
  condition : Option Condition
  /-- Conditions that were put aside, by name. -/
  snapshots : List (String × Condition)
  /-- The limits of the session, if they were set. -/
  limits : Option Limits

/-- Why a step fails. -/
inductive SessionError where
  /-- There is no condition to work on. -/
  | noCondition
  /-- Something is wrong with the condition, or asking it failed. -/
  | condition (e : ConditionError)
  /-- A service failed that was asked directly. -/
  | service (e : ServiceError)
  /-- The settings are wrong. -/
  | settings (e : SettingsError)
  deriving DecidableEq, Repr

/-- What a step answers. -/
inductive StepAnswer where
  /-- That it was done. -/
  | done
  /-- Yes or no. -/
  | truth (b : Bool)
  /-- A text. -/
  | text (s : String)
  /-- A value. -/
  | value (v : Json)
  /-- Whether what was read back is the same. -/
  | reloaded (same : Bool)
  /-- A text with new ids. -/
  | remapped (r : Remapped)

/-- What can be done in a session. -/
inductive Step where
  /-- Builds a condition from a formula text. -/
  | new (formula : String)
  /-- Builds a condition from a value. -/
  | ofJson (v : Json)
  /-- Builds a condition from a structure. -/
  | ofStored (s : StoredCondition) (limits : Option Limits)
  /-- Stores the condition and reads it back. -/
  | reload
  /-- Gives the condition another scope. -/
  | withScope (scope : Scope)
  /-- Puts a copy of the condition aside. -/
  | snapshot (name : String)
  /-- Takes a copy up again. -/
  | revert (name : String)
  /-- Compares the condition with a copy. -/
  | sameAs (name : String)
  /-- The text that the condition is stored as. -/
  | save
  /-- The value that the condition is stored as. -/
  | toJson
  /-- One line about the condition. -/
  | summary
  /-- The stored form of the formula. -/
  | tree
  /-- Whether the element is open to a user. -/
  | available (user : UserId) (negate inBulk : Bool)
  /-- Tells a user what the condition demands. -/
  | describe (user : UserId) (negate full : Bool)
  /-- Shows a formula text, or that of the condition. -/
  | render (user : UserId) (formula : Option String) (limits : Option Limits)
  /-- Whether a user satisfies a section. -/
  | resolve (id : SectionId) (user : UserId)
  /-- Gives the sections of a formula text, or that of the condition, new ids. -/
  | remap (restore : RestoreId) (formula : Option String) (limits : Option Limits)
  /-- Restores the condition. -/
  | restore (restore : RestoreId)
  /-- Changes the records of the host. -/
  | record (change : Records → Records)
  /-- Takes over the limits and the texts of settings. -/
  | configure (source : SettingsSource)

namespace Session

/-- The session at its beginning. -/
def start : Session := ⟨Records.empty, none, [], none⟩

/-- The limits of a step: its own, or those of the session, or those where none are given. -/
def limitsFor (s : Session) (own : Option Limits) : Limits :=
  (own.or s.limits).getD Limits.default

/-- The host of a session. -/
def host (s : Session) : Host Journal := s.records.answers.host

/-- A step of a session: an answer and the next session, over the journal. -/
abbrev Action := EStateM SessionError Journal (StepAnswer × Session)

/-- Something about a condition that may fail. -/
def lift {α : Type} (x : EStateM ConditionError Journal α) : EStateM SessionError Journal α :=
  x.adaptExcept .condition

/-- Works on a condition that may not be there. -/
def require {α : Type} : Option α → EStateM SessionError Journal α
  | some a => pure a
  | none => throw .noCondition

/-- Takes a new condition, if it could be built. -/
def take (s : Session) (built : Except ConditionError Condition) : Action :=
  match built with
  | .ok c => return (.done, { s with condition := some c })
  | .error e => throw (.condition e)

/-- The formula text of a step: its own, or that of the condition. -/
def formulaFor (s : Session) : Option String → EStateM SessionError Journal String
  | some formula => pure formula
  | none => (·.formula) <$> require s.condition

/-- **What a step does.** -/
def act (s : Session) : Step → Action
  | .new formula => s.take (Condition.ofFormula Limits.default formula)
  | .ofJson v => s.take (Condition.ofJson v)
  | .ofStored stored limits => s.take (Condition.ofStored (s.limitsFor limits) stored)
  | .reload => do
      let old ← require s.condition
      match Condition.ofJson old.toJson with
      | .ok new => return (.reloaded (new == old), { s with condition := some new })
      | .error e => throw (.condition e)
  | .withScope scope => do
      let c ← require s.condition
      return (.done, { s with condition := some (c.withScope scope) })
  | .snapshot name => do
      let c ← require s.condition
      return (.done, { s with snapshots := (name, c) :: s.snapshots })
  | .revert name => do
      let c ← require (s.snapshots.lookup name)
      return (.done, { s with condition := some c })
  | .sameAs name => do
      let c ← require s.condition
      let d ← require (s.snapshots.lookup name)
      return (.truth (c == d), s)
  | .save => do return (.text (← require s.condition).save.text, s)
  | .toJson => do return (.value (← require s.condition).toJson, s)
  | .summary => do return (.text (← require s.condition).summary, s)
  | .tree => do return (.text (← require s.condition).tree.stored, s)
  | .available user negate inBulk => do
      let c ← require s.condition
      return (.truth (← lift (c.available s.host user negate inBulk)), s)
  | .describe user negate full => do
      let c ← require s.condition
      return (.text (← lift (c.describe s.host user negate full)), s)
  | .render user formula limits => do
      let formula ← s.formulaFor formula
      return (.text (← lift (Prerequisite.render s.host user (s.limitsFor limits) formula)), s)
  | .resolve id user => do
      return (.truth (← (s.host.satisfied id user).adaptExcept .service), s)
  | .remap restore formula limits => do
      let formula ← s.formulaFor formula
      let newId := s.host.newId restore .courseSection
      return (.remapped (← lift (Prerequisite.remap newId (s.limitsFor limits) formula)), s)
  | .restore restore => do
      let c ← require s.condition
      let restored ← lift (c.restore s.host restore)
      return (.truth restored.changed, { s with condition := some restored.condition })
  | .record change => return (.done, { s with records := change s.records })
  | .configure source =>
      match source.settings with
      | .ok settings =>
          return (.done, { s with
            limits := some settings.limits
            records := s.records.withCatalog settings.catalog })
      | .error e => throw (.settings e)

/-- What came of a step. -/
structure Turn where
  /-- Its answer, or why it failed. -/
  outcome : Except SessionError StepAnswer
  /-- What the host was asked and told. -/
  journal : Journal
  /-- The session after it. -/
  session : Session

/-- **Takes a step;** one that fails leaves the session as it is. -/
def step (s : Session) (x : Step) : Turn :=
  match s.act x Journal.empty with
  | .ok (answer, next) journal => ⟨.ok answer, journal, next⟩
  | .error e journal => ⟨.error e, journal, s⟩

/-- Takes steps one after the other. -/
def run (s : Session) : List Step → List Turn
  | [] => []
  | x :: xs =>
      let turn := s.step x
      turn :: run turn.session xs

end Session

end Prerequisite

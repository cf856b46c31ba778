/-
The host.

A condition knows ids and no more.  Who has completed what, what a section is called, how a phrase
reads and what became of a section in a restore are questions to the host.  A host answers them
over a state of any type, which an answer may change, and may fail to answer.

A host that always gives the same answers is given by functions.  Such a host keeps a journal: the
questions it was asked, in order, each entered before it is answered, and the events it was told.
-/
import Prerequisite.Audit.Event

namespace Prerequisite

/-- The kinds of things that get new ids in a restore. -/
inductive BackupKind where
  /-- A section of a course. -/
  | courseSection
  deriving DecidableEq, Repr

namespace BackupKind

/-- All kinds. -/
def all : List BackupKind := [.courseSection]

/-- The host's name for a kind. -/
def name : BackupKind → String
  | .courseSection => "course_section"

/-- The kind with a name. -/
def ofName? (s : String) : Option BackupKind := all.find? fun kind => kind.name == s

end BackupKind

/-- Whether there is somebody to ask about completion. -/
inductive Dependency where
  /-- There is. -/
  | installed
  /-- There is not. -/
  | missing
  deriving DecidableEq, Repr

namespace Dependency

/-- Both cases. -/
def all : List Dependency := [.installed, .missing]

/-- The name of a case in stored values. -/
def name : Dependency → String
  | .installed => "installed"
  | .missing => "missing"

/-- The case with a name. -/
def ofName? (s : String) : Option Dependency := all.find? fun d => d.name == s

/-- The case for an answer to the question whether it is installed. -/
def ofInstalled : Bool → Dependency
  | true => .installed
  | false => .missing

/-- Whether it is installed. -/
def isInstalled : Dependency → Bool
  | .installed => true
  | .missing => false

end Dependency

/-- **What a host can be asked and told,** over a state `σ`. -/
structure Host (σ : Type) where
  /-- Whether a user has completed a section. -/
  completed : SectionId → UserId → EStateM ServiceError σ Bool
  /-- What a section is called. -/
  sectionName : SectionId → EStateM ServiceError σ String
  /-- How a phrase of a component reads, its places filled. -/
  phrase : (owner name : String) → Arguments → EStateM ServiceError σ String
  /-- The id that a thing got in a restore, if it was part of it. -/
  newId : RestoreId → BackupKind → SectionId → EStateM ServiceError σ (Option SectionId)
  /-- Whether there is somebody to ask about completion. -/
  dependency : Dependency
  /-- The time, in milliseconds since the beginning of 1970. -/
  now : σ → UInt64
  /-- Takes note of an event. -/
  record : AuditEvent → σ → σ

/-- **Whether a user satisfies a section.**  A user who is not enrolled does not; every other
failure remains one. -/
def Host.satisfied {σ : Type} (host : Host σ) (id : SectionId) (user : UserId) :
    EStateM ServiceError σ Bool := fun s =>
  match host.completed id user s with
  | .error (.notEnrolled _) s' => .ok false s'
  | result => result

/-! ### Hosts that are functions -/

/-- A question to a host. -/
inductive Call where
  /-- Whether a user has completed a section. -/
  | completion (id : SectionId) (user : UserId)
  /-- What a section is called. -/
  | sectionName (id : SectionId)
  /-- How a phrase reads, with the names of the places to fill. -/
  | phrase (owner name : String) (places : List String)
  /-- The id a thing got in a restore. -/
  | newId (restore : RestoreId) (kind : BackupKind) (old : SectionId)
  deriving DecidableEq, Repr

namespace Call

/-- A question as one line. -/
def text : Call → String
  | .completion id user => "completion " ++ id.text ++ " " ++ user.text
  | .sectionName id => "name " ++ id.text
  | .phrase owner name places =>
      "string " ++ owner ++ " " ++ name ++ " [" ++ ",".intercalate places ++ "]"
  | .newId restore kind old =>
      "translate " ++ restore.name ++ " " ++ kind.name ++ " " ++ old.text

end Call

/-- What a host was asked and told. -/
structure Journal where
  /-- The questions, in order. -/
  calls : Array Call
  /-- The events, in order. -/
  events : Array AuditEvent
  deriving DecidableEq, Repr

namespace Journal

/-- The journal of a host that was neither asked nor told anything. -/
def empty : Journal := ⟨#[], #[]⟩

/-- Enters a question. -/
def call (j : Journal) (c : Call) : Journal := { j with calls := j.calls.push c }

/-- Enters an event. -/
def event (j : Journal) (e : AuditEvent) : Journal := { j with events := j.events.push e }

end Journal

/-- The answers of a host that always gives the same ones. -/
structure Answers where
  /-- Whether a user has completed a section. -/
  completed : SectionId → UserId → Except ServiceError Bool
  /-- What a section is called. -/
  sectionName : SectionId → Except ServiceError String
  /-- How a phrase of a component reads, its places filled. -/
  phrase : (owner name : String) → Arguments → Except ServiceError String
  /-- The id that a thing got in a restore, if it was part of it. -/
  newId : RestoreId → BackupKind → SectionId → Except ServiceError (Option SectionId)
  /-- Whether there is somebody to ask about completion. -/
  dependency : Dependency
  /-- The time, in milliseconds since the beginning of 1970. -/
  time : UInt64

namespace Answers

/-- Enters a question and then answers it. -/
def reply {α : Type} (c : Call) (answer : Except ServiceError α) :
    EStateM ServiceError Journal α := fun j =>
  match answer with
  | .ok a => .ok a (j.call c)
  | .error e => .error e (j.call c)

/-- **The host that gives these answers and keeps a journal.** -/
def host (a : Answers) : Host Journal where
  completed id user := reply (.completion id user) (a.completed id user)
  sectionName id := reply (.sectionName id) (a.sectionName id)
  phrase owner name args := reply (.phrase owner name (args.map (·.1))) (a.phrase owner name args)
  newId restore kind old := reply (.newId restore kind old) (a.newId restore kind old)
  dependency := a.dependency
  now _ := a.time
  record e j := j.event e

end Answers

end Prerequisite

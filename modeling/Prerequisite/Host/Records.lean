/-
A host that keeps its records in memory.

The records say who has completed what, who is enrolled, what sections are called, and which ids a
restore gave them.  Phrases come from a catalog.  A service may be set to fail, for one of the
things it is asked about or for all of them; the former counts first, and either counts before
anything else.
-/
import Prerequisite.Host

namespace Prerequisite

/-- The services of a host. -/
inductive Service where
  /-- Says who has completed what. -/
  | completion
  /-- Says what sections are called. -/
  | names
  /-- Says how phrases read. -/
  | strings
  /-- Says which ids a restore gave. -/
  | restores
  deriving DecidableEq, Repr

namespace Service

/-- All services. -/
def all : List Service := [.completion, .names, .strings, .restores]

/-- The name of a service. -/
def name : Service → String
  | .completion => "completion"
  | .names => "names"
  | .strings => "strings"
  | .restores => "translator"

/-- The service with a name. -/
def ofName? (s : String) : Option Service := all.find? fun service => service.name == s

end Service

/-- Where a service fails: for one thing, by its id or name, or for all of them. -/
structure FailurePoint where
  /-- The service. -/
  service : Service
  /-- What it fails for. -/
  subject : Option String
  deriving DecidableEq, Repr

/-- What a host knows. -/
structure Records where
  /-- Who has completed what. -/
  completed : List (UserId × SectionId)
  /-- Who is not enrolled. -/
  unenrolled : List UserId
  /-- What sections are called. -/
  names : List (SectionId × String)
  /-- Which ids became which in a restore. -/
  mapping : List (SectionId × SectionId)
  /-- How phrases read. -/
  catalog : Catalog
  /-- Whether there is somebody to ask about completion. -/
  dependency : Dependency
  /-- Where services fail, and how. -/
  failures : List (FailurePoint × ServiceError)

namespace Records

/-- The records of a host that knows nothing: nobody completed anything, everybody is enrolled, no
section has a name, and no restore gave a new id. -/
def empty : Records := ⟨[], [], [], [], Catalog.english, .installed, []⟩

/-! ### Changes -/

/-- A user has completed some sections. -/
def complete (r : Records) (user : UserId) (ids : List SectionId) : Records :=
  { r with completed := ids.map (fun id => (user, id)) ++ r.completed }

/-- A user has not completed some sections after all. -/
def uncomplete (r : Records) (user : UserId) (ids : List SectionId) : Records :=
  { r with completed := r.completed.filter fun x => !(x.1 == user && ids.contains x.2) }

/-- A user is enrolled. -/
def enroll (r : Records) (user : UserId) : Records :=
  { r with unenrolled := r.unenrolled.filter (· != user) }

/-- A user is not enrolled. -/
def unenroll (r : Records) (user : UserId) : Records :=
  { r with unenrolled := user :: r.unenrolled }

/-- Sections are called otherwise. -/
def withNames (r : Records) (names : List (SectionId × String)) : Records :=
  { r with names := names }

/-- A restore gave other ids. -/
def withMapping (r : Records) (mapping : List (SectionId × SectionId)) : Records :=
  { r with mapping := mapping }

/-- Phrases read otherwise. -/
def withCatalog (r : Records) (catalog : Catalog) : Records := { r with catalog := catalog }

/-- There is, or is not, somebody to ask about completion. -/
def withDependency (r : Records) (dependency : Dependency) : Records :=
  { r with dependency := dependency }

/-- A service fails from now on. -/
def fail (r : Records) (point : FailurePoint) (e : ServiceError) : Records :=
  { r with failures := (point, e) :: r.failures }

/-- No service fails any more. -/
def heal (r : Records) : Records := { r with failures := [] }

/-! ### Answers -/

/-- How a service fails for something, if it does. -/
def failure? (r : Records) (service : Service) (subject : String) : Option ServiceError :=
  (r.failures.lookup ⟨service, some subject⟩).or (r.failures.lookup ⟨service, none⟩)

/-- An answer, unless the service fails. -/
def unlessFailing {α : Type} (r : Records) (service : Service) (subject : String)
    (answer : Except ServiceError α) : Except ServiceError α :=
  match r.failure? service subject with
  | some e => .error e
  | none => answer

/-- Whether a user has completed a section. -/
def hasCompleted (r : Records) (id : SectionId) (user : UserId) : Except ServiceError Bool :=
  if r.unenrolled.contains user then .error (.notEnrolled user)
  else .ok (r.completed.contains (user, id))

/-- What a section is called. -/
def nameOf (r : Records) (id : SectionId) : Except ServiceError String :=
  match r.names.lookup id with
  | some name => .ok name
  | none => .error (.storage ("no section " ++ id.text))

/-- **The answers that the records give.**  The clock of this host stands still. -/
def answers (r : Records) : Answers where
  completed id user := r.unlessFailing .completion id.text (r.hasCompleted id user)
  sectionName id := r.unlessFailing .names id.text (r.nameOf id)
  phrase owner name args := r.unlessFailing .strings name (r.catalog.lookup owner name args)
  newId _ _ old := r.unlessFailing .restores old.text (.ok (r.mapping.lookup old))
  dependency := r.dependency
  time := 0

end Records

end Prerequisite

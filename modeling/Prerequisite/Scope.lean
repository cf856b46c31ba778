/-
What a condition stands in front of.

A condition opens or closes an element of a course, which is a section or a room.  The scope of a
condition says which.  It chooses the words and never the decision.
-/
namespace Prerequisite

/-- The kind of element that a condition stands in front of. -/
inductive Scope where
  /-- A section of a course. -/
  | courseSection
  /-- A room. -/
  | room
  deriving DecidableEq, Repr

namespace Scope

/-- The scope of a condition that was given none. -/
def default : Scope := .courseSection

/-- All scopes. -/
def all : List Scope := [.courseSection, .room]

/-- The name of a scope in stored values. -/
def name : Scope → String
  | .courseSection => "section"
  | .room => "room"

/-- The name of a scope for people. -/
def label : Scope → String
  | .courseSection => "Section"
  | .room => "Room"

/-- The scope with a name. -/
def ofName? (s : String) : Option Scope := all.find? fun scope => scope.name == s

end Scope

end Prerequisite

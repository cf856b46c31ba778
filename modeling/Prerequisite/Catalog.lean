/-
The catalog of phrases.

A description is put together from phrases: one for each operator, and one sentence for each scope
and for either way of asking.  Every phrase has an English text, and a catalog may put another
text in its place.  Names that no phrase has are never served, whatever a catalog holds for them.

A phrase may have places that arguments fill.
-/
import Prerequisite.Host.Error
import Prerequisite.Scope
import Prerequisite.Text.Table
import Prerequisite.Text.Template

namespace Prerequisite

/-- The component that the phrases belong to. -/
def component : String := "availability_adler"

/-- The phrases that descriptions are made of. -/
inductive Phrase where
  /-- The word for a conjunction. -/
  | and
  /-- The word for a disjunction. -/
  | or
  /-- The word for a negation. -/
  | not
  /-- The sentence around a formula that must hold, or must not. -/
  | required (scope : Scope) (negated : Bool)
  deriving DecidableEq, Repr

namespace Phrase

/-- All phrases. -/
def all : List Phrase :=
  [.and, .or, .not, .required .courseSection false, .required .courseSection true,
    .required .room false, .required .room true]

/-- The name of a phrase. -/
def name : Phrase → String
  | .and => "condition_operator_pretty_and"
  | .or => "condition_operator_pretty_or"
  | .not => "condition_operator_pretty_not"
  | .required .courseSection false => "description_previous_sections_required"
  | .required .courseSection true => "description_previous_sections_required_not"
  | .required .room false => "description_previous_rooms_required"
  | .required .room true => "description_previous_rooms_required_not"

/-- The phrase with a name. -/
def ofName? (s : String) : Option Phrase := all.find? fun p => p.name == s

/-- The English text of a phrase. -/
def english : Phrase → String
  | .and => "AND"
  | .or => "OR"
  | .not => "NOT"
  | .required .courseSection false =>
      "The following sections must be completed: \x7bcondition\x7d"
  | .required .courseSection true =>
      "The following sections must not be completed: \x7bcondition\x7d"
  | .required .room false => "The following rooms must be completed: \x7bcondition\x7d"
  | .required .room true => "The following rooms must not be completed: \x7bcondition\x7d"

end Phrase

/-! ### Catalogs -/

/-- The texts that take the place of the English ones. -/
structure Catalog where
  /-- The texts by the names of phrases. -/
  overrides : Table
  deriving DecidableEq

namespace Catalog

/-- The catalog of the English texts. -/
def english : Catalog := ⟨Table.empty⟩

/-- The template of a phrase. -/
def ofPhrase (catalog : Catalog) (p : Phrase) : String :=
  (catalog.overrides.get? p.name).getD p.english

/-- The template with a name, if a phrase has it. -/
def template? (catalog : Catalog) (name : String) : Option String :=
  (Phrase.ofName? name).map catalog.ofPhrase

/-- **Looks a phrase up and fills its places.** -/
def lookup (catalog : Catalog) (owner name : String) (args : Arguments) :
    Except ServiceError String :=
  if owner = component then
    match catalog.template? name with
    | some template => .ok (Template.substitute template args)
    | none => .error (.unavailable ("unknown string " ++ owner ++ ":" ++ name))
  else .error (.unavailable ("unknown string component " ++ owner))

end Catalog

end Prerequisite

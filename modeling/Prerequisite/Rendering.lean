/-
Showing formulas to people.

A formula is shown as its tokens, one segment each: a section by its name, green if the user
satisfies it and red if not, an operator by its phrase, and a parenthesis as itself.  Segments are
found from left to right, and a section's completion is asked for before its name.

What is shown is the markup of the segments, trimmed and in quotes.  Names are escaped, so no name
can end the segment it stands in.
-/
import Prerequisite.Condition.Error
import Prerequisite.Formula.Token
import Prerequisite.Host
import Prerequisite.Text.Blank
import Prerequisite.Text.Markup

namespace Prerequisite

/-- A token as it is shown. -/
inductive Segment where
  /-- A section: whether the user satisfies it, and its name. -/
  | atom (satisfied : Bool) (name : String)
  /-- An operator between two operands: its phrase. -/
  | between (phrase : String)
  /-- An operator in front of its operand: its phrase. -/
  | before (phrase : String)
  /-- An opening parenthesis. -/
  | opening
  /-- A closing parenthesis. -/
  | closing
  deriving DecidableEq, Repr

namespace Segment

/-- What opens the markup of a section. -/
def spanStart (satisfied : Bool) : String :=
  if satisfied then "<span style=\"color: green;\">" else "<span style=\"color: red;\">"

/-- What closes the markup of a section. -/
def spanEnd : String := "</span>"

/-- **Appends the markup of a segment.** -/
def write (out : String) : Segment → String
  | .atom satisfied name => out ++ spanStart satisfied ++ Text.Markup.escaped name ++ spanEnd
  | .between phrase => out ++ " " ++ phrase ++ " "
  | .before phrase => out ++ phrase ++ " "
  | .opening => out.push '('
  | .closing => out.push ')'

end Segment

namespace Rendering

/-- The markup of segments, trimmed and in quotes. -/
def markup (segments : List Segment) : String :=
  "\"" ++ Text.trimmed (segments.foldl Segment.write "") ++ "\""

section

variable {σ : Type} (host : Host σ) (user : UserId)

/-- Asks how a phrase of the catalog reads that has no places. -/
def word (p : Phrase) : EStateM ServiceError σ String := host.phrase component p.name []

/-- **The segment of a token.** -/
def segment : Token → EStateM ServiceError σ Segment
  | .atom id => do
      let satisfied ← host.satisfied id user
      let name ← host.sectionName id
      return .atom satisfied name
  | .and => Segment.between <$> word host .and
  | .or => Segment.between <$> word host .or
  | .not => Segment.before <$> word host .not
  | .opening => pure .opening
  | .closing => pure .closing

/-- The segments of tokens, after those already found; the first failure ends the search. -/
def segmentsOnto (done : Array Segment) :
    List Lexeme → σ → EStateM.Result ServiceError σ (Array Segment)
  | [], s => .ok done s
  | l :: ls, s =>
      match segment host user l.token s with
      | .ok x s' => segmentsOnto (done.push x) ls s'
      | .error e s' => .error e s'

end

end Rendering

/-- The segments of a formula text. -/
def segments {σ : Type} (host : Host σ) (user : UserId) (limits : Limits) (formula : String) :
    EStateM ConditionError σ (List Segment) := fun s =>
  match lexemes limits formula with
  | .error e => .error (.invalidFormula e) s
  | .ok ls =>
      match Rendering.segmentsOnto host user #[] ls s with
      | .ok done s' => .ok done.toList s'
      | .error e s' => .error (.service e) s'

/-- **Shows a formula text to a user.** -/
def render {σ : Type} (host : Host σ) (user : UserId) (limits : Limits) (formula : String) :
    EStateM ConditionError σ String :=
  Rendering.markup <$> segments host user limits formula

end Prerequisite

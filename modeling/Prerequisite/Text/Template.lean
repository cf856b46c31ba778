/-
Templates.

A template is a text with places in it, each written as a name in braces.  Arguments fill the places
one after the other: all places with the name of the first argument, then all with that of the
second, and so on.  A place that no argument names stays as it is written.

Each argument goes through what the ones before it left, so a text that was put in may bring places
for a later argument, though never for its own.
-/
import Prerequisite.Text.Replace

namespace Prerequisite

/-- A text for each place, by the name of the place. -/
abbrev Arguments := List (String × String)

namespace Template

/-- How a place is written. -/
def place (name : String) : List Char := '\x7b' :: name.toList ++ ['\x7d']

/-- Fills the places with one name. -/
def fill (template : List Char) (name text : String) : List Char :=
  Text.replace '\x7b' (name.toList ++ ['\x7d']) text.toList template

/-- **Fills the places of a template,** those of the first argument first. -/
def substitute (template : String) (args : Arguments) : String :=
  String.ofList (args.foldl (fun s a => fill s a.1 a.2) template.toList)

end Template

end Prerequisite

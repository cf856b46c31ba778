/-
Building tables.

A document adds to its tables bit by bit, and some additions are not allowed.  No name is given a
value twice.  A header makes a table once, unless the table was only implied so far.  Dotted keys
go through tables that came about by dotted keys, and through no table that has a header or was
only implied by one; and nothing goes through a table in braces.

Where a path meets an array of tables, it goes on in the newest of them.
-/
import Prerequisite.Toml.Basic
import Prerequisite.Toml.Key

namespace Prerequisite.Toml

/-- Gives a name a value, in the place of the one it has or after everything else. -/
def assign (name : String) (v : Item) : Entries → Entries
  | [] => [(name, v)]
  | e :: es => if e.1 = name then (name, v) :: es else e :: assign name v es

/-- Something to do in a table. -/
abbrev Addition := Origin → Entries → Option Entries

/-- **Does something at the end of a path** of tables, which are made where there are none.
`made` is the origin of a table that is made; where it is `dotted`, tables with headers are
closed. -/
def within (made : Origin) (act : Addition) : List String → Addition
  | [], origin, entries => act origin entries
  | name :: path, _, entries =>
      match entries.lookup name with
      | none => do
          let inner ← within made act path made []
          return assign name (.table made inner) entries
      | some (.table origin inner) =>
          if origin = .braces ∨ (made = .dotted ∧ origin = .header) then none
          else do
            let inner ← within made act path origin inner
            return assign name (.table origin inner) entries
      | some (.tables (inner :: older)) => do
          let inner ← within made act path .header inner
          return assign name (.tables (inner :: older)) entries
      | some _ => none

/-- Gives a new name a value.  The table at the end of a dotted key must have come about by dotted
keys. -/
def addNew (isDotted : Bool) (name : String) (v : Item) : Addition := fun origin entries =>
  if isDotted && origin != .dotted then none
  else if (entries.lookup name).isSome then none
  else some (assign name v entries)

/-- **Gives a key a value.** -/
def addValue (k : Key) (v : Item) : Addition :=
  within .dotted (addNew (!k.path.isEmpty) k.name v) k.path

/-- Makes the table of a header, which may have been implied before. -/
def addTable (name : String) : Addition := fun _ entries =>
  match entries.lookup name with
  | none => some (assign name (.table .header []) entries)
  | some (.table .implied inner) => some (assign name (.table .header inner) entries)
  | some _ => none

/-- Makes one more table of an array of tables. -/
def addToTables (name : String) : Addition := fun _ entries =>
  match entries.lookup name with
  | none => some (assign name (.tables [[]]) entries)
  | some (.tables older) => some (assign name (.tables ([] :: older)) entries)
  | some _ => none

/-- A document as far as it was read. -/
structure Draft where
  /-- The table of the document. -/
  root : Entries
  /-- The path to the table of the last header. -/
  place : List String
  deriving Repr

namespace Draft

/-- The document of nothing. -/
def empty : Draft := ⟨[], []⟩

/-- The document with a value under the last header. -/
def value? (d : Draft) (k : Key) (v : Item) : Option Draft :=
  (within .implied (addValue k v) d.place .header d.root).map fun root => { d with root := root }

/-- The document with the header of a table. -/
def header? (d : Draft) (k : Key) : Option Draft :=
  (within .implied (addTable k.name) k.path .header d.root).map fun root =>
    ⟨root, k.path ++ [k.name]⟩

/-- The document with the header of one more table of an array. -/
def arrayHeader? (d : Draft) (k : Key) : Option Draft :=
  (within .implied (addToTables k.name) k.path .header d.root).map fun root =>
    ⟨root, k.path ++ [k.name]⟩

end Draft

end Prerequisite.Toml

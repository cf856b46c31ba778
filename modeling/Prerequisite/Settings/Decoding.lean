/-
Settings as a TOML document.

The document has three tables, each of which may be missing: `formula` with the limits, `audit` with
the sink and its path, and `strings` with the texts for phrases.  A name that is not known is a
mistake.  The first two may also be arrays of their values, in the order they stand here; what an
array holds beyond them is skipped.
-/
import Prerequisite.Settings.Basic
import Prerequisite.Toml.Document

namespace Prerequisite.Settings

open Toml

/-- A value that must be right if it is there; `fallback` stands for one that is not. -/
def orElse {α : Type} (decode : Item → Option α) (fallback : α) : Option Item → Option α
  | some v => decode v
  | none => some fallback

/-- Whether a table has no names but these. -/
def hasOnly (names : List String) (entries : Entries) : Bool :=
  entries.all fun e => names.contains e.1

/-! ### The limits -/

/-- A limit. -/
def limitOf? (v : Item) : Option Nat := v.word?.map UInt64.toNat

/-- The limits of two values. -/
def limitsFrom? (maxBytes maxNesting : Option Item) : Option Limits := do
  let maxBytes ← orElse limitOf? Limits.default.maxBytes maxBytes
  let maxNesting ← orElse limitOf? Limits.default.maxNesting maxNesting
  return ⟨maxBytes, maxNesting⟩

/-- **The limits of a table or an array.** -/
def limitsOf? (v : Item) : Option Limits :=
  match v with
  | .table _ entries =>
      if hasOnly ["max_input_bytes", "max_nesting"] entries then
        limitsFrom? (entries.lookup "max_input_bytes") (entries.lookup "max_nesting")
      else none
  | v => v.items?.bind fun items => limitsFrom? items[0]? items[1]?

/-! ### The sink -/

/-- Whether a value has nothing in it. -/
def isVacant : Item → Bool
  | .array [] => true
  | .table _ [] => true
  | _ => false

/-- A kind of sink: its name, or a table whose only name it is and which holds nothing more. -/
def sinkOf? : Item → Option SinkKind
  | .string s => SinkKind.ofName? s
  | .table _ [(name, v)] => if isVacant v then SinkKind.ofName? name else none
  | _ => none

/-- The sink and its path of two values. -/
def auditFrom? (sink path : Option Item) : Option (SinkKind × Option String) := do
  let sink ← orElse sinkOf? SinkKind.stderr sink
  let path ← orElse (fun v => v.string?.map some) none path
  return (sink, path)

/-- **The sink and its path of a table or an array.** -/
def auditOf? (v : Item) : Option (SinkKind × Option String) :=
  match v with
  | .table _ entries =>
      if hasOnly ["sink", "path"] entries then
        auditFrom? (entries.lookup "sink") (entries.lookup "path")
      else none
  | v => v.items?.bind fun items => auditFrom? items[0]? items[1]?

/-! ### The texts -/

/-- The name under which a date-time holds its text, where a table is wanted. -/
def dateTimeName : String := "$__toml_private_datetime"

/-- **The texts of a table.** -/
def stringsOf? : Item → Option Table
  | .table _ entries =>
      entries.foldlM (fun t e => e.2.string?.map fun s => t.insert e.1 s) Table.empty
  | .dateTime text => some (Table.empty.insert dateTimeName text)
  | _ => none

/-! ### The whole -/

/-- The settings of a document's entries. -/
def ofEntries? (entries : Entries) : Option Settings :=
  if hasOnly ["formula", "audit", "strings"] entries then do
    let limits ← orElse limitsOf? Limits.default (entries.lookup "formula")
    let audit ← orElse auditOf? (SinkKind.stderr, none) (entries.lookup "audit")
    let strings ← orElse stringsOf? Table.empty (entries.lookup "strings")
    return ⟨limits, audit.1, audit.2, strings⟩
  else none

/-- **The settings that a document holds,** if they can be read and nothing is wrong with them. -/
def ofToml (text : String) : Except SettingsError Settings :=
  match (document? text).bind ofEntries? with
  | some s => s.checked
  | none => .error .parse

end Prerequisite.Settings

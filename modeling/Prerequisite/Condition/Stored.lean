/-
The structure that conditions are stored in.

A condition is stored as an object with two fields: `type` says that it is one of this kind, and
`condition` is the text of its formula.  The formula may be missing or null, and other fields are
skipped.

There are two ways to read such a structure.  From a value that is already read, a field that
occurs twice has long been settled, and what is wrong is named: first about the formula, then about
the type.  From a text, a field that occurs twice is a mistake, and the two fields may also stand
in an array, in the order of their names in the structure.
-/
import Prerequisite.Condition.Error
import Prerequisite.Json.Reader
import Prerequisite.Json.Writer

namespace Prerequisite

/-- A condition as it is stored. -/
structure StoredCondition where
  /-- What kind of condition it is. -/
  kind : String
  /-- The text of the formula, if there is one. -/
  formula : Option String
  deriving DecidableEq, Repr

namespace StoredCondition

/-- The kind of the conditions of this library. -/
def adler : String := "adler"

/-- The structure of a formula text. -/
def ofFormula (formula : String) : StoredCondition := ⟨adler, some formula⟩

/-- The JSON object of a structure; a formula that is missing is left out. -/
def toJson (s : StoredCondition) : Json :=
  .object <| ("type", .string s.kind) ::
    match s.formula with
    | some formula => [("condition", .string formula)]
    | none => []

/-- The text of a structure. -/
def text (s : StoredCondition) : String := s.toJson.text

/-! ### From a value -/

/-- What a value is, in the words of a complaint about it. -/
def found : Json → String
  | .null => "null"
  | .bool b => "boolean `" ++ (if b then "true" else "false") ++ "`"
  | .number (.whole n) => "integer `" ++ (Number.whole n).text ++ "`"
  | .number (.binary64 bits) => "floating point `" ++ (Number.binary64 bits).text ++ "`"
  | .string _ => "string"
  | .array _ => "sequence"
  | .object _ => "map"
  | .void => "nothing"

/-- The text a value must be. -/
def expectText : Json → Except StructureFault String
  | .string s => .ok s
  | v => .error (.notText (found v))

/-- The text a value must be, if it is there and not null. -/
def expectText? : Option Json → Except StructureFault (Option String)
  | none | some .null => .ok none
  | some v => (expectText v).map some

/-- **Reads a structure from a value.** -/
def ofJson : Json → Except StructureFault StoredCondition
  | .object fields => do
      let formula ← expectText? (Json.lookup "condition" fields)
      match Json.lookup "type" fields with
      | some v => return ⟨← expectText v, formula⟩
      | none => throw (.missingField "type")
  | _ => .error .notObject

/-! ### From a text -/

/-- The formula a value stands for, where a null stands for none. -/
def formulaOf? : Json → Option (Option String)
  | .null => some none
  | .string s => some (some s)
  | _ => none

/-- What the fields read so far say: the kind, and the formula or that there is none. -/
structure Draft where
  /-- The kind, if it was read. -/
  kind : Option String
  /-- The formula, or its absence, if it was read. -/
  formula : Option (Option String)

/-- The draft with one more field; none if it is there already or holds the wrong thing. -/
def Draft.add? (d : Draft) (name : String) (v : Json) : Option Draft :=
  if name = "type" then
    if d.kind.isSome then none else v.string?.map fun kind => { d with kind := some kind }
  else if name = "condition" then
    if d.formula.isSome then none else (formulaOf? v).map fun f => { d with formula := some f }
  else some d

/-- The structure of a draft, which needs a kind. -/
def Draft.finish? (d : Draft) : Option StoredCondition :=
  d.kind.map fun kind => ⟨kind, d.formula.join⟩

/-- Reads a structure from what a text says. -/
def decode? : Json → Option StoredCondition
  | .object fields =>
      (fields.foldlM (fun d f => Draft.add? d f.1 f.2) ⟨none, none⟩).bind Draft.finish?
  | .array [kind] => kind.string?.map fun kind => ⟨kind, none⟩
  | .array [kind, formula] => do return ⟨← kind.string?, ← formulaOf? formula⟩
  | _ => none

/-- **Reads a structure from a text.** -/
def ofText? (s : String) : Option StoredCondition := (Json.ofText? s).bind decode?

end StoredCondition

end Prerequisite

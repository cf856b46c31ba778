/-
The stored form of formulas.

A formula is stored as a JSON object with one field, named for the kind of node: `Atom` holds the
section's number, `And` and `Or` hold arrays, `Not` and `Group` hold one formula.  Nothing is lost,
so reading the stored form gives the same tree back.

A stored form is read only down to a fixed depth of objects and arrays, whoever wrote it.
-/
import Prerequisite.Formula.Basic
import Prerequisite.Json.Reader
import Prerequisite.Json.Writer

namespace Prerequisite.Formula

mutual

/-- **The stored form of a formula.** -/
def toJson : Formula → Json
  | .atom id => .object [("Atom", .nat id.number.toNat)]
  | .conj fs => .object [("And", .array (toJsonAll #[] fs))]
  | .disj fs => .object [("Or", .array (toJsonAll #[] fs))]
  | .neg f => .object [("Not", toJson f)]
  | .group f => .object [("Group", toJson f)]

/-- The stored forms of formulas, after those already made. -/
def toJsonAll (done : Array Json) : List Formula → List Json
  | [] => done.toList
  | f :: fs => toJsonAll (done.push (toJson f)) fs

end

/-- The most objects and arrays around a value that is read. -/
def maxStoredDepth : Nat := 127

mutual

/-- Reads a stored form that has at most `room` objects and arrays around each value. -/
def ofJson? (room : Nat) : Json → Option Formula
  | .object [(name, v)] =>
      match room with
      | 0 => none
      | room + 1 =>
          if name = "Atom" then v.word?.map fun n => .atom ⟨n⟩
          else if name = "Not" then (ofJson? room v).map .neg
          else if name = "Group" then (ofJson? room v).map .group
          else if name = "And" then (ofItems? room v).map .conj
          else if name = "Or" then (ofItems? room v).map .disj
          else none
  | _ => none

/-- Reads the operands of a chain. -/
def ofItems? (room : Nat) : Json → Option (List Formula)
  | .array items =>
      match room with
      | 0 => none
      | room + 1 => ofList? room #[] items
  | _ => none

/-- Reads operands, after those already read. -/
def ofList? (room : Nat) (done : Array Formula) : List Json → Option (List Formula)
  | [] => some done.toList
  | v :: vs =>
      match ofJson? room v with
      | some f => ofList? room (done.push f) vs
      | none => none

end

/-- Reads the text of a stored form. -/
def ofStored? (s : String) : Option Formula := (Json.ofText? s).bind (ofJson? maxStoredDepth)

/-- The text of the stored form. -/
def stored (f : Formula) : String := f.toJson.text

end Prerequisite.Formula

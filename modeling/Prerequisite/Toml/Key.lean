/-
Keys of TOML.

A key is one name, or several with dots between them, eighty at most.  A name is a run of letters,
digits, dashes and underscores of ASCII, or a text in quotes on one line, which may also be empty.
-/
import Prerequisite.Toml.Quoted

namespace Prerequisite.Toml

open Prerequisite.Text

/-- Names that lead from one table to another, and the name of a value in the last one. -/
structure Key where
  /-- The names of the tables. -/
  path : List String
  /-- The name of the value. -/
  name : String
  deriving DecidableEq, Repr

/-- Whether a character may stand in a name without quotes. -/
def isBare (c : Char) : Bool := c.isAlphanum || c == '-' || c == '_'

/-- Takes a name. -/
def name (s : List Char) : Option (Reading String s.length) :=
  match lineText? s with
  | some r => r
  | none =>
      match s with
      | [] => none
      | c :: cs =>
          if isBare c then
            some ⟨String.ofList (c :: cs.takeWhile isBare), cs.dropWhile isBare,
              Nat.lt_succ_of_le (length_dropWhile_le isBare cs)⟩
          else none

/-- Takes the names that follow those already read, each behind a dot. -/
def namesOf (n : Nat) (path : Array String) (last : String) (s : List Char) (h : s.length < n) :
    Option (Reading Key n) :=
  match hs : skipBlanks s with
  | '.' :: cs =>
      match name (skipBlanks cs) with
      | none => none
      | some r =>
          have hr : r.rest.length < s.length := by
            have h1 := length_skipBlanks_le s
            have h2 := length_skipBlanks_le cs
            have h3 := r.shorter
            rw [hs, List.length_cons] at h1
            omega
          namesOf n (path.push last) r.value r.rest (Nat.lt_trans hr h)
  | r => some ⟨⟨path.toList, last⟩, r, by
      have := length_skipBlanks_le s; rw [hs] at this; omega⟩
termination_by s.length

/-- The most names of a key. -/
def maxNames : Nat := 80

/-- **Takes a key and the blanks behind it.** -/
def key (s : List Char) : Option (Reading Key s.length) :=
  match name s with
  | none => none
  | some r =>
      (namesOf s.length #[] r.value r.rest r.shorter).filter (·.value.path.length < maxNames)

end Prerequisite.Toml

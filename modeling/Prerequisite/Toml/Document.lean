/-
Reading TOML documents.

A document is a sequence of lines.  A line holds a header, a key with its value, or nothing, and may
end with a comment.  Values may run over several lines.
-/
import Prerequisite.Toml.Value

namespace Prerequisite.Toml

open Prerequisite.Text

/-- Takes a key, an equals sign and a value. -/
def entry (d : Draft) (s : List Char) : Option (Reading Draft s.length) :=
  match key s with
  | none => none
  | some k =>
      match h : k.rest with
      | '=' :: cs =>
          match value maxDepth (skipBlanks cs) with
          | none => none
          | some v =>
              (d.value? k.value v.value).map fun d' => ⟨d', v.rest, by
                have h1 := k.shorter
                have h2 := v.shorter
                have h3 := length_skipBlanks_le cs
                rw [h, List.length_cons] at h1
                omega⟩
      | _ => none

/-- Takes the rest of the header of a table, behind its bracket. -/
def tableHeader (d : Draft) (s : List Char) : Option (Reading Draft s.length) :=
  match key (skipBlanks s) with
  | none => none
  | some k =>
      match h : k.rest with
      | ']' :: r =>
          (d.header? k.value).map fun d' => ⟨d', r, by
            have h1 := k.shorter
            have h2 := length_skipBlanks_le s
            rw [h, List.length_cons] at h1
            omega⟩
      | _ => none

/-- Takes the rest of the header of an array of tables, behind its two brackets. -/
def arrayHeader (d : Draft) (s : List Char) : Option (Reading Draft s.length) :=
  match key (skipBlanks s) with
  | none => none
  | some k =>
      match h : k.rest with
      | ']' :: ']' :: r =>
          (d.arrayHeader? k.value).map fun d' => ⟨d', r, by
            have h1 := k.shorter
            have h2 := length_skipBlanks_le s
            rw [h, List.length_cons, List.length_cons] at h1
            omega⟩
      | _ => none

/-- Takes what a line holds, without the blanks and the comment at its end. -/
def line (d : Draft) (s : List Char) : Option (Reading Draft (s.length + 1)) :=
  match s with
  | '[' :: '[' :: cs => (arrayHeader d cs).map (·.succ.succ.succ)
  | '[' :: cs => (tableHeader d cs).map (·.succ.succ)
  | [] => some (.leaving d [])
  | c :: cs =>
      if c == '\n' || c == '\r' || c == '#' then some (.leaving d (c :: cs))
      else (entry d (c :: cs)).map (·.succ)

/-- Reads lines, after those already read. -/
def lines (d : Draft) (s : List Char) : Option Draft :=
  match line d (skipBlanks s) with
  | none => none
  | some r =>
      match lineEnd? r.rest with
      | none => none
      | some .last => some r.value
      | some (.next rest shorter) =>
          have : rest.length < s.length := by
            have h1 := r.shorter
            have h2 := length_skipBlanks_le s
            omega
          lines r.value rest
termination_by s.length

/-- Leaves out a mark of the byte order in front. -/
def skipByteOrderMark (s : List Char) : List Char :=
  match s with
  | '\uFEFF' :: cs => cs
  | s => s

/-- **Reads a document:** the entries of its table. -/
def document? (s : String) : Option Entries :=
  (lines Draft.empty (skipByteOrderMark s.toList)).map (·.root)

end Prerequisite.Toml

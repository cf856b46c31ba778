/-
Reading TOML values.

A value is a text, a run of characters without quotes, an array in brackets or a table in braces.
Between brackets and between braces there may be ends of lines and comments, also around an equals
sign, and a comma behind the last part.  Arrays and tables are nested down to a fixed depth.
-/
import Prerequisite.Toml.Quoted
import Prerequisite.Toml.Scalar
import Prerequisite.Toml.Table

namespace Prerequisite.Toml

open Prerequisite.Text

/-- The most arrays and tables in braces around a value. -/
def maxDepth : Nat := 80

/-- What follows a part of an array or of a table in braces. -/
inductive After (n : Nat) where
  /-- The closing mark. -/
  | closed (rest : List Char) (shorter : rest.length < n)
  /-- Another part. -/
  | more (rest : List Char) (shorter : rest.length < n)

/-- Takes the closing mark in front, if it is there. -/
def close? (mark : Char) (s : List Char) : Option (Option (Reading Unit s.length)) :=
  match skipLines s with
  | none => none
  | some r =>
      match h : r.rest with
      | c :: cs =>
          if c = mark then
            some (some ⟨(), cs, by have := r.shorter; rw [h, List.length_cons] at this; omega⟩)
          else some none
      | [] => some none

/-- Takes what follows a part: the closing mark, or a comma, behind which the closing mark may
follow too. -/
def after (mark : Char) (s : List Char) : Option (After s.length) :=
  match skipLines s with
  | none => none
  | some r =>
      match h : r.rest with
      | [] => none
      | c :: cs =>
          have hc : cs.length < s.length := by
            have := r.shorter; rw [h, List.length_cons] at this; omega
          if c = mark then some (.closed cs hc)
          else if c = ',' then
            match close? mark cs with
            | none => none
            | some (some r) => some (.closed r.rest (Nat.lt_trans r.shorter hc))
            | some none => some (.more cs hc)
          else none

/-- Takes an equals sign between braces, and everything up to the value. -/
def equals (s : List Char) : Option (Reading Unit s.length) :=
  match skipLines s with
  | none => none
  | some r =>
      match h : r.rest with
      | '=' :: cs =>
          (skipLines cs).map (·.widen (by
            have := r.shorter; rw [h, List.length_cons] at this; omega))
      | _ => none

mutual

/-- **Takes a value that starts right here,** with room for so many arrays and tables. -/
def value (room : Nat) (s : List Char) : Option (Reading Item s.length) :=
  match text? s with
  | some r => r.map (·.map .string)
  | none =>
      match s with
      | [] => none
      | c :: cs =>
          if c = '[' then
            match room with
            | 0 => none
            | room + 1 =>
                match close? ']' cs with
                | none => none
                | some (some r) => some ⟨.array [], r.rest, Nat.lt_succ_of_lt r.shorter⟩
                | some none => items room (cs.length + 1) #[] cs (length_lt_succ cs)
          else if c = '\x7b' then
            match room with
            | 0 => none
            | room + 1 =>
                match close? '\x7d' cs with
                | none => none
                | some (some r) => some ⟨.table .braces [], r.rest, Nat.lt_succ_of_lt r.shorter⟩
                | some none => fields room (cs.length + 1) [] cs (length_lt_succ cs)
          else Scalar.scalar (c :: cs)
termination_by (s.length, 0)

/-- Takes the items of an array and its closing bracket, after the items already read. -/
def items (room n : Nat) (done : Array Item) (s : List Char) (h : s.length < n) :
    Option (Reading Item n) :=
  match skipLines s with
  | none => none
  | some start =>
      match value room start.rest with
      | none => none
      | some v =>
          have hv : v.rest.length < s.length :=
            Nat.lt_of_lt_of_le v.shorter (Nat.le_of_lt_succ start.shorter)
          match after ']' v.rest with
          | none => none
          | some (.closed r shorter) =>
              some ⟨.array (done.push v.value).toList, r,
                Nat.lt_trans shorter (Nat.lt_trans hv h)⟩
          | some (.more r shorter) =>
              have hr : r.length < s.length := Nat.lt_trans shorter hv
              items room n (done.push v.value) r (Nat.lt_trans hr h)
termination_by (s.length, 1)
decreasing_by
  · rcases Nat.lt_or_eq_of_le (Nat.le_of_lt_succ start.shorter) with hlt | heq
    · exact Prod.Lex.left _ _ hlt
    · rw [heq]; exact Prod.Lex.right _ (by omega)
  · exact Prod.Lex.left _ _ hr

/-- Takes the entries of a table in braces and its closing brace, after the entries already
read. -/
def fields (room n : Nat) (done : Entries) (s : List Char) (h : s.length < n) :
    Option (Reading Item n) :=
  match skipLines s with
  | none => none
  | some start =>
      match key start.rest with
      | none => none
      | some k =>
          have hk : k.rest.length < s.length :=
            Nat.lt_of_lt_of_le k.shorter (Nat.le_of_lt_succ start.shorter)
          match equals k.rest with
          | none => none
          | some start' =>
              have hs : start'.rest.length < s.length := Nat.lt_trans start'.shorter hk
              match value room start'.rest with
              | none => none
              | some v =>
                  have hv : v.rest.length < s.length := Nat.lt_trans v.shorter hs
                  match addValue k.value v.value .header done with
                  | none => none
                  | some entries =>
                      match after '\x7d' v.rest with
                      | none => none
                      | some (.closed r shorter) =>
                          some ⟨.table .braces entries, r,
                            Nat.lt_trans shorter (Nat.lt_trans hv h)⟩
                      | some (.more r shorter) =>
                          have hr : r.length < s.length := Nat.lt_trans shorter hv
                          fields room n entries r (Nat.lt_trans hr h)
termination_by (s.length, 1)
decreasing_by
  · exact Prod.Lex.left _ _ hs
  · exact Prod.Lex.left _ _ hr

end

end Prerequisite.Toml

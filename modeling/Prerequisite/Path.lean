/-
Paths.

A path is a text whose parts are set apart by slashes.  What is asked of a path before anything is
looked up under it is that it is not too long, and that no part of it is.
-/
import Prerequisite.Text.Size

namespace Prerequisite.Path

/-- **The parts of a path,** of which there is always one; two slashes have an empty part between
them. -/
def parts : List Char → List (List Char)
  | [] => [[]]
  | c :: cs =>
      if c = '/' then [] :: parts cs
      else
        match parts cs with
        | [] => [[c]]
        | p :: ps => (c :: p) :: ps

/-- The most bytes a path may have. -/
def maxBytes : Nat := 4096

/-- The most bytes a part of a path may have. -/
def maxPartBytes : Nat := 255

/-- What is wrong with a path. -/
inductive Fault where
  /-- It has too many bytes. -/
  | tooLong
  /-- A part of it has too many bytes. -/
  | partTooLong
  deriving DecidableEq, Repr

/-- **What is wrong with a path,** the whole of it first. -/
def fault? (path : List Char) : Option Fault :=
  if maxBytes < Text.byteSize path then some .tooLong
  else if (parts path).any fun p => maxPartBytes < Text.byteSize p then some .partTooLong
  else none

end Prerequisite.Path

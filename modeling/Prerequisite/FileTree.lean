/-
Trees of files.

A tree has directories and files below one directory, the root.  A path is followed from the root
part by part: a name leads to what the directory holds under it, a dot or nothing at all stays
where it is, and two dots lead back.  Only a directory can be followed any further, and a path that
leaves the root leads nowhere.

Entries are kept in one list, each under its location, the names that lead to it.
-/
import Prerequisite.Path

namespace Prerequisite

/-- The names that lead from the root to an entry. -/
abbrev Location := List String

/-- What a tree holds at a location. -/
inductive Entry where
  /-- A file with these bytes. -/
  | file (content : ByteArray)
  /-- A directory. -/
  | directory

instance : DecidableEq Entry
  | .file a, .file b =>
      if h : a.data = b.data then .isTrue (congrArg Entry.file (ByteArray.ext h))
      else .isFalse fun e => h (congrArg ByteArray.data (Entry.file.inj e))
  | .directory, .directory => .isTrue rfl
  | .file _, .directory => .isFalse nofun
  | .directory, .file _ => .isFalse nofun

/-- A tree of files. -/
structure FileTree where
  /-- The entries below the root, by location. -/
  entries : List (Location × Entry)
  deriving DecidableEq

namespace FileTree

/-- The tree with nothing in it. -/
def empty : FileTree := ⟨[]⟩

/-- What is at a location. -/
def get? (t : FileTree) : Location → Option Entry
  | [] => some .directory
  | l => t.entries.lookup l

/-- Replaces what is at a location, or adds it after everything else. -/
def putEntry (l : Location) (e : Entry) : List (Location × Entry) → List (Location × Entry)
  | [] => [(l, e)]
  | x :: xs => if x.1 = l then (l, e) :: xs else x :: putEntry l e xs

/-- The tree with an entry at a location. -/
def put (t : FileTree) (l : Location) (e : Entry) : FileTree := ⟨putEntry l e t.entries⟩

/-! ### Following paths -/

/-- Where a path leads. -/
inductive Place where
  /-- To something that is there. -/
  | taken (location : Location) (entry : Entry)
  /-- To a name that a directory has nothing under. -/
  | free (location : Location)
  deriving DecidableEq

/-- The most bytes of a path that can be followed. -/
def maxPathBytes : Nat := 4095

/-- Where a part of a path leads. -/
def step (t : FileTree) (p : Place) (part : List Char) : Option Place :=
  match p with
  | .taken l .directory =>
      if part = [] ∨ part = ['.'] then some p
      else if part = ['.', '.'] then
        match l with
        | [] => none
        | l => some (.taken l.dropLast .directory)
      else if Path.maxPartBytes < Text.byteSize part then none
      else
        let l' := l ++ [String.ofList part]
        match t.get? l' with
        | some e => some (.taken l' e)
        | none => some (.free l')
  | _ => none

/-- Whether a path can be followed at all. -/
def isFollowable (path : List Char) : Bool :=
  !path.isEmpty && path.head? != some '/' && !path.contains '\x00' &&
    Text.byteSize path ≤ maxPathBytes

/-- **Where a path leads from the root.** -/
def follow (t : FileTree) (path : String) : Option Place :=
  if isFollowable path.toList then
    (Path.parts path.toList).foldlM t.step (.taken [] .directory)
  else none

/-! ### Files -/

/-- The bytes of the file a path leads to. -/
def read? (t : FileTree) (path : String) : Option ByteArray :=
  match t.follow path with
  | some (.taken _ (.file content)) => some content
  | _ => none

/-- **Opens the file a path leads to, for writing at its end.**  A file that is not there yet is
made, but no directory is. -/
def openToAppend (t : FileTree) (path : String) : Option (Location × FileTree) :=
  match t.follow path with
  | some (.taken l (.file _)) => some (l, t)
  | some (.free l) => some (l, t.put l (.file .empty))
  | _ => none

/-- Writes at the end of a file. -/
def append (t : FileTree) (l : Location) (bytes : ByteArray) : FileTree :=
  match t.get? l with
  | some (.file content) => t.put l (.file (content ++ bytes))
  | _ => t

/-! ### Building trees -/

/-- One part of the way to a directory, which is made if the place is free. -/
def enter (t : FileTree) (p : Place) (part : List Char) : Option (FileTree × Place) :=
  match t.step p part with
  | some (.free l) => some (t.put l .directory, .taken l .directory)
  | some q => some (t, q)
  | none => none

/-- Makes the directories that parts lead through. -/
def enterAll (t : FileTree) (p : Place) (parts : List (List Char)) : Option (FileTree × Place) :=
  parts.foldlM (fun s part => s.1.enter s.2 part) (t, p)

/-- Makes a directory and all those on the way to it. -/
def makeDirectory (t : FileTree) (path : String) : Option FileTree :=
  (t.enterAll (.taken [] .directory) (Path.parts path.toList)).map (·.1)

/-- Makes a file with some bytes, and all directories on the way to it. -/
def makeFile (t : FileTree) (path : String) (content : ByteArray) : Option FileTree :=
  let parts := Path.parts path.toList
  match t.enterAll (.taken [] .directory) parts.dropLast with
  | none => none
  | some (t', p) =>
      match t'.step p (parts.getLast?.getD []) with
      | some (.taken l (.file _)) | some (.free l) => some (t'.put l (.file content))
      | _ => none

/-- The files of a tree with the paths that lead to them. -/
def files (t : FileTree) : List (String × ByteArray) :=
  t.entries.filterMap fun x =>
    match x.2 with
    | .file content => some ("/".intercalate x.1, content)
    | .directory => none

end FileTree

end Prerequisite

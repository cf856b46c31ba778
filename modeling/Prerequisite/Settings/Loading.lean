/-
Where settings come from.

Settings are read from a file.  Its path is the one that is given, or else the one that the
environment names, or else a fixed one.  The path is checked before the file is opened, and the
size of the file before it is read.
-/
import Prerequisite.FileTree
import Prerequisite.Settings.Decoding

namespace Prerequisite.Settings

/-- The path of the settings where none is given. -/
def defaultPath : String := "adler-availability.toml"

/-- The most bytes a file of settings may have. -/
def maxFileBytes : Nat := 1024 * 1024

/-- The path of the settings: as given, or as the environment says. -/
def sourcePath (environment given : Option String) : Except SettingsError String :=
  match given, environment with
  | some path, _ => .ok path
  | none, some path =>
      if Path.maxBytes < path.utf8ByteSize then .error (.invalid .sourcePathTooLong) else .ok path
  | none, none => .ok defaultPath

/-- What is wrong with the path of settings. -/
def sourceFault? (path : String) : Option SettingsFault :=
  match Path.fault? path.toList with
  | some .tooLong => some .sourcePathTooLong
  | some .partTooLong => some .sourcePartTooLong
  | none => none

/-- The settings that the bytes of a file hold. -/
def ofBytes (content : ByteArray) : Except SettingsError Settings :=
  if maxFileBytes < content.size then .error (.invalid .sourceTooLarge)
  else
    match String.fromUTF8? content with
    | some text => ofToml text
    | none => .error (.invalid .sourceNotUtf8)

/-- **Loads settings from a file.** -/
def load (files : FileTree) (environment given : Option String) :
    Except SettingsError Settings :=
  match sourcePath environment given with
  | .error e => .error e
  | .ok path =>
      match sourceFault? path with
      | some f => .error (.invalid f)
      | none =>
          match files.read? path with
          | some content => ofBytes content
          | none => .error .io

end Prerequisite.Settings

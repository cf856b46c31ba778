/-
Settings.

An administrator may set the limits that formulas are read under, where events go, and how phrases
read.  Everything has a value if it is not set.

Settings are checked as a whole before they are used.  The checks stand in a fixed order, and the
first that fails is the one that is reported.
-/
import Prerequisite.Catalog
import Prerequisite.Formula.Error
import Prerequisite.Path
import Prerequisite.Text.Blank

namespace Prerequisite

/-- Where events can go. -/
inductive SinkKind where
  /-- To standard error. -/
  | stderr
  /-- To the end of a file. -/
  | file
  /-- Nowhere. -/
  | discard
  deriving DecidableEq, Repr

namespace SinkKind

/-- All kinds. -/
def all : List SinkKind := [.stderr, .file, .discard]

/-- The name of a kind in settings. -/
def name : SinkKind → String
  | .stderr => "stderr"
  | .file => "file"
  | .discard => "none"

/-- The kind with a name. -/
def ofName? (s : String) : Option SinkKind := all.find? fun kind => kind.name == s

end SinkKind

/-- What an administrator may set. -/
structure Settings where
  /-- The limits that formulas are read under. -/
  limits : Limits
  /-- Where events go. -/
  sink : SinkKind
  /-- The path of the file that events go to. -/
  path : Option String
  /-- Texts in the place of the English ones. -/
  strings : Table
  deriving DecidableEq

/-- What is wrong with settings. -/
inductive SettingsFault where
  /-- The size of formulas is not within its bounds. -/
  | maxBytes
  /-- The nesting of formulas is not within its bounds. -/
  | maxNesting
  /-- Events go to a file, and there is no path. -/
  | pathRequired
  /-- The path holds nothing but blanks. -/
  | pathEmpty
  /-- The path or a part of it is too long. -/
  | pathTooLong
  /-- There is a text for something that is no phrase. -/
  | unknownString (name : String)
  /-- The text for a phrase is too long. -/
  | longString (name : String)
  /-- The path of the settings is too long. -/
  | sourcePathTooLong
  /-- A part of the path of the settings is too long. -/
  | sourcePartTooLong
  /-- The file of the settings is too large. -/
  | sourceTooLarge
  /-- The file of the settings is not in UTF-8. -/
  | sourceNotUtf8
  deriving DecidableEq, Repr

/-- Why there are no settings. -/
inductive SettingsError where
  /-- A file could not be read or written. -/
  | io
  /-- The text is not in the format of settings. -/
  | parse
  /-- The settings are wrong. -/
  | invalid (fault : SettingsFault)
  deriving DecidableEq, Repr

namespace Settings

/-- The settings where nothing is set. -/
def default : Settings := ⟨Limits.default, .stderr, none, Table.empty⟩

/-- The catalog with the texts that were set. -/
def catalog (s : Settings) : Catalog := ⟨s.strings⟩

/-- The largest size of formulas that can be set. -/
def maxFormulaBytes : Nat := 1024 * 1024

/-- The deepest nesting of formulas that can be set. -/
def maxFormulaNesting : Nat := 256

/-- The most characters a text for a phrase may have. -/
def maxStringLength : Nat := 1024

end Settings

/-- The wording of what is wrong with settings. -/
def SettingsFault.message : SettingsFault → String
  | .maxBytes =>
      "formula.max_input_bytes must be between 1 and " ++ toString Settings.maxFormulaBytes
  | .maxNesting =>
      "formula.max_nesting must be between 1 and " ++ toString Settings.maxFormulaNesting
  | .pathRequired => "audit.path is required for the file sink"
  | .pathEmpty => "audit.path must be non-empty"
  | .pathTooLong => "audit.path exceeds path length limits"
  | .unknownString name => "strings." ++ name ++ " is not a known string"
  | .longString name => "strings." ++ name ++ " exceeds max length"
  | .sourcePathTooLong => "config path exceeds max length"
  | .sourcePartTooLong => "config path component too long"
  | .sourceTooLarge => "config file exceeds size limit"
  | .sourceNotUtf8 => "config file must be utf-8"

/-- The wording of the report about wrong settings. -/
def SettingsFault.report (f : SettingsFault) : String := "invalid config: " ++ f.message

/-! ### Checks -/

namespace Settings

/-- What is wrong with limits. -/
def limitsFault? (limits : Limits) : Option SettingsFault :=
  if limits.maxBytes = 0 ∨ maxFormulaBytes < limits.maxBytes then some .maxBytes
  else if limits.maxNesting = 0 ∨ maxFormulaNesting < limits.maxNesting then some .maxNesting
  else none

/-- What is wrong with the path of the file that events go to, blanks around it aside. -/
def pathFault? (path : String) : Option SettingsFault :=
  let trimmed := Text.trim path.toList
  if trimmed = [] then some .pathEmpty
  else if (Path.fault? trimmed).isSome then some .pathTooLong
  else none

/-- What is wrong with where events go.  A path is checked even if it is not used. -/
def sinkFault? (sink : SinkKind) : Option String → Option SettingsFault
  | some path => pathFault? path
  | none => if sink = .file then some .pathRequired else none

/-- What is wrong with one text for a phrase. -/
def stringFault? (name text : String) : Option SettingsFault :=
  if (Phrase.ofName? name).isNone then some (.unknownString name)
  else if maxStringLength < text.length then some (.longString name)
  else none

/-- **What is wrong with settings:** the limits come first, then the sink, then the texts with
ascending names. -/
def fault? (s : Settings) : Option SettingsFault :=
  (limitsFault? s.limits).or <| (sinkFault? s.sink s.path).or <|
    s.strings.entries.findSome? fun e => stringFault? e.1 e.2

/-- The settings, if nothing is wrong with them. -/
def checked (s : Settings) : Except SettingsError Settings :=
  match s.fault? with
  | some f => .error (.invalid f)
  | none => .ok s

end Settings

end Prerequisite

/-
Where events go.

A sink takes events one by one and writes each as a line: to standard error, to the end of a file,
or nowhere.  A file is opened once, which makes it if it is not there, and only its end is ever
written to.
-/
import Prerequisite.Audit.Event
import Prerequisite.FileTree
import Prerequisite.Settings.Basic

namespace Prerequisite

/-- What sinks write to. -/
structure Outlets where
  /-- What was written to standard error. -/
  stderr : String
  /-- The files. -/
  files : FileTree
  deriving DecidableEq

/-- A sink that is open. -/
inductive Sink where
  /-- Standard error. -/
  | stderr
  /-- The end of a file. -/
  | file (location : Location)
  /-- Nowhere. -/
  | discard
  deriving DecidableEq, Repr

namespace Sink

/-- The line of an event, with the line feed that ends it. -/
def line (e : AuditEvent) : String := e.text.push '\n'

/-- **Writes an event.** -/
def record (sink : Sink) (out : Outlets) (e : AuditEvent) : Outlets :=
  match sink with
  | .stderr => { out with stderr := out.stderr ++ line e }
  | .file location => { out with files := out.files.append location (line e).toUTF8 }
  | .discard => out

/-- Writes events in their order. -/
def recordAll (sink : Sink) (out : Outlets) (events : List AuditEvent) : Outlets :=
  events.foldl sink.record out

end Sink

/-- **Opens the sink that settings ask for.**  Blanks around a path do not count. -/
def Settings.openSink (s : Settings) (out : Outlets) : Except SettingsError (Sink × Outlets) :=
  match s.sink with
  | .stderr => .ok (.stderr, out)
  | .discard => .ok (.discard, out)
  | .file =>
      match s.path with
      | none => .error (.invalid .pathRequired)
      | some path =>
          match out.files.openToAppend (Text.trimmed path) with
          | some (location, files) => .ok (.file location, { out with files := files })
          | none => .error .io

end Prerequisite

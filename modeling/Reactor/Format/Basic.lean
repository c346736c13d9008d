import Reactor.Json.Fault
import Reactor.Value.Document
import Reactor.Workspace.FileSystem
import Reactor.Yaml.Fault

/-!
# Descriptor formats

A format reads the text of a descriptor file as a value. Which format reads a file is decided by the
extension of its name, and in a directory each format's file names are looked for in turn.
-/

namespace Reactor

/-- Why a text is no value in some format. What is wrong with the text may be left untold. -/
inductive FormatFailure where
  | json (fault : Option Json.Fault)
  | yaml (fault : Option Yaml.Fault)
  /-- A script that does not compile, or that fails while it runs. -/
  | script
  /-- A script that returns something other than a table. -/
  | scriptResult (type : String)
  /-- The text is read, but something in it is not a descriptor value. -/
  | unsupported (rejection : Value.Rejection)
  deriving DecidableEq, Repr

namespace FormatFailure

def message : FormatFailure → String
  | json none => "invalid JSON"
  | json (some fault) => "invalid JSON: " ++ fault.message
  | yaml none => "invalid YAML"
  | yaml (some fault) => "invalid YAML: " ++ fault.message
  | script => "lua error"
  | scriptResult name => s!"lua error: descriptor must return a table, got {name}"
  | unsupported rejection =>
    "unsupported value at '" ++ rejection.pointer.shown ++ "': " ++ rejection.reason.message

/-- The failure without what is wrong with the text. -/
def untold : FormatFailure → FormatFailure
  | json _ => json none
  | yaml _ => yaml none
  | failure => failure

end FormatFailure

/-- A syntax of descriptors. -/
structure Format where
  name : String
  /-- The file name extensions of this syntax, without dots. -/
  extensions : List String
  /-- Reads the text of the file at a path. A script may look into the file system. -/
  read : FileSystem → String → String → Except FormatFailure Value

namespace Format

/-- The format whose failures do not tell what is wrong with a text. -/
def untold (format : Format) : Format :=
  { format with read := fun fs path text ↦ (format.read fs path text).mapError (·.untold) }

def withExtension? (formats : List Format) (extension : String) : Option Format :=
  formats.find? (·.extensions.contains extension)

def ofPath? (formats : List Format) (path : String) : Option Format :=
  (Path.extension? path).bind (withExtension? formats)

/-- The name, without extension, of the descriptor file in a directory. -/
def stem : String :=
  "project"

/-- The paths at which the descriptor of a directory may be, in order of preference. -/
def candidates (formats : List Format) (directory : String) : List String :=
  formats.flatMap fun format ↦
    format.extensions.map fun extension ↦ Path.join directory (stem ++ "." ++ extension)

/-- The descriptor file that a path designates: the file itself, or the first descriptor file that a
directory holds. -/
def locate? (formats : List Format) (fs : FileSystem) (path : String) : Option String :=
  if fs.isFile path then some path
  else if fs.isDirectory path then (candidates formats path).find? fs.isFile
  else none

end Format

end Reactor

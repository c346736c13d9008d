import Reactor.Failure

/-!
# Settings

How strictly a tree of projects is resolved, and the properties that it is given from outside.
-/

namespace Reactor

/-- What a failing module does to the tree. -/
inductive ErrorMode where
  /-- The first failing module fails the tree. -/
  | failFast
  /-- Failures are recorded in the tree, and the other modules are resolved. -/
  | collectAll
  deriving DecidableEq, Repr

/-- What a reference to an undefined property does. -/
inductive MissingProperty where
  /-- It is a failure. -/
  | fail
  /-- It stays in the text. -/
  | keep
  deriving DecidableEq, Repr

/-- The settings of one resolution. -/
structure Config where
  errorMode : ErrorMode
  missingProperty : MissingProperty
  /-- The time after which aggregation is given up. -/
  deadline : Option Nanoseconds
  /-- Properties of every descriptor without a parent. -/
  globals : SortedMap String

namespace Config

/-- Settings with strict properties, no deadline and no global properties. -/
def ofMode (mode : ErrorMode) : Config :=
  ⟨mode, .fail, none, ∅⟩

def withGlobal (config : Config) (name value : String) : Config :=
  { config with globals := config.globals.insert name value }

/-- The global property that a version file sets. -/
def versionProperty : String :=
  "version"

/-- The settings with the version property set to the first line of a file, trimmed. -/
def withVersionFile (config : Config) (fs : FileSystem) (path : String) : Except Failure Config :=
  match fs.readText? path with
  | none => .error (.notFound path)
  | some content =>
    let version := Text.trim (Text.firstLine content)
    if version.isEmpty then .error (.malformed path .emptyVersionFile)
    else .ok (config.withGlobal versionProperty version)

end Config

end Reactor

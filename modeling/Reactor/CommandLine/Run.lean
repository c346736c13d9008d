import Reactor.CommandLine.Arguments
import Reactor.CommandLine.Report
import Reactor.Engine

/-!
# Commands

What the program prints and how it exits, as a function of its arguments, the file system and the
clock.
-/

namespace Reactor.CommandLine

/-- What a run of the program leaves behind. -/
@[ext]
structure Outcome where
  code : Nat
  stdout : String
  stderr : String
  deriving DecidableEq, Repr

/-- What a run depends on besides its arguments. -/
structure Environment where
  fs : FileSystem
  formats : List Format
  clock : Clock
  /-- The time that the whole run took. -/
  elapsed : Nanoseconds

namespace Outcome

def success (stdout : String) : Outcome :=
  ⟨0, stdout, ""⟩

def failure (message : String) : Outcome :=
  ⟨1, "", errorLine message⟩

/-- A run on a command line that breaks the grammar. -/
def usageError : Outcome :=
  ⟨2, "", errorLine "invalid command line"⟩

/-- A run that printed `stdout`, and failed if some module of the tree did. -/
def ofTree (tree : ProjectTree) (stdout : String) : Outcome :=
  let failures := tree.failureList
  if failures.isEmpty then success stdout
  else ⟨1, stdout, String.join (failures.map warningLine) ++
    errorLine s!"{failures.length} module(s) failed to resolve"⟩

end Outcome

/-- The settings that options stand for, or the message that tells why the version file is not
usable. Definitions hide the version read from a file. -/
def configOf (fs : FileSystem) (options : Options) : Except String Config := do
  let base : Config :=
    { errorMode := if options.failFast then .failFast else .collectAll
      missingProperty := if options.keepMissing then .keep else .fail
      deadline := options.timeout
      globals := ∅ }
  let versioned ←
    match options.versionFile with
    | none => .ok base
    | some path => (base.withVersionFile fs path).mapError fun failure ↦
      s!"Failed to read version file: {path}: " ++ failure.chainMessage
  .ok (options.defines.foldl (fun config (key, value) ↦ config.withGlobal key value) versioned)

/-- The tree at a path, or the message that tells why there is none. -/
def treeOf (env : Environment) (config : Config) (path : String) : Except String ProjectTree :=
  let engine : Engine := ⟨env.formats, .relativePath, config⟩
  (engine.resolveTree env.fs env.clock path).mapError fun failure ↦
    s!"Failed to resolve {path}: " ++ failure.chainMessage

def jsonText (document : Json) : String :=
  document.pretty ++ "\n"

def showModule (tree : ProjectTree) (query : String) : Outcome :=
  match tree.find? query with
  | some subtree => .success (jsonText (effectiveJson subtree).sortKeys)
  | none =>
    let wanted := ProjectTree.queryNames query
    match tree.failureList.find? (·.path.segments.drop 1 = wanted) with
    | some entry =>
      .failure (s!"Module '{query}' failed to resolve: " ++ entry.failure.rootCause.message)
    | none => .failure (s!"Module '{query}' not found below " ++ tree.project.id)

def execute (env : Environment) (options : Options) (command : Command) : Outcome :=
  let outcome : Except String Outcome := do
    let config ← configOf env.fs options
    match command with
    | .resolve path format => do
      let tree ← treeOf env config path
      .ok (.ofTree tree (match format with
        | .text => treeReport tree env.elapsed
        | .json => jsonText tree.toJson))
    | .order path format => do
      let tree ← treeOf env config path
      .ok (.ofTree tree (match format with
        | .text => orderReport tree
        | .json => jsonText (orderJson tree).sortKeys))
    | .effective path module => do
      let tree ← treeOf env config path
      .ok (showModule tree module)
  match outcome with
  | .ok outcome => outcome
  | .error message => .failure message

/-- The text that tells how the program is used. -/
def usage : String :=
  unlines ["Usage: trellis [OPTIONS] <COMMAND>", "", "Commands:",
    "  resolve    Resolve a project tree and print every module's effective configuration",
    "  order      Print modules in build order",
    "  effective  Print one module's effective configuration as JSON"]

def versionText : String :=
  "trellis 0.1.0\n"

def run (env : Environment) (arguments : List String) : Outcome :=
  match request? arguments with
  | none => .usageError
  | some .help => .success usage
  | some .version => .success versionText
  | some (.run options command) => execute env options command

end Reactor.CommandLine

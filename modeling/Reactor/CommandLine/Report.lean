import Reactor.CommandLine.Duration
import Reactor.Tree.Basic

/-!
# Reports

The texts that commands print: the effective configuration of every project of a tree, the build
order, and what failed.
-/

namespace Reactor.CommandLine

def successMark : String := "✓"

def failureMark : String := "✗"

def warningMark : String := "⚠"

/-- The lines of a text, each ended. -/
def unlines (lines : List String) : String :=
  String.join (lines.map (· ++ "\n"))

def shownFingerprintLength : Nat :=
  12

/-- The margin of a module that many levels below the root. -/
def margin (depth : Nat) : String :=
  String.ofList (List.replicate (2 * depth) ' ')

def pluginLabel (plugin : PluginConfig) : String :=
  "plugin " ++ plugin.id ++ (if plugin.isSkipped then " (skipped)" else "")

def pluginLines (pad : String) (plugin : PluginConfig) : List String :=
  (pad ++ "    " ++ pluginLabel plugin) ::
    plugin.options.entries.map fun (key, value) ↦ pad ++ "      " ++ key ++ ": " ++ value.display

def projectLines (depth : Nat) (project : Project) (fingerprint : String) : List String :=
  let pad := margin depth
  let short := String.ofList (fingerprint.toList.take shownFingerprintLength)
  (pad ++ successMark ++ " " ++ project.id ++ " (" ++ project.packaging.name ++ ") " ++ short) ::
    (project.effectiveProperties.entries.map fun (name, value) ↦
      pad ++ "    " ++ name ++ " = " ++ value) ++
    project.effectivePlugins.flatMap (pluginLines pad)

def failedLine (depth : Nat) (name : String) (failure : Failure) : String :=
  margin depth ++ failureMark ++ " " ++ name ++ ": " ++ failure.rootCause.message

mutual

def treeLines : ProjectTree → List String
  | ⟨path, fingerprint, project, modules⟩ =>
    projectLines path.depth project fingerprint ++ entryLines (path.depth + 1) modules

/-- The lines on modules that many levels below the root. -/
def entryLines (depth : Nat) : List ModuleEntry → List String
  | [] => []
  | .resolved tree :: rest => treeLines tree ++ entryLines depth rest
  | .failed name _ failure :: rest => failedLine depth name failure :: entryLines depth rest

end

def treeReport (tree : ProjectTree) (elapsed : Nanoseconds) : String :=
  unlines (treeLines tree ++
    ["", successMark ++ " Resolved " ++ tree.project.id,
      s!"  Projects: {tree.walk.length}",
      s!"  Failed: {tree.failureList.length}",
      "  Elapsed: " ++ elapsedText elapsed])

/-- A number with blanks in front, three characters wide at least. -/
def alignedNumber (n : Nat) : String :=
  let digits := toString n
  String.ofList (List.replicate (3 - digits.length) ' ') ++ digits

def orderLines (n : Nat) : List ProjectTree → List String
  | [] => []
  | tree :: rest =>
    (alignedNumber n ++ ". " ++ tree.project.id ++ " → " ++ tree.project.baseDir) ::
      orderLines (n + 1) rest

def orderReport (tree : ProjectTree) : String :=
  unlines (orderLines 1 tree.walk)

def orderJson (tree : ProjectTree) : Json :=
  .array (tree.walk.map fun tree ↦
    .object [("path", .string tree.path.text), ("id", .string tree.project.id),
      ("fingerprint", .string tree.fingerprint)])

def effectiveJson (tree : ProjectTree) : Json :=
  .object [("path", .string tree.path.text), ("fingerprint", .string tree.fingerprint),
    ("project", tree.project.toJson)]

def errorLine (message : String) : String :=
  failureMark ++ " " ++ message ++ "\n"

def warningLine (entry : ModuleFailure) : String :=
  warningMark ++ " " ++ entry.path.text ++ ": " ++ entry.failure.rootCause.message ++ "\n"

end Reactor.CommandLine

import Reactor.Descriptor.Basic
import Reactor.Elapsed
import Reactor.Format.Basic
import Reactor.ModulePath
import Reactor.Placeholder

/-!
# Failures

Everything that can go wrong between reading a descriptor and finishing a tree of modules, and the
words in which it is reported.
-/

namespace Reactor

/-- What is wrong with a descriptor or another input file. -/
inductive Fault where
  | noFormat
  | unreadable (failure : FormatFailure)
  | notMapping (found : Value.Kind)
  | notString (key : String) (found : Value.Kind)
  | noArtifactId
  | unknownPackaging (name : String)
  | badParent (text : String)
  | badParentPart (key : String)
  | noParentArtifactId
  | parentKind (found : Value.Kind)
  | propertiesKind (found : Value.Kind)
  | propertyKind (name : String) (found : Value.Kind)
  | modulesKind (found : Value.Kind)
  | badModuleName
  | repeatedModule (name : String)
  | modulesNotAllowed (packaging : Packaging)
  | pluginsKind (found : Value.Kind)
  | pluginKind (index : Nat) (found : Value.Kind)
  | noPluginId (index : Nat)
  | pluginOptionsKind (id : String) (found : Value.Kind)
  | pluginSkip (id : String) (shown : String)
  | repeatedPlugin (id : String)
  | placeholder (text : String) (failure : Placeholder.Failure)
  | siblingArtifactId (artifactId : String)
  | emptyVersionFile
  /-- A reason in the words of whoever found it. -/
  | stated (reason : String)

def Fault.message : Fault → String
  | noFormat => "no front-end handles this file type"
  | unreadable failure => failure.message
  | notMapping found => "descriptor must be a mapping, got " ++ found.name
  | notString key found => s!"'{key}' must be a string, got " ++ found.name
  | noArtifactId => "'artifactId' is required and must be non-empty"
  | unknownPackaging name => s!"unknown packaging '{name}'"
  | badParent text => s!"invalid parent reference '{text}'"
  | badParentPart key => s!"'parent.{key}' must be a non-empty string"
  | noParentArtifactId => "'parent.artifactId' is required"
  | parentKind found => "'parent' must be a string or mapping, got " ++ found.name
  | propertiesKind found => "'properties' must be a mapping, got " ++ found.name
  | propertyKind name found => s!"property '{name}' must be a scalar, got " ++ found.name
  | modulesKind found => "'modules' must be a sequence, got " ++ found.name
  | badModuleName => "module names must be non-empty strings"
  | repeatedModule name => s!"module '{name}' is listed more than once"
  | modulesNotAllowed packaging =>
    "packaging '" ++ packaging.name ++ "' cannot declare modules (only 'pom' aggregates)"
  | pluginsKind found => "'plugins' must be a sequence, got " ++ found.name
  | pluginKind index found => s!"plugins[{index}] must be a mapping, got " ++ found.name
  | noPluginId index => s!"plugins[{index}] requires a non-empty 'id'"
  | pluginOptionsKind id found => s!"plugin '{id}' options must be a mapping, got " ++ found.name
  | pluginSkip id shown => s!"plugin '{id}' skip must be a boolean, got {shown}"
  | repeatedPlugin id => s!"plugin '{id}' is declared more than once"
  | placeholder text failure => s!"in '{text}': " ++ failure.message
  | siblingArtifactId artifactId =>
    s!"artifactId '{artifactId}' is already used by a sibling module"
  | emptyVersionFile => "version file is empty"
  | stated reason => reason

/-- Why a project or a tree of projects could not be resolved. -/
inductive Failure where
  /-- No readable descriptor is at the path. -/
  | notFound (path : String)
  | malformed (path : String) (fault : Fault)
  /-- The projects of the chain lead back to one that is on it already. -/
  | cyclic (chain : List String)
  /-- No ancestor at hand is the one that the project refers to. -/
  | unresolvedParent (project : String) (parent : ParentRef)
  | undefinedProperty (project : String) (name : String)
  /-- The failure of one module of a tree. -/
  | module (path : ModulePath) (cause : Failure)
  | timeout (path : ModulePath) (elapsed : Nanoseconds)

namespace Failure

def message : Failure → String
  | notFound path => s!"descriptor not found: {path}"
  | malformed path fault => s!"malformed descriptor {path}: " ++ fault.message
  | cyclic chain => "cyclic inheritance: " ++ chainText chain
  | unresolvedParent project parent =>
    "parent '" ++ parent.text ++ s!"' of '{project}' is not among the resolved ancestors"
  | undefinedProperty project name => s!"property '{name}' referenced by '{project}' is not defined"
  | module path cause => "module '" ++ path.text ++ "' failed: " ++ cause.message
  | timeout path elapsed =>
    "resolution timed out after " ++ elapsed.text ++ " while resolving '" ++ path.text ++ "'"

/-- The failure without the modules that it is wrapped in. -/
def rootCause : Failure → Failure
  | module _ cause => cause.rootCause
  | failure => failure

def kind : Failure → String
  | notFound _ => "NotFound"
  | malformed _ _ => "MalformedDescriptor"
  | cyclic _ => "CyclicInheritance"
  | unresolvedParent _ _ => "UnresolvedParent"
  | undefinedProperty _ _ => "PropertyNotFound"
  | module _ _ => "ModuleLoadError"
  | timeout _ _ => "Timeout"

/-- The failure as a JSON document, which tells the root cause. -/
def toJson (failure : Failure) : Json :=
  .object [("kind", .string failure.rootCause.kind), ("message", .string failure.rootCause.message)]

/-- The message of a failure followed by those of the failures that it wraps. -/
def chainMessage : Failure → String
  | module path cause => (module path cause).message ++ ": " ++ cause.chainMessage
  | failure => failure.message

end Failure

/-- The failure of one module, and where the module is. -/
structure ModuleFailure where
  path : ModulePath
  failure : Failure

/-- All modules that failed, in depth-first order. -/
structure FailureReport where
  failures : List ModuleFailure

namespace FailureReport

/-- The report as a text of one line per failed module. -/
def text (report : FailureReport) : String :=
  s!"{report.failures.length} module(s) failed to resolve:\n" ++
    String.join (report.failures.map fun entry ↦
      "  " ++ entry.path.text ++ ": " ++ entry.failure.rootCause.message ++ "\n")

def toJson (report : FailureReport) : Json :=
  .object [("failures", .array (report.failures.map fun entry ↦
    .object [("path", entry.path.toJson), ("error", entry.failure.toJson)]))]

end FailureReport

end Reactor

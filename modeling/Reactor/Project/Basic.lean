import Reactor.Config
import Reactor.Digest.Sha256

/-!
# Resolved projects

A resolved project is a descriptor together with what it inherits. It holds the chain of its
ancestors from the root down; every ancestor is itself a resolved project with a shorter chain.
-/

namespace Reactor

/-- A project with its effective configuration. -/
structure Project where
  /-- The descriptor as loaded. -/
  declared : Descriptor
  modelVersion : Option String
  groupId : Option String
  artifactId : String
  version : Option String
  packaging : Packaging
  /-- The modules in the order in which they are to be built. -/
  modules : List String
  /-- The plugins that the project itself declares. -/
  plugins : List PluginConfig
  effectiveProperties : SortedMap String
  effectivePlugins : List PluginConfig
  /-- The projects that this one inherits from, the root first. -/
  ancestors : List Project
  /-- The path of the descriptor file. -/
  location : String

namespace Project

instance : Inhabited Project :=
  ⟨⟨default, none, none, "", none, default, [], [], ∅, [], [], ""⟩⟩

def id (project : Project) : String :=
  coordinatesText project.groupId project.artifactId project.version

def parent? (project : Project) : Option Project :=
  project.ancestors.getLast?

def isReferencedBy (project : Project) (ref : ParentRef) : Bool :=
  ref.designates project.groupId project.artifactId project.version

/-- The directory of the project's descriptor. -/
def baseDir (project : Project) : String :=
  project.declared.baseDir

def effectivePlugin? (project : Project) (id : String) : Option PluginConfig :=
  project.effectivePlugins.find? (·.id = id)

def selfAndAncestors (project : Project) : List Project :=
  project :: project.ancestors.reverse

/-- The levels of the project, the root first. -/
def levels (project : Project) : List Project :=
  project.ancestors ++ [project]

/-- The project as a JSON document. Ancestors are told by their ids only. -/
def toJson (project : Project) : Json :=
  .object (Json.entry? "modelVersion" project.modelVersion ++
    Json.entry? "groupId" project.groupId ++ [("artifactId", .string project.artifactId)] ++
    Json.entry? "version" project.version ++
    [("packaging", .string project.packaging.name), ("modules", .strings project.modules),
      ("effectiveProperties", .stringMap project.effectiveProperties),
      ("effectivePlugins", .array (project.effectivePlugins.map PluginConfig.toJson)),
      ("ancestors", .strings (project.ancestors.map Project.id)),
      ("location", .string project.location)])

/-- How many hexadecimal digits of a digest make a fingerprint. -/
def fingerprintLength : Nat :=
  20

/-- A short digest of the effective configuration, by which later steps see whether it changed. -/
def fingerprint (project : Project) : String :=
  String.ofList ((Digest.sha256Hex project.toJson.compact).toList.take fingerprintLength)

end Project

end Reactor

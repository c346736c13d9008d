import Reactor.Text.Blank
import Reactor.Text.Split
import Reactor.Value.Basic
import Reactor.Workspace.Path

/-!
# Descriptors

A descriptor is what one project says about itself: its coordinates, the parent it inherits from,
its properties, its modules and its plugins. Everything here is as written, before any inheritance.
-/

namespace Reactor

inductive Packaging where
  | jar
  | pom
  | war
  | ear
  | mavenPlugin
  | bundle
  deriving DecidableEq, Repr

namespace Packaging

/-- The packaging of a project that states none. -/
instance : Inhabited Packaging :=
  ⟨jar⟩

def name : Packaging → String
  | jar => "jar"
  | pom => "pom"
  | war => "war"
  | ear => "ear"
  | mavenPlugin => "maven-plugin"
  | bundle => "bundle"

def all : List Packaging :=
  [jar, pom, war, ear, mavenPlugin, bundle]

def ofName? (name : String) : Option Packaging :=
  all.find? (·.name = name)

def allowsModules (packaging : Packaging) : Bool :=
  packaging = pom

theorem ofName?_name (packaging : Packaging) : ofName? packaging.name = some packaging := by
  cases packaging <;> decide

end Packaging

/-- `[group:]artifact[:version]`. -/
def coordinatesText (groupId : Option String) (artifactId : String) (version : Option String) :
    String :=
  (groupId.elim "" (· ++ ":")) ++ artifactId ++ (version.elim "" (":" ++ ·))

/-- A reference to the project that a descriptor inherits from. -/
structure ParentRef where
  groupId : Option String
  artifactId : String
  version : Option String
  /-- Where to look for the parent's descriptor, seen from the directory of the child's. -/
  relativePath : Option String
  deriving DecidableEq, Repr, Inhabited

namespace ParentRef

/-- Where a parent is looked for if its reference does not say: one directory up. -/
def defaultRelativePath : String :=
  ".."

/-- Where to look for the parent's descriptor. -/
def searchPath (ref : ParentRef) : String :=
  ref.relativePath.getD defaultRelativePath

/-- The reference in short form: `artifact`, `group:artifact` or `group:artifact:version`. No part
may be blank. -/
def ofCoordinates? (text : String) : Option ParentRef :=
  let parts := (Text.split ':' text).map Text.trim
  if parts.any String.isEmpty then none
  else
    match parts with
    | [artifactId] => some ⟨none, artifactId, none, none⟩
    | [groupId, artifactId] => some ⟨some groupId, artifactId, none, none⟩
    | [groupId, artifactId, version] => some ⟨some groupId, artifactId, some version, none⟩
    | _ => none

/-- Two optional coordinates agree unless both are stated and differ. -/
def agree (a b : Option String) : Bool :=
  match a, b with
  | some a, some b => a = b
  | _, _ => true

/-- Whether a reference designates the project with the given coordinates. -/
def designates (ref : ParentRef) (groupId : Option String) (artifactId : String)
    (version : Option String) : Bool :=
  ref.artifactId = artifactId && agree ref.groupId groupId && agree ref.version version

def text (ref : ParentRef) : String :=
  coordinatesText ref.groupId ref.artifactId ref.version

def toJson (ref : ParentRef) : Json :=
  .object (Json.entry? "groupId" ref.groupId ++ [("artifactId", .string ref.artifactId)] ++
    Json.entry? "version" ref.version ++ Json.entry? "relativePath" ref.relativePath)

end ParentRef

/-- What one descriptor says about one plugin. -/
structure PluginConfig where
  id : String
  /-- Settings of the plugin, whose meaning is the plugin's own business. -/
  options : SortedMap Value
  /-- Whether to skip the plugin, if this level says so. -/
  skip : Option Bool
  deriving Inhabited

namespace PluginConfig

/-- Whether a plugin is skipped. It is not unless some level said so. -/
def isSkipped (plugin : PluginConfig) : Bool :=
  plugin.skip.getD false

/-- The configuration as a JSON document. Empty options and an unset flag are left out. -/
def toJson (plugin : PluginConfig) : Json :=
  let options :=
    if plugin.options.isEmpty then []
    else [("options", Json.object (plugin.options.map Value.toJson).entries)]
  .object (("id", .string plugin.id) :: options ++
    (plugin.skip.map fun skip ↦ ("skip", Json.bool skip)).toList)

end PluginConfig

/-- The descriptor of one project. -/
structure Descriptor where
  modelVersion : Option String
  groupId : Option String
  artifactId : String
  version : Option String
  packaging : Packaging
  parentRef : Option ParentRef
  properties : SortedMap String
  /-- The modules in the order in which they are to be built. -/
  modules : List String
  plugins : List PluginConfig
  /-- The path of the file that holds the descriptor. -/
  location : String
  deriving Inhabited

namespace Descriptor

/-- The directory of a descriptor's file, or the current one if the location names no file. -/
def baseDir (d : Descriptor) : String :=
  (Path.parent? d.location).getD "."

def toJson (d : Descriptor) : Json :=
  .object (Json.entry? "modelVersion" d.modelVersion ++ Json.entry? "groupId" d.groupId ++
    [("artifactId", .string d.artifactId)] ++ Json.entry? "version" d.version ++
    [("packaging", .string d.packaging.name)] ++
    (d.parentRef.map fun ref ↦ ("parent", ref.toJson)).toList ++
    [("properties", .stringMap d.properties), ("modules", .strings d.modules),
      ("plugins", .array (d.plugins.map PluginConfig.toJson)), ("location", .string d.location)])

end Descriptor

end Reactor

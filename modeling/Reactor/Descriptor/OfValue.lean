import Reactor.Failure

/-!
# Descriptors from values

The checks that turn a value, as a format read it, into a descriptor. They run in a fixed order, and
the first one that fails decides the fault: artifact id, packaging, parent, properties, modules, the
other coordinates, plugins. Keys that have no meaning are passed over.
-/

namespace Reactor.Descriptor

open Text (trim)

abbrev Fields := SortedMap Value

def optionalString (fields : Fields) (key : String) : Except Fault (Option String) :=
  match fields.get? key with
  | none => .ok none
  | some (.string text) => .ok (some text)
  | some other => .error (.notString key other.kind)

/-- A string without the blanks at its ends, unless nothing would be left. -/
def nonBlank? (text : String) : Option String :=
  let trimmed := trim text
  if trimmed.isEmpty then none else some trimmed

def nonBlankString? : Value → Option String
  | .string text => nonBlank? text
  | _ => none

def readArtifactId (fields : Fields) : Except Fault String := do
  match (← optionalString fields "artifactId").bind nonBlank? with
  | some artifactId => .ok artifactId
  | none => .error .noArtifactId

def readPackaging (fields : Fields) : Except Fault Packaging := do
  match ← optionalString fields "packaging" with
  | none => .ok default
  | some name =>
    match Packaging.ofName? name with
    | some packaging => .ok packaging
    | none => .error (.unknownPackaging name)

def readParentPart (fields : Fields) (key : String) : Except Fault (Option String) :=
  match fields.get? key with
  | none => .ok none
  | some value =>
    match nonBlankString? value with
    | some text => .ok (some text)
    | none => .error (.badParentPart key)

def readParent : Value → Except Fault ParentRef
  | .string text =>
    match ParentRef.ofCoordinates? text with
    | some ref => .ok ref
    | none => .error (.badParent text)
  | .mapping entries => do
    let fields := SortedMap.ofList entries
    match ← readParentPart fields "artifactId" with
    | none => .error .noParentArtifactId
    | some artifactId => do
      let groupId ← readParentPart fields "groupId"
      let version ← readParentPart fields "version"
      let relativePath ← readParentPart fields "relativePath"
      .ok ⟨groupId, artifactId, version, relativePath⟩
  | other => .error (.parentKind other.kind)

def readParent? (fields : Fields) : Except Fault (Option ParentRef) :=
  match fields.get? "parent" with
  | none => .ok none
  | some value => some <$> readParent value

def readPropertyList : List (String × Value) → Except Fault (List (String × String))
  | [] => .ok []
  | (name, value) :: rest =>
    match value.scalarText? with
    | some text => ((name, text) :: ·) <$> readPropertyList rest
    | none => .error (.propertyKind name value.kind)

def readProperties (fields : Fields) : Except Fault (SortedMap String) :=
  match fields.get? "properties" with
  | none => .ok ∅
  | some (.mapping entries) =>
    SortedMap.ofList <$> readPropertyList (SortedMap.ofList entries).entries
  | some other => .error (.propertiesKind other.kind)

/-- The module names in a list of values, none of which may be among those already seen. -/
def readModuleList (seen : List String) : List Value → Except Fault (List String)
  | [] => .ok []
  | value :: rest =>
    match nonBlankString? value with
    | none => .error .badModuleName
    | some name =>
      if seen.contains name then .error (.repeatedModule name)
      else (name :: ·) <$> readModuleList (name :: seen) rest

def readModules (fields : Fields) : Except Fault (List String) :=
  match fields.get? "modules" with
  | none => .ok []
  | some (.sequence items) => readModuleList [] items
  | some other => .error (.modulesKind other.kind)

/-- A flag: a boolean, or one of the words `true` and `false`. -/
def readSkip (id : String) : Value → Except Fault Bool
  | .bool flag => .ok flag
  | .string "true" => .ok true
  | .string "false" => .ok false
  | other => .error (.pluginSkip id other.display)

/-- The options of a plugin, the skip flag among them included. -/
def readOptions (id : String) (fields : Fields) : Except Fault Fields :=
  match fields.get? "options" with
  | none => .ok ∅
  | some (.mapping entries) => .ok (SortedMap.ofList entries)
  | some other => .error (.pluginOptionsKind id other.kind)

/-- The plugin at a position of the list of plugins. A skip flag among the options counts if there
is none beside them, and it never stays among the options. -/
def readPlugin (index : Nat) : Value → Except Fault PluginConfig
  | .mapping entries =>
    let fields := SortedMap.ofList entries
    match (fields.get? "id").bind nonBlankString? with
    | none => .error (.noPluginId index)
    | some id => do
      let options ← readOptions id fields
      let skip ← ((fields.get? "skip").or (options.get? "skip")).mapM (readSkip id)
      .ok ⟨id, options.erase "skip", skip⟩
  | other => .error (.pluginKind index other.kind)

/-- The plugins in a list of values, of which the first is at position `index`. Their ids must not
be among those already seen. -/
def readPluginList (index : Nat) (seen : List String) :
    List Value → Except Fault (List PluginConfig)
  | [] => .ok []
  | value :: rest => do
    let plugin ← readPlugin index value
    if seen.contains plugin.id then .error (.repeatedPlugin plugin.id)
    else (plugin :: ·) <$> readPluginList (index + 1) (plugin.id :: seen) rest

def readPlugins (fields : Fields) : Except Fault (List PluginConfig) :=
  match fields.get? "plugins" with
  | none => .ok []
  | some (.sequence items) => readPluginList 0 [] items
  | some other => .error (.pluginsKind other.kind)

/-- The descriptor in the entries of a mapping. A descriptor without a parent also has the global
properties, hidden by its own. -/
def ofFields (globals : SortedMap String) (location : String) (fields : Fields) :
    Except Fault Descriptor := do
  let artifactId ← readArtifactId fields
  let packaging ← readPackaging fields
  let parentRef ← readParent? fields
  let declared ← readProperties fields
  let properties := if parentRef.isNone then globals.overlay declared else declared
  let modules ← readModules fields
  if modules ≠ [] ∧ ¬packaging.allowsModules then .error (.modulesNotAllowed packaging)
  else do
    let modelVersion ← optionalString fields "modelVersion"
    let groupId ← optionalString fields "groupId"
    let version ← optionalString fields "version"
    let plugins ← readPlugins fields
    .ok { modelVersion, groupId, artifactId, version, packaging, parentRef, properties, modules,
          plugins, location }

def ofValue (globals : SortedMap String) (location : String) (value : Value) :
    Except Failure Descriptor :=
  (match value with
  | .mapping entries => ofFields globals location (SortedMap.ofList entries)
  | other => .error (.notMapping other.kind)).mapError (.malformed location)

end Reactor.Descriptor

import Reactor.Descriptor.Basic
import Reactor.Json.Parser
import Reactor.Value.Document

/-!
# Stored references and plugin configurations

Reading back what `ParentRef.toJson` and `PluginConfig.toJson` write. Unlike a descriptor, a stored
record must not repeat a key that it knows; keys that it does not know are passed over, and what
stands under them need only be well formed. A record may also be written as the array of its fields
in order.
-/

namespace Reactor

namespace Json

def valuesAt (key : String) (entries : List (String × Json)) : List Json :=
  (entries.filter (·.1 = key)).map Prod.snd

/-- An optional string: absent, null or a string, and written once at most. -/
def optionalText? : List Json → Option (Option String)
  | [] => some none
  | [.null] => some none
  | [.string text] => some (some text)
  | _ => none

end Json

namespace ParentRef

def ofFields? (groupId artifactId version relativePath : List Json) : Option ParentRef :=
  match artifactId with
  | [.string artifactId] => do
    let groupId ← Json.optionalText? groupId
    let version ← Json.optionalText? version
    let relativePath ← Json.optionalText? relativePath
    some ⟨groupId, artifactId, version, relativePath⟩
  | _ => none

def ofJson? : Json → Option ParentRef
  | .object entries =>
    ofFields? (Json.valuesAt "groupId" entries) (Json.valuesAt "artifactId" entries)
      (Json.valuesAt "version" entries) (Json.valuesAt "relativePath" entries)
  | .array [groupId, artifactId, version, relativePath] =>
    ofFields? [groupId] [artifactId] [version] [relativePath]
  | _ => none

def storedKeys : List String :=
  ["groupId", "artifactId", "version", "relativePath"]

def ofText? (text : String) : Option ParentRef :=
  (Json.parseKnown (.ofRecord 0 storedKeys) text).toOption.bind ofJson?

end ParentRef

namespace PluginConfig

/-- Options, as they are written: an object, or nothing. -/
def optionsOf? : List Json → Option (SortedMap Value)
  | [] => some ∅
  | [.object entries] => SortedMap.ofList <$> Value.entriesLenient? entries
  | _ => none

/-- A skip flag, as it is written: a boolean, null, or nothing. -/
def skipOf? : List Json → Option (Option Bool)
  | [] => some none
  | [.null] => some none
  | [.bool flag] => some (some flag)
  | _ => none

def ofFields? (id options skip : List Json) : Option PluginConfig :=
  match id with
  | [.string id] => do
    let options ← optionsOf? options
    let skip ← skipOf? skip
    some ⟨id, options, skip⟩
  | _ => none

def ofJson? : Json → Option PluginConfig
  | .object entries =>
    ofFields? (Json.valuesAt "id" entries) (Json.valuesAt "options" entries)
      (Json.valuesAt "skip" entries)
  | .array fields =>
    if fields.length ≤ 3 then
      ofFields? (fields.take 1) ((fields.drop 1).take 1) ((fields.drop 2).take 1)
    else none
  | _ => none

def listOfJson? : Json → Option (List PluginConfig)
  | .array items => items.mapM ofJson?
  | _ => none

def storedKeys : List String :=
  ["id", "options", "skip"]

def listOfText? (text : String) : Option (List PluginConfig) :=
  (Json.parseKnown (.ofRecord 1 storedKeys) text).toOption.bind listOfJson?

end PluginConfig

end Reactor

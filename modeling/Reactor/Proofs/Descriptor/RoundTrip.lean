import Reactor.Format.Json
import Reactor.Proofs.Descriptor.Written
import Reactor.Proofs.Json.ReadBack

/-!
# The round trip of a descriptor

A descriptor is written as a document, and the document as a compact text. The loader that read the
descriptor reads it again from what was written, whether the document is taken as it is or its text
is parsed first. The text is parsed as the same document if all its numbers are integers, which they
are unless a plugin has a floating-point option.
-/

namespace Reactor

/-! ## Numbers in documents -/

theorem ParentRef.isExact (ref : ParentRef) : ref.toJson.IsExact := by
  apply Json.IsExact.object
  simp only [List.forall_mem_append, List.forall_mem_cons]
  exact ⟨⟨⟨Json.isExact_of_mem_entry? _ _, .string _, List.forall_mem_nil _⟩,
    Json.isExact_of_mem_entry? _ _⟩, Json.isExact_of_mem_entry? _ _⟩

theorem Descriptor.isExact {d : Descriptor} (h : ∀ plugin ∈ d.plugins, plugin.IsFloatFree) :
    d.toJson.IsExact := by
  have hparent : ∀ entry ∈ Json.optional "parent" ParentRef.toJson d.parentRef, entry.2.IsExact :=
    Json.forall_mem_optional fun ref _ ↦ ref.isExact
  have hplugins : (Json.array (d.plugins.map PluginConfig.toJson)).IsExact :=
    .array (List.forall_mem_map.2 fun plugin hplugin ↦ (h plugin hplugin).isExact)
  rw [Descriptor.toJson]
  apply Json.IsExact.object
  simp only [List.forall_mem_append, List.forall_mem_cons]
  exact ⟨⟨⟨⟨⟨⟨Json.isExact_of_mem_entry? _ _, Json.isExact_of_mem_entry? _ _⟩, .string _,
    List.forall_mem_nil _⟩, Json.isExact_of_mem_entry? _ _⟩, .string _, List.forall_mem_nil _⟩,
    hparent⟩, Json.isExact_stringMap _, Json.isExact_strings _, hplugins, .string _,
    List.forall_mem_nil _⟩

/-! ## Reading what was written -/

namespace Descriptor

variable {globals : SortedMap String} {location : String} {value : Value} {d : Descriptor}

theorem readJson_compact (h : ∀ plugin ∈ d.plugins, plugin.IsFloatFree)
    (hdenotes : Json.Denotes d.toJson d.toValue) (hdepth : d.toJson.depth ≤ Json.maxDepth) :
    Format.readJson d.toJson.compact = .ok d.toValue := by
  rw [Format.readJson, Json.parse_compact (isExact h) hdepth]
  change (Value.ofJson d.toJson).mapError FormatFailure.unsupported = _
  rw [hdenotes.ofJson]
  rfl

/-- A descriptor that a loader read from a value without floating-point options is read again from
the value that its document denotes, by the same loader at the same location. Both readers of
documents find that value in the document, and so does the reader of texts in its compact text,
unless the document is nested too deeply for a text. The mappings of the value are in key order, as
in every value that a format returns. -/
theorem ofValue_of_written (hordered : value.IsOrdered)
    (hfloats : ∀ options ∈ value.pluginOptions, options.FloatFree)
    (h : ofValue globals location value = .ok d) :
    ∃ written, ofValue globals location written = .ok d ∧
      Value.ofJson d.toJson = .ok written ∧ Value.ofJsonLenient? d.toJson = some written ∧
        (d.toJson.depth ≤ Json.maxDepth → Format.readJson d.toJson.compact = .ok written) := by
  have hdenotes : Json.Denotes d.toJson d.toValue := denotes (isOrdered_of_ofValue hordered h)
  have hfloatFree := isFloatFree_of_ofValue hfloats h
  exact ⟨d.toValue, ofValue_toValue (isLoaded_of_ofValue h), hdenotes.ofJson, hdenotes.lenient,
    readJson_compact hfloatFree hdenotes⟩

/-- A value in a loose form: names with blanks at their ends, a parent in one text, and the flag of
a plugin among the options of it. -/
def looseValue : Value :=
  .mapping [("artifactId", .string " web "), ("parent", .string "org: base :1"),
    ("plugins", .sequence [.mapping [("id", .string "lint "),
      ("options", .mapping [("level", .integer 2), ("skip", .string "true")])]]),
    ("properties", .mapping [("secure", .bool true)])]

def looseDescriptor : Descriptor :=
  { (default : Descriptor) with
    artifactId := "web"
    parentRef := some ⟨some "org", "base", some "1", none⟩
    properties := SortedMap.ofList [("secure", "true")]
    plugins := [⟨"lint", SortedMap.ofList [("level", .integer 2)], some true⟩]
    location := "/w/project.json" }

theorem ofValue_looseValue :
    ofValue (SortedMap.ofList [("os", "linux")]) "/w/project.json" looseValue =
      .ok looseDescriptor := by
  rfl

theorem isOrdered_looseValue : looseValue.IsOrdered := by
  have hread : Value.ofJson looseValue.toJson = .ok looseValue := by rfl
  exact Value.isOrdered_of_ofJson hread

/-- The value that is read from the text is another one, but it is read as the same descriptor. -/
theorem ofValue_of_written_looseValue : ∃ written, written ≠ looseValue ∧
    Format.readJson looseDescriptor.toJson.compact = .ok written ∧
      ofValue (SortedMap.ofList [("os", "linux")]) "/w/project.json" looseValue =
        .ok looseDescriptor ∧
      ofValue (SortedMap.ofList [("os", "linux")]) "/w/project.json" written =
        .ok looseDescriptor := by
  have hfloats : ∀ options ∈ looseValue.pluginOptions, options.FloatFree := by
    intro options hoptions
    obtain rfl := List.mem_singleton.1 hoptions
    exact .mapping (by simp [Value.FloatFree.integer, Value.FloatFree.string])
  obtain ⟨written, hread, hdocument, -, htext⟩ :=
    ofValue_of_written isOrdered_looseValue hfloats ofValue_looseValue
  have hdepth : looseDescriptor.toJson.depth ≤ Json.maxDepth := by decide
  refine ⟨written, ?_, htext hdepth, ofValue_looseValue, hread⟩
  rintro rfl
  have hlocation : (Value.ofJson looseDescriptor.toJson).toOption.bind (Value.field? "location") =
      some (.string "/w/project.json") := by
    rfl
  rw [hdocument] at hlocation
  cases hlocation

end Descriptor

end Reactor

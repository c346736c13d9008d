import Reactor.Proofs.Descriptor.Loading
import Reactor.Proofs.SortedMap

/-!
# Global properties of descriptors

A loader adds its global properties to every descriptor that refers to no parent, as if they were
declared there, and does nothing else with them. So a descriptor is loaded as it would be without
global properties, which are then laid below what it declares itself.
-/

namespace Reactor

namespace Descriptor

variable {globals : SortedMap String} {d : Descriptor}

/-- The descriptor with global properties, if it refers to no parent. Its own properties hide
them. -/
def withGlobals (globals : SortedMap String) (d : Descriptor) : Descriptor :=
  { d with properties := if d.parentRef.isNone then globals.overlay d.properties else d.properties }

theorem withGlobals_of_some {ref : ParentRef} (href : d.parentRef = some ref) :
    d.withGlobals globals = d := by
  rw [withGlobals, if_neg (by simp [href])]

/-- At the root of a chain, a name means what the descriptor declares, and otherwise the global
property. -/
theorem get?_properties_withGlobals (href : d.parentRef = none) (name : String) :
    (d.withGlobals globals).properties.get? name =
      (d.properties.get? name).or (globals.get? name) := by
  have hproperties : (d.withGlobals globals).properties = globals.overlay d.properties := by
    rw [withGlobals, if_pos (by simp [href])]
  rw [hproperties, SortedMap.get?_overlay]

theorem ofFields_eq_map (globals : SortedMap String) (location : String) (fields : Fields) :
    ofFields globals location fields = withGlobals globals <$> ofFields ∅ location fields := by
  unfold ofFields
  simp only [map_bind, SortedMap.empty_overlay, ite_self]
  refine bind_congr fun artifactId ↦ bind_congr fun packaging ↦ bind_congr fun parentRef ↦
    bind_congr fun declared ↦ bind_congr fun modules ↦ ?_
  split
  · rfl
  · simp only [map_bind]
    rfl

theorem ofValue_eq_map (globals : SortedMap String) (location : String) (value : Value) :
    ofValue globals location value = withGlobals globals <$> ofValue ∅ location value := by
  unfold ofValue
  cases value with
  | mapping entries =>
    simp only [ofFields_eq_map globals]
    cases ofFields ∅ location (SortedMap.ofList entries) <;> rfl
  | _ => rfl

end Descriptor

namespace Loader

variable {loader : Loader} {fs : FileSystem} {path : String} {d : Descriptor}

/-- The loader without its global properties. -/
def plain (loader : Loader) : Loader :=
  { loader with globals := ∅ }

theorem read_eq_map (loader : Loader) (fs : FileSystem) (file text : String) :
    loader.read fs file text =
      Descriptor.withGlobals loader.globals <$> loader.plain.read fs file text := by
  unfold read plain
  simp only
  cases Format.ofPath? loader.formats file with
  | none => rfl
  | some format =>
    simp only [map_bind]
    exact bind_congr fun value ↦ Descriptor.ofValue_eq_map loader.globals file value

/-- The descriptor that is written in a file, without any global property. -/
def written? (loader : Loader) (fs : FileSystem) (file : String) : Option Descriptor :=
  (fs.readText? file).bind fun text ↦ (loader.plain.read fs file text).toOption

/-- A loaded descriptor is the one that is written in its file, with the global properties. -/
theorem exists_written_of_load (h : loader.load fs path = .ok d) :
    ∃ written, loader.written? fs d.location = some written ∧
      d = written.withGlobals loader.globals := by
  obtain ⟨-, text, htext, hread⟩ := load_eq_ok_iff.1 h
  rw [read_eq_map] at hread
  obtain ⟨written, hwritten, hglobals⟩ := map_eq_ok.1 hread
  refine ⟨written, ?_, hglobals.symm⟩
  rw [written?, htext, Option.bind_some, hwritten]
  rfl

end Loader

end Reactor

import Reactor.Descriptor.OfValue
import Reactor.Workspace.Branch

/-!
# Loading descriptors

A loader finds the descriptor file that a path designates, reads it in the format of its extension
and checks what was read. The location of a loaded descriptor is always a canonical path.
-/

namespace Reactor

/-- What descriptors are loaded with. -/
structure Loader where
  formats : List Format
  /-- Properties of every descriptor that has no parent. -/
  globals : SortedMap String

namespace Loader

def locate? (loader : Loader) (fs : FileSystem) (path : String) : Option String :=
  Format.locate? loader.formats fs path

def read (loader : Loader) (fs : FileSystem) (file text : String) : Except Failure Descriptor :=
  match Format.ofPath? loader.formats file with
  | none => .error (.malformed file .noFormat)
  | some format => do
    let value ← (format.read fs file text).mapError fun failure ↦
      .malformed file (.unreadable failure)
    Descriptor.ofValue loader.globals file value

def load (loader : Loader) (fs : FileSystem) (path : String) : Except Failure Descriptor :=
  match (loader.locate? fs path).bind fs.canonical? with
  | none => .error (.notFound path)
  | some file =>
    match fs.readText? file with
    | none => .error (.notFound path)
    | some text => loader.read fs file text

theorem isFile_of_locate {loader : Loader} {fs : FileSystem} {path file : String}
    (h : loader.locate? fs path = some file) : fs.isFile file = true := by
  unfold locate? Format.locate? at h
  split at h
  · rename_i hfile
    simp only [Option.some.injEq] at h
    exact h ▸ hfile
  · split at h
    · exact List.find?_some h
    · cases h

theorem location_of_ofFields {globals : SortedMap String} {location : String}
    {fields : SortedMap Value} {d : Descriptor}
    (h : Descriptor.ofFields globals location fields = .ok d) : d.location = location := by
  unfold Descriptor.ofFields at h
  simp only [bind, Except.bind] at h
  repeat' split at h
  all_goals first
    | cases h
      rfl
    | cases h

theorem location_of_ofValue {globals : SortedMap String} {location : String} {value : Value}
    {d : Descriptor} (h : Descriptor.ofValue globals location value = .ok d) :
    d.location = location := by
  unfold Descriptor.ofValue at h
  cases value with
  | mapping entries =>
    cases hfields : Descriptor.ofFields globals location (SortedMap.ofList entries) with
    | error fault =>
      simp only [hfields] at h
      cases h
    | ok found =>
      simp only [hfields] at h
      cases h
      exact location_of_ofFields hfields
  | _ => cases h

/-- The location of a loaded descriptor is the path of a regular file. -/
theorem location_mem_files {loader : Loader} {fs : FileSystem} {path : String} {d : Descriptor}
    (h : loader.load fs path = .ok d) : d.location ∈ fs.files := by
  unfold load at h
  split at h
  · cases h
  · rename_i file hfile
    obtain ⟨located, hlocated, hcanonical⟩ := Option.bind_eq_some_iff.1 hfile
    split at h
    · cases h
    · unfold read at h
      split at h
      · cases h
      · simp only [bind, Except.bind] at h
        split at h
        · cases h
        · rw [location_of_ofValue h]
          exact FileSystem.mem_files_of_isFile (isFile_of_locate hlocated) hcanonical

end Loader

end Reactor

import Reactor.Descriptor.Loader
import Reactor.Proofs.Outcome
import Reactor.Proofs.Workspace.CanonicalPath
import Reactor.Proofs.Workspace.RegularFiles

/-!
# Loading a descriptor again

A descriptor is determined by its canonical location: every path that designates the same file
loads the same descriptor, and so does the location itself.
-/

namespace Reactor.Loader

variable {loader : Loader} {fs : FileSystem} {path path' : String} {d d' : Descriptor}

theorem location_of_read {file text : String} (h : loader.read fs file text = .ok d) :
    d.location = file := by
  unfold read at h
  split at h
  · cases h
  · obtain ⟨value, -, hvalue⟩ := bind_eq_ok.1 h
    exact location_of_ofValue hvalue

/-- Whether a path designates the descriptor file at a canonical location. -/
def Designates (loader : Loader) (fs : FileSystem) (path location : String) : Prop :=
  (loader.locate? fs path).bind fs.canonical? = some location

/-- Loading succeeds if the path designates a file whose text reads as a descriptor. -/
theorem load_eq_ok_iff :
    loader.load fs path = .ok d ↔
      Designates loader fs path d.location ∧ ∃ text, fs.readText? d.location = some text ∧
        loader.read fs d.location text = .ok d := by
  unfold load Designates
  constructor
  · intro h
    cases hfile : (loader.locate? fs path).bind fs.canonical? with
    | none => simp [hfile] at h
    | some file =>
      simp only [hfile] at h
      cases htext : fs.readText? file with
      | none => simp [htext] at h
      | some text =>
        simp only [htext] at h
        obtain rfl := location_of_read h
        exact ⟨rfl, text, htext, h⟩
  · rintro ⟨hfile, text, htext, hread⟩
    simp only [hfile, htext, hread]

/-- Every path that designates the file of a loaded descriptor loads that descriptor. -/
theorem load_of_designates (h : loader.load fs path = .ok d)
    (h' : Designates loader fs path' d.location) : loader.load fs path' = .ok d :=
  load_eq_ok_iff.2 ⟨h', (load_eq_ok_iff.1 h).2⟩

/-- One location holds one descriptor. -/
theorem eq_of_location_eq (h : loader.load fs path = .ok d) (h' : loader.load fs path' = .ok d')
    (hlocation : d.location = d'.location) : d = d' := by
  have hsame := load_of_designates h (hlocation ▸ (load_eq_ok_iff.1 h').1)
  exact Except.ok.inj (hsame.symm.trans h')

theorem locate?_of_isFile (h : fs.isFile path = true) : loader.locate? fs path = some path := by
  rw [locate?, Format.locate?, if_pos h]

theorem locate?_of_missing (h : fs.resolve? path = none) : loader.locate? fs path = none := by
  simp [locate?, Format.locate?, FileSystem.isFile, FileSystem.content?, FileSystem.isDirectory, h]

theorem load_of_missing (h : fs.resolve? path = none) :
    loader.load fs path = .error (.notFound path) := by
  rw [load, locate?_of_missing h]
  rfl

/-- From the canonical path of a file, what the file holds is loaded. -/
theorem load_of_canonical {file text : String} (hcanonical : fs.canonical? file = some file)
    (htext : fs.readText? file = some text) : loader.load fs file = loader.read fs file text := by
  obtain ⟨content, hcontent, -⟩ := Option.bind_eq_some_iff.1 htext
  have hfile : fs.isFile file = true := by simp [FileSystem.isFile, hcontent]
  rw [load, locate?_of_isFile hfile, Option.bind_some, hcanonical]
  simp only [htext]

/-- Something could be read at the location of a loaded descriptor. -/
theorem isFile_location (h : loader.load fs path = .ok d) : fs.isFile d.location = true := by
  obtain ⟨-, text, htext, -⟩ := load_eq_ok_iff.1 h
  obtain ⟨content, hcontent, -⟩ := Option.bind_eq_some_iff.1 htext
  simp [FileSystem.isFile, hcontent]

/-- The location of a loaded descriptor is the canonical path of a regular file. -/
theorem isRegular_location (h : loader.load fs path = .ok d) : fs.IsRegular d.location := by
  obtain ⟨file, hfile, hcanonical⟩ := Option.bind_eq_some_iff.1 (load_eq_ok_iff.1 h).1
  have hisFile : fs.isFile file = true := isFile_of_locate hfile
  obtain ⟨location, hlocation, hregular⟩ := FileSystem.exists_canonical?_of_isFile hisFile
  obtain rfl := Option.some.inj (hlocation.symm.trans hcanonical)
  exact hregular

/-- The location of a loaded descriptor is its own canonical path. -/
theorem canonical?_location (hfs : fs.WellFormed) (h : loader.load fs path = .ok d) :
    fs.canonical? d.location = some d.location := by
  obtain ⟨file, -, hfile⟩ := Option.bind_eq_some_iff.1 (load_eq_ok_iff.1 h).1
  exact FileSystem.canonical?_canonical hfs hfile (isFile_location h)

theorem canonical_location (hfs : fs.WellFormed) (h : loader.load fs path = .ok d) :
    fs.canonical d.location = d.location := by
  rw [FileSystem.canonical, canonical?_location hfs h, Option.getD_some]

/-- The location of a loaded descriptor designates its file. -/
theorem designates_location (hfs : fs.WellFormed) (h : loader.load fs path = .ok d) :
    Designates loader fs d.location d.location := by
  rw [Designates, locate?_of_isFile (isFile_location h)]
  exact canonical?_location hfs h

theorem load_location (hfs : fs.WellFormed) (h : loader.load fs path = .ok d) :
    loader.load fs d.location = .ok d :=
  load_of_designates h (designates_location hfs h)

/-- A descriptor loaded from a located file stands at the canonical path of that file. -/
theorem canonical_of_load {file : String} (hfile : loader.locate? fs path = some file)
    (h : loader.load fs file = .ok d) : fs.canonical file = d.location := by
  have hlocation := (load_eq_ok_iff.1 h).1
  rw [Designates, locate?_of_isFile (isFile_of_locate hfile)] at hlocation
  have hcanonical : fs.canonical? file = some d.location := hlocation
  rw [FileSystem.canonical, hcanonical, Option.getD_some]

end Reactor.Loader

import Reactor.Format.Standard
import Reactor.Proofs.Descriptor.Faults
import Reactor.Proofs.Descriptor.Loading
import Reactor.Proofs.Workspace.Entries

/-!
# Looking for the descriptor of a directory

In a directory, the first file name counts under which there is a file. The file is then read in the
format of its canonical path. This is the format whose file name was looked for, as long as the
canonical path has the same extension. If the file that was found is a link, then the name of its
target decides, so that the file may be read in another format, or in none.
-/

namespace Reactor

namespace Format

variable {formats : List Format} {fs : FileSystem} {directory extension file : String}
  {format : Format}

/-- The path of the descriptor of a directory, if the descriptor has the given extension. -/
def descriptorPath (directory extension : String) : String :=
  Path.join directory (stem ++ "." ++ extension)

/-- Whether a format and one of its extensions are the first with which a directory has a
descriptor. Formats come before later formats, and extensions of a format before later ones. -/
def IsFirst (formats : List Format) (fs : FileSystem) (directory : String) (format : Format)
    (extension : String) : Prop :=
  fs.isFile (descriptorPath directory extension) = true ∧
    ∃ before after earlier later, formats = before ++ format :: after ∧
      format.extensions = earlier ++ extension :: later ∧
      (∀ other ∈ before, ∀ passed ∈ other.extensions,
        fs.isFile (descriptorPath directory passed) = false) ∧
      ∀ passed ∈ earlier, fs.isFile (descriptorPath directory passed) = false

theorem isName_of_notMem (hslash : '/' ∉ extension.toList) :
    FileSystem.IsName (stem ++ "." ++ extension) := by
  have hne (other : String) (hother : other.toList.head? ≠ some 'p') :
      stem ++ "." ++ extension ≠ other := by
    rintro rfl
    simp [stem] at hother
  refine ⟨hne "" (by decide), hne "." (by decide), hne ".." (by decide), ?_⟩
  simp [stem, hslash]

/-- Different extensions make different paths. -/
theorem descriptorPath_injective (directory : String) :
    Function.Injective (descriptorPath directory) := by
  have hrelative (extension : String) :
      ¬Path.isAbsolute (stem ++ "." ++ extension) = true := by
    simp [Path.isAbsolute, stem]
  intro extension extension' h
  rw [descriptorPath, descriptorPath, Path.join, Path.join, if_neg (hrelative _),
    if_neg (hrelative _)] at h
  split at h
  · exact (String.append_right_inj _).1 ((String.append_right_inj _).1 h)
  · exact (String.append_right_inj _).1 ((String.append_right_inj _).1 h)

theorem not_isFile_of_isDirectory (h : fs.isDirectory directory = true) :
    ¬fs.isFile directory = true := by
  obtain ⟨place, hplace, hdirectory⟩ := (Option.any_eq_true _ _).1 h
  have hnode := FileSystem.hasDirectory_iff.1 hdirectory
  simp [FileSystem.isFile, FileSystem.content?, hplace, hnode]

theorem locate?_of_isDirectory (h : fs.isDirectory directory = true) :
    locate? formats fs directory = (candidates formats directory).find? fs.isFile := by
  rw [locate?, if_neg (not_isFile_of_isDirectory h), if_pos h]

/-- What is found in a directory is the first candidate that is a file. -/
theorem locate?_eq_some_iff (h : fs.isDirectory directory = true) :
    locate? formats fs directory = some file ↔
      ∃ format extension, IsFirst formats fs directory format extension ∧
        file = descriptorPath directory extension := by
  rw [locate?_of_isDirectory h, candidates, List.find?_flatMap, List.findSome?_eq_some_iff]
  simp only [List.find?_map, Option.map_eq_some_iff, Option.map_eq_none_iff,
    List.find?_eq_some_iff_append, List.find?_eq_none, Function.comp_apply, Bool.not_eq_true,
    Bool.not_eq_true']
  constructor
  · rintro ⟨before, format, after, hformats, ⟨extension, ⟨hfile, earlier, later, hextensions,
      hearlier⟩, rfl⟩, hbefore⟩
    exact ⟨format, extension, ⟨hfile, before, after, earlier, later, hformats, hextensions,
      hbefore, hearlier⟩, rfl⟩
  · rintro ⟨format, extension, ⟨hfile, before, after, earlier, later, hformats, hextensions,
      hbefore, hearlier⟩, rfl⟩
    exact ⟨before, format, after, hformats, ⟨extension, ⟨hfile, earlier, later, hextensions,
      hearlier⟩, rfl⟩, hbefore⟩

/-- Nothing is found in a directory in which no candidate is a file. -/
theorem locate?_eq_none_iff (h : fs.isDirectory directory = true) :
    locate? formats fs directory = none ↔ ∀ format ∈ formats, ∀ extension ∈ format.extensions,
      fs.isFile (descriptorPath directory extension) = false := by
  rw [locate?_of_isDirectory h, List.find?_eq_none]
  simp only [candidates, List.mem_flatMap, List.mem_map]
  constructor
  · intro hnone format hformat extension hextension
    exact Bool.eq_false_iff.2 (hnone _ ⟨format, hformat, extension, hextension, rfl⟩)
  · rintro hnone _ ⟨format, hformat, extension, hextension, rfl⟩
    exact Bool.eq_false_iff.1 (hnone format hformat extension hextension)

/-- The format with which a descriptor is found first is the first one that has the extension: with
this extension, an earlier format would have found the descriptor, too. -/
theorem withExtension?_of_isFirst (h : IsFirst formats fs directory format extension) :
    withExtension? formats extension = some format := by
  obtain ⟨hfile, before, after, earlier, later, hformats, hextensions, hbefore, -⟩ := h
  refine List.find?_eq_some_iff_append.2 ⟨?_, before, after, hformats, fun other hother ↦ ?_⟩
  · exact List.contains_iff_mem.2 (hextensions ▸ List.mem_append_cons_self)
  · rw [Bool.not_eq_true', Bool.eq_false_iff]
    intro hcontains
    have hnone := hbefore other hother extension (List.contains_iff_mem.1 hcontains)
    rw [hnone] at hfile
    cases hfile

/-- The canonical path of a descriptor that is no link has the extension with which the descriptor
was looked for. -/
theorem extension?_canonical (hfs : fs.WellFormed) {location : String}
    (hdirectory : fs.isDirectory directory = true)
    (hlink : ¬fs.HasLink directory (stem ++ "." ++ extension)) (hdot : '.' ∉ extension.toList)
    (hslash : '/' ∉ extension.toList)
    (h : fs.canonical? (descriptorPath directory extension) = some location) :
    Path.extension? location = some extension :=
  Path.extension?_of_fileName? (by decide) hdot
    (FileSystem.fileName?_canonical hfs (isName_of_notMem hslash) hdirectory hlink h)

end Format

namespace Loader

variable {loader : Loader} {fs : FileSystem} {directory path file location text : String}
  {format : Format}

/-- The descriptor in the file with the given canonical path and text, read in a given format. -/
def readAs (loader : Loader) (format : Format) (fs : FileSystem) (file text : String) :
    Except Failure Descriptor := do
  let value ← (format.read fs file text).mapError fun failure ↦
    .malformed file (.unreadable failure)
  Descriptor.ofValue loader.globals file value

theorem read_of_ofPath? (h : Format.ofPath? loader.formats location = some format) :
    loader.read fs location text = loader.readAs format fs location text := by
  rw [read, h, readAs]

/-- Reading does not complain about a missing format, once there is one. -/
theorem failsOnly_readAs : FailsOnly (fun failure ↦ ∀ path, failure ≠ .malformed path .noFormat)
    (loader.readAs format fs location text) := by
  refine FailsOnly.bind (.mapError fun failure path ↦ by simp) fun value _ failure hfailure ↦ ?_
  obtain ⟨fault, hfault, rfl⟩ :=
    Descriptor.failsOnly_ofValue loader.globals location value failure hfailure
  rintro path ⟨⟩
  exact hfault

theorem read_eq_noFormat_iff :
    loader.read fs location text = .error (.malformed location .noFormat) ↔
      Format.ofPath? loader.formats location = none := by
  cases hformat : Format.ofPath? loader.formats location with
  | none => simp [read, hformat]
  | some format =>
    rw [read_of_ofPath? hformat]
    exact iff_of_false (fun h ↦ failsOnly_readAs _ h location rfl) nofun

theorem load_of_locate? (hfile : loader.locate? fs path = some file)
    (hlocation : fs.canonical? file = some location) (htext : fs.readText? location = some text) :
    loader.load fs path = loader.read fs location text := by
  simp only [load, hfile, Option.bind_some, hlocation, htext]

/-- In a directory, the first candidate that is a file is the descriptor. Its text is read in the
format of its canonical path, and not at all if there is no such format. It is read in the format
that found it, if the extension stays the same on the way to the canonical path, as it does for
every descriptor that is no link. -/
theorem load_directory (hfs : fs.WellFormed) (hdirectory : fs.isDirectory directory = true) :
    (∀ file, loader.locate? fs directory = some file ↔
      ∃ format extension, Format.IsFirst loader.formats fs directory format extension ∧
        file = Format.descriptorPath directory extension) ∧
    (loader.locate? fs directory = none ↔
      ∀ format ∈ loader.formats, ∀ extension ∈ format.extensions,
        fs.isFile (Format.descriptorPath directory extension) = false) ∧
    ∀ extension location text,
      loader.locate? fs directory = some (Format.descriptorPath directory extension) →
      fs.canonical? (Format.descriptorPath directory extension) = some location →
      fs.readText? location = some text →
      ∃ format, Format.withExtension? loader.formats extension = some format ∧
        (Path.extension? location = some extension →
          loader.load fs directory = loader.readAs format fs location text) ∧
        (¬fs.HasLink directory (Format.stem ++ "." ++ extension) → '.' ∉ extension.toList →
          '/' ∉ extension.toList → Path.extension? location = some extension) ∧
        (∀ other, Format.ofPath? loader.formats location = some other →
          loader.load fs directory = loader.readAs other fs location text) ∧
        (loader.load fs directory = .error (.malformed location .noFormat) ↔
          Format.ofPath? loader.formats location = none) := by
  refine ⟨fun file ↦ Format.locate?_eq_some_iff hdirectory, Format.locate?_eq_none_iff hdirectory,
    fun extension location text hfile hlocation htext ↦ ?_⟩
  obtain ⟨format, extension', hfirst, hpath⟩ := (Format.locate?_eq_some_iff hdirectory).1 hfile
  obtain rfl := Format.descriptorPath_injective directory hpath
  have hformat := Format.withExtension?_of_isFirst hfirst
  have hload := load_of_locate? hfile hlocation htext
  refine ⟨format, hformat, fun hextension ↦ ?_, fun hlink hdot hslash ↦ ?_, fun other hother ↦ ?_,
    ?_⟩
  · rw [hload, read_of_ofPath?]
    rw [Format.ofPath?, hextension, Option.bind_some, hformat]
  · exact Format.extension?_canonical hfs hdirectory hlink hdot hslash hlocation
  · rw [hload, read_of_ofPath? hother]
  · rw [hload, read_eq_noFormat_iff]

/-! ## Links on the way and links at the end -/

/-- A directory with a descriptor, a link to this directory, and a descriptor that is itself a link
to a file with another extension. -/
def releases : FileSystem :=
  ⟨[(["app"], .directory), (["app", "project.json"], .file []), (["current"], .link "app"),
    (["notes.txt"], .file []), (["project.json"], .link "notes.txt")], []⟩

def standardLoader : Loader :=
  ⟨Format.standard, ∅⟩

theorem resolve?_releases :
    releases.resolve? "/current" = some ["app"] ∧
      releases.resolve? "/current/project.json" = some ["app", "project.json"] ∧
      releases.resolve? "/project.json" = some ["notes.txt"] := by
  have hstart (path : String) (h : Path.isAbsolute path = true) : releases.start path = [] :=
    if_pos h
  have hcurrent : releases.node? ["current"] = some (.link "app") := rfl
  have hdirectory : releases.node? ["app"] = some .directory := rfl
  have hfile : releases.node? ["app", "project.json"] = some (.file []) := rfl
  have hproject : releases.node? ["project.json"] = some (.link "notes.txt") := rfl
  have hnotes : releases.node? ["notes.txt"] = some (.file []) := rfl
  have happ : Text.split '/' "app" = ["app"] := by decide +kernel
  have htext : Text.split '/' "notes.txt" = ["notes.txt"] := by decide +kernel
  have hsplit : Text.split '/' "/current" = ["", "current"] := by decide +kernel
  have hsplit' : Text.split '/' "/current/project.json" = ["", "current", "project.json"] := by
    decide +kernel
  have hsplit'' : Text.split '/' "/project.json" = ["", "project.json"] := by decide +kernel
  refine ⟨?_, ?_, ?_⟩
  · rw [FileSystem.resolve?, toOption_eq_some, FileSystem.resolve, hsplit, hstart _ (by decide)]
    simp +decide [FileSystem.walk, FileSystem.maxLinks, hcurrent, hdirectory, happ]
  · rw [FileSystem.resolve?, toOption_eq_some, FileSystem.resolve, hsplit', hstart _ (by decide)]
    simp +decide [FileSystem.walk, FileSystem.maxLinks, hcurrent, hdirectory, happ, hfile]
  · rw [FileSystem.resolve?, toOption_eq_some, FileSystem.resolve, hsplit'', hstart _ (by decide)]
    simp +decide [FileSystem.walk, FileSystem.maxLinks, hproject, htext, hnotes]

/-- Of the standard formats, JSON is the last one that is tried. -/
theorem isFirst_releases {place : Place} (hplace : releases.resolve? directory = some place)
    (hnone : ∀ extension ∈ ["lua", "yaml", "yml"],
      (releases.node? (place ++ [Format.stem ++ "." ++ extension])).isNone)
    (hfile : releases.isFile (Format.descriptorPath directory "json") = true) :
    Format.IsFirst Format.standard releases directory Format.json "json" := by
  refine ⟨hfile, [Format.lua, Format.yaml], [], [], [], rfl, rfl, ?_, by simp⟩
  intro other hother passed hpassed
  have hextension : passed ∈ ["lua", "yaml", "yml"] := by
    rcases List.mem_cons.1 hother with rfl | hother
    · exact List.mem_append_left ["yaml", "yml"] hpassed
    · obtain rfl := List.mem_singleton.1 hother
      exact List.mem_append_right ["lua"] hpassed
  have hslash : '/' ∉ passed.toList := by
    clear hpassed
    decide +kernel +revert
  exact FileSystem.isFile_join_of_node?_eq_none (Format.isName_of_notMem hslash) hplace
    (Option.isNone_iff_eq_none.1 (hnone passed hextension))

/-- The descriptor that is found in a directory of these, and its canonical path. -/
theorem located_releases {place reached : Place} (hplace : releases.resolve? directory = some place)
    (hdirectory : releases.hasDirectory place = true)
    (hnone : ∀ extension ∈ ["lua", "yaml", "yml"],
      (releases.node? (place ++ [Format.stem ++ "." ++ extension])).isNone)
    (hreached : releases.resolve? (Format.descriptorPath directory "json") = some reached)
    (hnode : releases.node? reached = some (.file []))
    (hnamed : ∀ name ∈ reached, FileSystem.IsEntryName name)
    (hshort : reached.path.utf8ByteSize ≤ FileSystem.maxPathBytes) :
    releases.isDirectory directory = true ∧
      standardLoader.locate? releases directory =
        some (Format.descriptorPath directory "json") ∧
      releases.canonical? (Format.descriptorPath directory "json") = some reached.path ∧
      releases.readText? reached.path = some "" := by
  have hcontent (path : String) (hpath : releases.resolve? path = some reached) :
      releases.content? path = some [] := by
    rw [FileSystem.content?, hpath, Option.bind_some, hnode]
  have hisDirectory : releases.isDirectory directory = true := by
    rw [FileSystem.isDirectory, hplace, Option.any_some, hdirectory]
  have hfile : releases.isFile (Format.descriptorPath directory "json") = true := by
    rw [FileSystem.isFile, hcontent _ hreached, Option.isSome_some]
  have hfirst := isFirst_releases hplace hnone hfile
  have hcanonical := FileSystem.resolve?_file (by decide +kernel) hnode hnamed hshort
  refine ⟨hisDirectory, (Format.locate?_eq_some_iff hisDirectory).2 ⟨_, _, hfirst, rfl⟩, ?_, ?_⟩
  · rw [FileSystem.canonical?, hreached, Option.map_some]
  · rw [FileSystem.readText?, hcontent _ hcanonical]
    rfl

/-- The directory that the link leads to holds a descriptor in JSON, which is read as one. -/
theorem load_directory_releases :
    releases.WellFormed ∧ releases.isDirectory "/current" = true ∧
      standardLoader.locate? releases "/current" =
        some (Format.descriptorPath "/current" "json") ∧
      releases.canonical? (Format.descriptorPath "/current" "json") = some "/app/project.json" ∧
      releases.readText? "/app/project.json" = some "" ∧
      ¬releases.HasLink "/current" (Format.stem ++ "." ++ "json") ∧
      standardLoader.load releases "/current" =
        standardLoader.readAs Format.json releases "/app/project.json" "" := by
  have hfs : releases.WellFormed := by decide +kernel
  have hpath : Format.descriptorPath "/current" "json" = "/current/project.json" := by
    decide +kernel
  have hlocation : Place.path ["app", "project.json"] = "/app/project.json" := by decide +kernel
  obtain ⟨hdirectory, hlocate, hcanonical, htext⟩ := located_releases resolve?_releases.1 rfl
    (by decide +kernel) (hpath ▸ resolve?_releases.2.1) rfl (by decide +kernel) (by decide +kernel)
  rw [hlocation] at hcanonical htext
  have hlink : ¬releases.HasLink "/current" (Format.stem ++ "." ++ "json") := by
    rintro ⟨place, target, hplace, hnode⟩
    obtain rfl : ["app"] = place := Option.some.inj (resolve?_releases.1.symm.trans hplace)
    have hfile : releases.node? ["app", "project.json"] = some (.file []) := rfl
    cases hnode.symm.trans hfile
  obtain ⟨-, -, hloaded⟩ := @load_directory standardLoader _ _ hfs hdirectory
  obtain ⟨format, hformat, hread, hextension, -⟩ := hloaded "json" _ _ hlocate hcanonical htext
  obtain rfl : Format.json = format := Option.some.inj hformat
  exact ⟨hfs, hdirectory, hlocate, hcanonical, htext, hlink,
    hread (hextension hlink (by decide) (by decide))⟩

/-- The descriptor of the root directory is found as one in JSON. The file that it leads to has
another extension, so that it is not read at all. -/
theorem load_releases :
    standardLoader.locate? releases "/" = some (Format.descriptorPath "/" "json") ∧
      Format.withExtension? Format.standard "json" = some Format.json ∧
      releases.canonical? (Format.descriptorPath "/" "json") = some "/notes.txt" ∧
      releases.readText? "/notes.txt" = some "" ∧
      standardLoader.load releases "/" =
        .error (.malformed "/notes.txt" .noFormat) := by
  have hroot : releases.resolve? "/" = some [] :=
    FileSystem.resolve_path (FileSystem.isDirect_root releases) (by decide +kernel)
  have hpath : Format.descriptorPath "/" "json" = "/project.json" := by decide +kernel
  have hlocation : Place.path ["notes.txt"] = "/notes.txt" := by decide +kernel
  obtain ⟨-, hlocate, hcanonical, htext⟩ := located_releases hroot rfl (by decide +kernel)
    (hpath ▸ resolve?_releases.2.2) rfl (by decide +kernel) (by decide +kernel)
  rw [hlocation] at hcanonical htext
  have hextension : Path.extension? "/notes.txt" = some "txt" := by decide +kernel
  have hformat : Format.ofPath? Format.standard "/notes.txt" = none := by
    rw [Format.ofPath?, hextension]
    rfl
  refine ⟨hlocate, rfl, hcanonical, htext, ?_⟩
  rw [load_of_locate? hlocate hcanonical htext]
  exact read_eq_noFormat_iff.2 hformat

end Loader

end Reactor

import Reactor.CommandLine.Run
import Reactor.Format.Standard
import Std.Data.HashSet

/-!
# The program

A run is a function of a file system, so the program first reads the part of the disk that a run may
look at: everything below the working directory and below the path that it is asked about, and what
lies close to the directories above them, where parents may have their descriptors. Then it prints
the outcome.
-/

namespace Reactor.CommandLine

/-- The size of the largest file that is read, in bytes: descriptors may be long, and of other files
a script reads only the first line. -/
def maxFileSize (path : String) : UInt64 :=
  if (Format.ofPath? Format.standard path).isSome then 1048576 else 1024

/-- The directories at the root that hold devices and the state of processes instead of files. -/
def hidden : List Place :=
  [["dev"], ["proc"], ["sys"]]

/-- How many levels of directories are read below a directory that a run is about. -/
def levelsBelow : Nat :=
  32

/-- How many levels of directories are read below each directory above it. -/
def levelsAround : Nat :=
  2

/-- How many directories are looked at in one survey. -/
def maxDirectories : Nat :=
  4096

def placeOf (path : String) : Place :=
  (Text.split '/' path).filter (¬·.isEmpty)

/-- The directories on the way to a place, and the place itself as one. -/
def directoriesTo (place : Place) : List (Place × Node) :=
  (List.range place.length).map fun n ↦ (place.take (n + 1), .directory)

/-- The path without links that leads to the same place, unless nothing is there. -/
def realPath? (path : String) : IO (Option String) := do
  try
    let real ← IO.FS.realPath path
    return some real.toString
  catch _ => return none

/-- The directory at a path without links, or the directory of the file there. -/
def directoryOf (path : String) : IO Place := do
  let real ← IO.FS.realPath path
  return if ← real.isDir then placeOf path else (placeOf path).dropLast

/-- What a directory entry is, unless it is something that a run never looks at. An empty file need
not be opened. A file that cannot be read is taken as one whose content is not UTF-8. -/
def node? (entry : IO.FS.DirEntry) : IO (Option Node) := do
  try
    let metadata ← entry.path.symlinkMetadata
    match metadata.type with
    | .dir => return some .directory
    | .symlink => return (← realPath? entry.path.toString).map .link
    | .file =>
      if metadata.byteSize = 0 then return some (.file [])
      else if metadata.byteSize > maxFileSize entry.path.toString then return some (.file [0xff])
      else
        try
          let content ← IO.FS.readBinFile entry.path
          return some (.file content.toList)
        catch _ => return some (.file [0xff])
    | .other => return none
  catch _ => return none

/-- What is directly in a directory; nothing if it cannot be listed. -/
def listing (directory : Place) : IO (List (Place × Node)) := do
  try
    let path ← IO.FS.realPath (Place.path directory)
    let entries ← path.readDir
    entries.toList.filterMapM fun entry ↦ do
      return (← node? entry).map fun node ↦ (directory ++ [entry.fileName], node)
  catch _ => return []

/-- The given nodes together with those in the listed directories, each read down to its own number
of levels, nearer ones first. Links are followed, and neither a hidden directory nor one that has
been listed before is listed. The first argument bounds the number of directories. -/
def survey : Nat → List (Place × Node) → Std.HashSet Place → List (Place × Nat) →
    IO (List (Place × Node))
  | 0, nodes, _, _ => return nodes
  | _, nodes, _, [] => return nodes
  | bound + 1, nodes, listed, (directory, levels) :: rest => do
    if levels = 0 ∨ listed.contains directory ∨ directory ∈ hidden then
      survey bound nodes listed rest
    else
      let found ← listing directory
      let inner := found.flatMap fun (place, node) ↦
        match node with
        | .directory => [(place, levels - 1)]
        | .link target => [(placeOf target, levels - 1), ((placeOf target).dropLast, 1)]
        | .file _ => []
      let targets := found.flatMap fun (_, node) ↦
        match node with
        | .link target => directoriesTo (placeOf target).dropLast
        | _ => []
      survey bound (found ++ targets ++ nodes) (listed.insert directory) (rest ++ inner)

/-- The paths that a command line names: that of the project, and that of the version file. -/
def namedPaths (arguments : List String) : Option (String × Option String) :=
  match request? arguments with
  | some (.run options (.resolve path _)) => some (path, options.versionFile)
  | some (.run options (.order path _)) => some (path, options.versionFile)
  | some (.run options (.effective path _)) => some (path, options.versionFile)
  | _ => none

/-- The file system with what is at a path on the disk, if the survey has not come across it. -/
def withPath (fs : FileSystem) (path : String) : IO FileSystem := do
  if fs.isFile path ∨ fs.isDirectory path then return fs
  else
    match ← realPath? path with
    | some real => return fs.link path real
    | none => return fs

def withContent (fs : FileSystem) (path : String) : IO FileSystem := do
  try
    let content ← IO.FS.readBinFile path
    return fs.write path content.toList
  catch _ => return fs

/-- The file system as far as a run with these arguments looks at it. -/
def fileSystem (arguments : List String) : IO FileSystem := do
  let working := (← IO.currentDir).toString
  let empty : FileSystem := ⟨[], placeOf working⟩
  let some (path, versionFile) := namedPaths arguments | return empty
  let directories ← (working :: (← realPath? path).toList).mapM directoryOf
  let above := directories.flatMap fun directory ↦
    (List.range directory.length).map fun n ↦ (directory.take n, levelsAround)
  let below := directories.map fun directory ↦ (directory, levelsBelow)
  let nodes ← survey maxDirectories (directories.flatMap directoriesTo) ∅ above
  let nodes ← survey maxDirectories nodes ∅ below
  let fs ← withPath { empty with nodes } path
  match versionFile with
  | some file => withContent fs file
  | none => return fs

end Reactor.CommandLine

/-- Runs the program on its arguments. The time that counts is the time spent on the disk. -/
def main (arguments : List String) : IO UInt32 := do
  let start ← IO.monoNanosNow
  let fs ← Reactor.CommandLine.fileSystem arguments
  let elapsed := (← IO.monoNanosNow) - start
  let outcome := Reactor.CommandLine.run ⟨fs, Reactor.Format.standard, fun _ _ ↦ elapsed, elapsed⟩
    arguments
  (← IO.getStdout).putStr outcome.stdout
  (← IO.getStderr).putStr outcome.stderr
  return outcome.code.toUInt32

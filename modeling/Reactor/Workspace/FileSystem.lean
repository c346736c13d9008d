import Reactor.Text.Utf8
import Reactor.Workspace.Path

/-!
# A file system

Regular files, directories and symbolic links, each at a place given by the names from the root
down to it. Looking up a path follows links, `.` and `..` the way an operating system does; it
fails when a step is missing, is no directory although more steps follow, or when more than forty
links have been followed.
-/

namespace Reactor

inductive Node where
  | directory
  | file (content : List UInt8)
  | link (target : String)
  deriving Inhabited

/-- The names from the root down to a place. -/
abbrev Place := List String

def Place.path (place : Place) : String :=
  "/" ++ String.intercalate "/" place

/-- A file system with a working directory, from which relative paths start. -/
structure FileSystem where
  /-- The places below the root at which something is. The root itself is a directory. -/
  nodes : List (Place × Node)
  workingDirectory : Place
  deriving Inhabited

namespace FileSystem

def node? (fs : FileSystem) (place : Place) : Option Node :=
  if place = [] then some .directory else fs.nodes.lookup place

def hasDirectory (fs : FileSystem) (place : Place) : Bool :=
  match fs.node? place with
  | some .directory => true
  | _ => false

/-- Why a path leads to nothing. -/
inductive PathFault where
  | missing
  | notDirectory
  | tooLong
  | tooManyLinks
  deriving DecidableEq, Repr

namespace PathFault

def number : PathFault → Nat
  | missing => 2
  | notDirectory => 20
  | tooLong => 36
  | tooManyLinks => 40

def text : PathFault → String
  | missing => "No such file or directory"
  | notDirectory => "Not a directory"
  | tooLong => "File name too long"
  | tooManyLinks => "Too many levels of symbolic links"

end PathFault

/-- How many links may be followed on the way. -/
def maxLinks : Nat :=
  40

def maxPathBytes : Nat :=
  4095

def maxNameBytes : Nat :=
  255

/-- The place that is reached from `place` by the given steps, following at most `links` links. When
something is to be created there, the last step may lead to nothing. -/
def walk (fs : FileSystem) (creating : Bool) (links : Nat) (place : Place) :
    List String → Except PathFault Place
  | [] => .ok place
  | step :: rest =>
    if ¬fs.hasDirectory place then .error .notDirectory
    else if step = "" ∨ step = "." then fs.walk creating links place rest
    else if step = ".." then fs.walk creating links place.dropLast rest
    else if step.utf8ByteSize > maxNameBytes then .error .tooLong
    else
      match fs.node? (place ++ [step]) with
      | none => if creating ∧ rest = [] then .ok (place ++ [step]) else .error .missing
      | some (.link target) =>
        match links with
        | 0 => .error .tooManyLinks
        | links + 1 =>
          fs.walk creating links (if Path.isAbsolute target then [] else place)
            (Text.split '/' target ++ rest)
      | some _ => fs.walk creating links (place ++ [step]) rest
termination_by steps => (links, steps.length)

def start (fs : FileSystem) (path : String) : Place :=
  if Path.isAbsolute path then [] else fs.workingDirectory

def resolve (fs : FileSystem) (path : String) : Except PathFault Place :=
  if path.isEmpty then .error .missing
  else if path.utf8ByteSize > maxPathBytes then .error .tooLong
  else fs.walk false maxLinks (fs.start path) (Text.split '/' path)

def resolve? (fs : FileSystem) (path : String) : Option Place :=
  (fs.resolve path).toOption

/-- The absolute path without links, `.` and `..` that leads to the same place. -/
def canonical? (fs : FileSystem) (path : String) : Option String :=
  (fs.resolve? path).map Place.path

/-- The form in which locations are compared: the canonical path, or the normal form of the path if
nothing is there. -/
def canonical (fs : FileSystem) (path : String) : String :=
  (fs.canonical? path).getD (Path.normal path)

def content? (fs : FileSystem) (path : String) : Option (List UInt8) :=
  (fs.resolve? path).bind fun place ↦
    match fs.node? place with
    | some (.file content) => some content
    | _ => none

def isFile (fs : FileSystem) (path : String) : Bool :=
  (fs.content? path).isSome

def isDirectory (fs : FileSystem) (path : String) : Bool :=
  (fs.resolve? path).any fs.hasDirectory

def readText? (fs : FileSystem) (path : String) : Option String :=
  (fs.content? path).bind fun content ↦ (Text.Utf8.decode content).toOption

def files (fs : FileSystem) : List String :=
  fs.nodes.filterMap fun (place, node) ↦
    match node with
    | .file _ => some place.path
    | _ => none

/-! ## Changes -/

def put (fs : FileSystem) (place : Place) (node : Node) : FileSystem :=
  if place = [] then fs
  else { fs with nodes := (place, node) :: fs.nodes.filter (·.1 ≠ place) }

/-- Makes the directories on the way from `place` along the given steps. Gives the new file system
and the place reached. -/
def makeDirectories (fs : FileSystem) (place : Place) : List String → FileSystem × Place
  | [] => (fs, place)
  | step :: rest =>
    if step = "" ∨ step = "." then fs.makeDirectories place rest
    else if step = ".." then fs.makeDirectories place.dropLast rest
    else
      match fs.walk false maxLinks place [step] with
      | .ok next => fs.makeDirectories next rest
      | .error _ => (fs.put (place ++ [step]) .directory).makeDirectories (place ++ [step]) rest

/-- The file system with a node at the end of a path, and with the directories on the way. Links at
the end of the path are followed, also where the last of them leads to nothing yet. -/
def add (fs : FileSystem) (path : String) (node : Node) : FileSystem :=
  let steps := Text.split '/' path
  let (fs, directory) := fs.makeDirectories (fs.start path) steps.dropLast
  match steps.getLast? with
  | none => fs
  | some name =>
    match fs.walk true maxLinks directory [name] with
    | .ok place => if name.isEmpty then fs else fs.put place node
    | .error _ => fs

def write (fs : FileSystem) (path : String) (content : List UInt8) : FileSystem :=
  fs.add path (.file content)

def link (fs : FileSystem) (path target : String) : FileSystem :=
  fs.add path (.link target)

def removeBelow (fs : FileSystem) (place : Place) : FileSystem :=
  { fs with nodes := fs.nodes.filter fun (other, _) ↦ other = place ∨ ¬place.isPrefixOf other }

def removeAt (fs : FileSystem) (place : Place) : FileSystem :=
  { fs with nodes := fs.nodes.filter fun (other, _) ↦ ¬place.isPrefixOf other }

/-- The file system without the file or the directory tree at the end of a path. A link is removed
itself, not what it leads to. A directory cannot be removed by a path that ends in `.` or `..`, or
in a link and a slash: only what is below it is removed. -/
def remove (fs : FileSystem) (path : String) : FileSystem :=
  let steps := Text.split '/' path
  let named := steps.reverse.dropWhile String.isEmpty
  match named with
  | [] => fs
  | name :: before =>
    match fs.walk false maxLinks (fs.start path) before.reverse with
    | .error _ => fs
    | .ok directory =>
      if name = "." ∨ name = ".." then
        fs.removeBelow (if name = "." then directory else directory.dropLast)
      else
        match fs.node? (directory ++ [name]), decide (named.length < steps.length) with
        | some (.link _), true =>
          match fs.walk false maxLinks directory [name, ""] with
          | .ok place => fs.removeBelow place
          | .error _ => fs
        | some (.file _), true => fs
        | _, _ => fs.removeAt (directory ++ [name])

/-- A file system that holds nothing but the working directory. -/
def ofWorkingDirectory (place : Place) : FileSystem :=
  (FileSystem.makeDirectories ⟨[], place⟩ [] place).1

end FileSystem

end Reactor

import Reactor.Json.Printer

/-!
# Positions in a tree of modules

The position of a module is the list of names from the root project down to it. The first name is
the root's artifact id; every other name is the one under which an aggregator lists the module.
-/

namespace Reactor

/-- The names from the root project down to a module. -/
structure ModulePath where
  segments : List String
  deriving DecidableEq, Repr, Inhabited

/-- What stands between the names of a chain of projects. -/
def chainSeparator : String :=
  " > "

def chainText (names : List String) : String :=
  String.intercalate chainSeparator names

namespace ModulePath

def root (name : String) : ModulePath :=
  ⟨[name]⟩

/-- The position of a module listed under `name` by the project at `path`. -/
def child (path : ModulePath) (name : String) : ModulePath :=
  ⟨path.segments ++ [name]⟩

/-- How many levels below the root a position is. -/
def depth (path : ModulePath) : Nat :=
  path.segments.length - 1

def last? (path : ModulePath) : Option String :=
  path.segments.getLast?

def text (path : ModulePath) : String :=
  chainText path.segments

def toJson (path : ModulePath) : Json :=
  .strings path.segments

end ModulePath

end Reactor

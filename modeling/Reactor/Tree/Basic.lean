import Reactor.Project.Basic

/-!
# Trees of projects

An aggregated project together with the outcome of each of its modules, in declared order: either
the tree below the module, or the failure that kept it from being resolved.
-/

namespace Reactor

mutual

/-- A resolved project and the outcomes of its modules. -/
structure ProjectTree where
  path : ModulePath
  /-- The fingerprint of the project. -/
  fingerprint : String
  project : Project
  /-- One entry per module, in declared order. -/
  modules : List ModuleEntry

/-- The outcome of one module. -/
inductive ModuleEntry where
  | resolved (tree : ProjectTree)
  | failed (name : String) (path : ModulePath) (failure : Failure)

end

namespace ModuleEntry

def name : ModuleEntry → String
  | resolved tree => tree.path.last?.getD ""
  | failed name _ _ => name

def tree? : ModuleEntry → Option ProjectTree
  | resolved tree => some tree
  | failed _ _ _ => none

end ModuleEntry

namespace ProjectTree

def ofProject (path : ModulePath) (project : Project) (modules : List ModuleEntry) : ProjectTree :=
  ⟨path, project.fingerprint, project, modules⟩

/-- The trees of the resolved modules, in declared order. -/
def children (tree : ProjectTree) : List ProjectTree :=
  tree.modules.filterMap ModuleEntry.tree?

mutual

def size : ProjectTree → Nat
  | ⟨_, _, _, modules⟩ => 1 + sizeOfEntries modules

/-- The number of resolved projects below the given entries. -/
def sizeOfEntries : List ModuleEntry → Nat
  | [] => 0
  | .resolved tree :: rest => size tree + sizeOfEntries rest
  | .failed _ _ _ :: rest => sizeOfEntries rest

end

def sizeOfTrees : List ProjectTree → Nat
  | [] => 0
  | tree :: rest => tree.size + sizeOfTrees rest

theorem sizeOfTrees_append (trees others : List ProjectTree) :
    sizeOfTrees (trees ++ others) = sizeOfTrees trees + sizeOfTrees others := by
  induction trees with
  | nil => simp [sizeOfTrees]
  | cons tree rest ih => simp [sizeOfTrees, ih, Nat.add_assoc]

theorem sizeOfEntries_eq (entries : List ModuleEntry) :
    sizeOfEntries entries = sizeOfTrees (entries.filterMap ModuleEntry.tree?) := by
  induction entries with
  | nil => simp [sizeOfEntries, sizeOfTrees]
  | cons entry rest ih =>
    cases entry <;> simp [sizeOfEntries, sizeOfTrees, ModuleEntry.tree?, List.filterMap_cons, ih]

theorem size_eq (tree : ProjectTree) : tree.size = 1 + sizeOfTrees tree.children := by
  cases tree
  simp [size, children, sizeOfEntries_eq]

/-- The trees on a stack and all trees below them, each before those below it. -/
def walkFrom : List ProjectTree → List ProjectTree
  | [] => []
  | tree :: stack => tree :: walkFrom (tree.children ++ stack)
termination_by stack => sizeOfTrees stack
decreasing_by
  simp only [sizeOfTrees, sizeOfTrees_append, size_eq tree]
  omega

/-- The resolved subtrees of a tree, itself included, parents before their modules. -/
def walk (tree : ProjectTree) : List ProjectTree :=
  walkFrom [tree]

def buildOrder (tree : ProjectTree) : List Project :=
  tree.walk.map (·.project)

mutual

def failureList : ProjectTree → List ModuleFailure
  | ⟨_, _, _, modules⟩ => failuresOfEntries modules

def failuresOfEntries : List ModuleEntry → List ModuleFailure
  | [] => []
  | .resolved tree :: rest => failureList tree ++ failuresOfEntries rest
  | .failed _ path failure :: rest => ⟨path, failure⟩ :: failuresOfEntries rest

end

def failures (tree : ProjectTree) : FailureReport :=
  ⟨tree.failureList⟩

def child? (tree : ProjectTree) (name : String) : Option ProjectTree :=
  tree.children.find? (·.path.last? = some name)

/-- The names in a query: its parts between slashes, the empty ones left out. -/
def queryNames (query : String) : List String :=
  (Text.split '/' query).filter (¬·.isEmpty)

/-- The subtree that a query leads to. The empty query leads to the tree itself. -/
def find? (tree : ProjectTree) (query : String) : Option ProjectTree :=
  (queryNames query).foldlM child? tree

mutual

def toJson : ProjectTree → Json
  | ⟨path, fingerprint, project, modules⟩ =>
    .object [("path", path.toJson), ("fingerprint", .string fingerprint),
      ("project", project.toJson), ("modules", .array (entriesToJson modules))]

def entriesToJson : List ModuleEntry → List Json
  | [] => []
  | .resolved ⟨path, fingerprint, project, modules⟩ :: rest =>
    .object [("status", .string "resolved"), ("path", path.toJson),
      ("fingerprint", .string fingerprint), ("project", project.toJson),
      ("modules", .array (entriesToJson modules))] :: entriesToJson rest
  | .failed name path failure :: rest =>
    .object [("status", .string "failed"), ("name", .string name), ("path", path.toJson),
      ("error", failure.toJson)] :: entriesToJson rest

end

end ProjectTree

end Reactor

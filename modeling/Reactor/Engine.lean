import Reactor.Tree.Aggregation
import Reactor.Tree.ParentSearch

/-!
# The engine

Loading, resolving and aggregating with one set of formats and settings.
-/

namespace Reactor

/-- A configured engine. -/
structure Engine where
  formats : List Format
  parentSource : ParentSource
  config : Config

namespace Engine

/-- The loader of an engine, which hands out the global properties of the settings. -/
def loader (engine : Engine) : Loader :=
  ⟨engine.formats, engine.config.globals⟩

def load (engine : Engine) (fs : FileSystem) (path : String) : Except Failure Descriptor :=
  engine.loader.load fs path

/-- The project that a descriptor is resolved to below a supplied parent. -/
def resolve (engine : Engine) (d : Descriptor) (parent : Option Project) :
    Except Failure Project :=
  Project.resolve engine.config.missingProperty d parent

def locateParent (engine : Engine) (fs : FileSystem) (d : Descriptor) :
    Except Failure (Option Project) :=
  engine.parentSource.locate fs engine.loader engine.config.missingProperty d

def aggregate (engine : Engine) (fs : FileSystem) (clock : Clock) (project : Project) :
    Except Failure ProjectTree :=
  Aggregation.tree ⟨fs, engine.loader, engine.config, clock⟩ project

/-- The tree of the project that a path designates. -/
def resolveTree (engine : Engine) (fs : FileSystem) (clock : Clock) (path : String) :
    Except Failure ProjectTree := do
  let root ← engine.load fs path
  let parent ← if root.parentRef.isSome then engine.locateParent fs root else .ok none
  let project ← engine.resolve root parent
  engine.aggregate fs clock project

end Engine

end Reactor

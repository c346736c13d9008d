import Reactor.Format.Json
import Reactor.Format.Script
import Reactor.Format.Yaml

/-!
# The standard formats
-/

namespace Reactor.Format

/-- The formats of descriptors, in the order in which their files are looked for. -/
def standard : List Format :=
  [lua, yaml, json]

def named? (name : String) : Option Format :=
  standard.find? (·.name = name)

end Reactor.Format

import Reactor.Format.Basic
import Reactor.Yaml.Document

/-!
# Descriptors in YAML
-/

namespace Reactor.Format

def readYaml (text : String) : Except FormatFailure Value :=
  match Yaml.parse text with
  | .error fault => .error (.yaml (some fault))
  | .ok document => (Value.ofJson document).mapError .unsupported

def yaml : Format where
  name := "yaml"
  extensions := ["yaml", "yml"]
  read _ _ text := readYaml text

end Reactor.Format

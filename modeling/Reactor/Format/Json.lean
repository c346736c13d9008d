import Reactor.Format.Basic
import Reactor.Json.Parser

/-!
# Descriptors in JSON
-/

namespace Reactor.Format

def readJson (text : String) : Except FormatFailure Value :=
  match Json.parse text with
  | .error fault => .error (.json (some fault))
  | .ok document => (Value.ofJson document).mapError .unsupported

def json : Format where
  name := "json"
  extensions := ["json"]
  read _ _ text := readJson text

end Reactor.Format

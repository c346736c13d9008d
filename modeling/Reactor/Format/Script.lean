import Reactor.Format.Basic
import Reactor.Script.Result

/-!
# Descriptors as scripts

A descriptor may be a script that returns a table. The script sees the directory that it is in as
`basedir`, and it may read files. Its path names it, so the path must not hold a zero character.
-/

namespace Reactor.Format

def readScript (fs : FileSystem) (directory text : String) : Except FormatFailure Value :=
  match Script.result? fs directory text with
  | none => .error .script
  | some (.table border entries) =>
    (Script.Data.toValue .root (.table border entries)).mapError .unsupported
  | some data => .error (.scriptResult data.typeName)

def lua : Format where
  name := "lua"
  extensions := ["lua"]
  read fs path text :=
    if path.toList.contains '\x00' then .error .script
    else readScript fs ((Path.parent? path).getD "") text

end Reactor.Format

import Reactor.Text.Split

/-!
# Paths as text

Paths are kept as they were built, since messages show them. Only when a path is taken apart are
repeated slashes, trailing slashes and `.` steps passed over; the one `.` that counts is the first
step of a relative path.
-/

namespace Reactor.Path

def isAbsolute (path : String) : Bool :=
  path.toList.head? = some '/'

/-- `relative` as seen from the directory `base`. An absolute path stays as it is. -/
def join (base relative : String) : String :=
  if isAbsolute relative then relative
  else if base.isEmpty ∨ base.toList.getLast? = some '/' then base ++ relative
  else base ++ "/" ++ relative

/-- Whether a step after the first one counts. -/
def counts (step : String) : Bool :=
  step ≠ "" ∧ step ≠ "."

/-- The steps of a path that count. -/
def steps (path : String) : List String :=
  let all := Text.split '/' path
  (all.take 1).filter (· ≠ "") ++ (all.drop 1).filter counts

/-- The path with only the steps that count and one slash between them. Paths are compared in this
form: `/w/a/./b/` is the path `/w/a/b`. -/
def normal (path : String) : String :=
  (if isAbsolute path then "/" else "") ++ "/".intercalate (steps path)

/-- The steps of a path between its slashes, those before the last step that counts in reverse
order and without the steps after it that do not. `first` tells whether the first step of a
relative path comes next. -/
def significant (first : Bool) (before : List String) : List String → Option (List String × String)
  | [] => none
  | step :: rest =>
    match significant false (step :: before) rest with
    | some found => some found
    | none => if step.isEmpty ∨ (step = "." ∧ ¬first) then none else some (before, step)

/-- The steps before the last one that counts, in reverse order, and that step. -/
def lastStep? (path : String) : Option (List String × String) :=
  if isAbsolute path then significant false [] ((Text.split '/' path).drop 1)
  else significant true [] (Text.split '/' path)

/-- Steps in reverse order without those at the end of the path that do not count. -/
def dropInsignificant (absolute : Bool) : List String → List String
  | [] => []
  | step :: before =>
    if step.isEmpty ∨ (step = "." ∧ (absolute ∨ ¬before.isEmpty)) then
      dropInsignificant absolute before
    else step :: before

/-- The path without its last step, if it has one. -/
def parent? (path : String) : Option String :=
  (lastStep? path).map fun (before, _) ↦
    (if isAbsolute path then "/" else "") ++
      String.intercalate "/" (dropInsignificant (isAbsolute path) before).reverse

/-- The last step of a path, if it is a name. -/
def fileName? (path : String) : Option String :=
  (lastStep? path).bind fun (_, step) ↦ if step = "." ∨ step = ".." then none else some step

/-- What follows the last dot of a path's file name, unless that dot is the name's first
character. -/
def extension? (path : String) : Option String :=
  (fileName? path).bind fun name ↦
    let backwards := name.toList.reverse
    let extension := backwards.takeWhile (· ≠ '.')
    if extension.length + 1 < backwards.length then some (String.ofList extension.reverse) else none

end Reactor.Path

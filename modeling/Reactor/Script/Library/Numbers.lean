import Reactor.Script.Library.Argument

/-!
# Functions on numbers
-/

namespace Reactor.Script.Library

/-- The best of some values, of which another one takes the place if it `isBetter`. -/
def best (isBetter : Item → Item → Run Bool) (arguments : List Item) : Run (List Item) := do
  let item ← anyArgument arguments 0
  let found ← (arguments.drop 1).foldlM (fun best item ↦ do
    pure (if ← isBetter item best then item else best)) item
  pure [found]

/-- The remainder of a division toward zero, on integers if both arguments are integers. -/
def fmod (arguments : List Item) : Run (List Item) := do
  match argument arguments 0, argument arguments 1 with
  | .number (.int a), .number (.int b) =>
    pure [.number (← liftM (Number.truncatedMod? (.int a) (.int b)))]
  | _, _ =>
    let a ← numberArgument arguments 0
    let b ← numberArgument arguments 1
    pure [.number (Number.onFloats Number.truncatedRemainder a b)]

def onNumbers (call : Caller) (f : Builtin) (arguments : List Item) : Run (List Item) := do
  match f with
  | .mathType =>
    match ← anyArgument arguments 0 with
    | .number (.int _) => pure [.ofText "integer"]
    | .number _ => pure [.ofText "float"]
    | _ => pure [.nil]
  | .mathToInteger => do
    pure [((← anyArgument arguments 0).toInt?.map (.number ∘ .int)).getD .nil]
  | .mathFloor => do pure [.number (← numberArgument arguments 0).floor]
  | .mathCeil => do pure [.number (← numberArgument arguments 0).ceil]
  | .mathAbs =>
    match argument arguments 0 with
    | .number n => pure [.number n.abs]
    | _ => do pure [.number (.ofFloat (← numberArgument arguments 0).toFloat.abs)]
  | .mathSqrt => do pure [.number (← numberArgument arguments 0).sqrt]
  | .mathFmod => fmod arguments
  | .mathMax => best (fun item best ↦ Metatable.lt call best item) arguments
  | .mathMin => best (fun item best ↦ Metatable.lt call item best) arguments
  | _ => failure

end Reactor.Script.Library

import Reactor.Script.Metatable

/-!
# Arguments of library functions

A function of the library takes its arguments by position and fails if one of them is not of the
kind that it is made for. Numbers and the strings that spell them stand for each other.
-/

namespace Reactor.Script.Library

def argument (arguments : List Item) (index : Nat) : Item :=
  arguments[index]?.getD .nil

/-- An argument that has to be given, even if it is nil. -/
def anyArgument (arguments : List Item) (index : Nat) : Run Item :=
  liftM arguments[index]?

def tableArgument (arguments : List Item) (index : Nat) : Run Nat :=
  match argument arguments index with
  | .table id => pure id
  | _ => failure

def bytesArgument (arguments : List Item) (index : Nat) : Run ByteArray :=
  liftM (argument arguments index).toBytes?

/-- An argument that has to be a string or a number if it is not nil. -/
def bytesArgumentOr (arguments : List Item) (index : Nat) (default : ByteArray) : Run ByteArray :=
  if (argument arguments index).isNil then pure default else bytesArgument arguments index

def numberArgument (arguments : List Item) (index : Nat) : Run Number :=
  liftM (argument arguments index).toNumber?

def intArgument (arguments : List Item) (index : Nat) : Run Int := do
  pure (← liftM (argument arguments index).toInt?).toInt

def intArgumentOr (arguments : List Item) (index : Nat) (default : Int) : Run Int :=
  if (argument arguments index).isNil then pure default else intArgument arguments index

end Reactor.Script.Library

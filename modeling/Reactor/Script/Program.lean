import Reactor.Script.Operation
import Reactor.Script.Token

/-!
# Programs

The expressions and statements of a script. Programs keep no positions, since a failing script is
only known to have failed.
-/

namespace Reactor.Script

/-- What a local variable is declared to be. -/
inductive Attribute where
  | regular
  | const
  /-- A constant whose value has to be closed at the end of the block. -/
  | close
  deriving DecidableEq

mutual

inductive Expr where
  | nil
  | bool (value : Bool)
  | number (n : Number)
  | string (bytes : Bytes)
  | varargs
  | function (f : Function)
  | name (x : String)
  | index (table key : Expr)
  | call (function : Expr) (arguments : List Expr)
  | method (object : Expr) (name : String) (arguments : List Expr)
  /-- An expression in parentheses, which has exactly one value. -/
  | single (e : Expr)
  | unary (op : UnaryOp) (e : Expr)
  | arithmetic (op : Arithmetic) (a b : Expr)
  | relation (op : Relation) (a b : Expr)
  | concat (a b : Expr)
  | and (a b : Expr)
  | or (a b : Expr)
  | table (fields : List Field)

inductive Field where
  | item (value : Expr)
  | entry (key value : Expr)

inductive Function where
  | mk (parameters : List String) (variadic : Bool) (body : List Statement)

inductive Statement where
  | locals (names : List (String × Attribute)) (values : List Expr)
  | assign (targets values : List Expr)
  | call (e : Expr)
  | block (body : List Statement)
  | loop (condition : Expr) (body : List Statement)
  | repeatUntil (body : List Statement) (condition : Expr)
  | branch (cases : List (Expr × List Statement)) (otherwise : List Statement)
  | count (x : String) (first last : Expr) (step : Option Expr) (body : List Statement)
  | forEach (names : List String) (values : List Expr) (body : List Statement)
  | localFunction (name : String) (f : Function)
  | result (values : List Expr)
  | leave

end

instance : Inhabited Expr := ⟨.nil⟩

end Reactor.Script

/-!
# JSON documents

A document as its text denotes it. Objects keep their entries as written, repeated keys included:
what a repeated key means is decided by whoever reads the document.
-/

namespace Reactor

/-- The number that a JSON number literal denotes. -/
inductive Number where
  /-- A literal without fraction and exponent, if it fits 64 bits, signed or unsigned. -/
  | integer (value : Int)
  | float (value : Float)
  deriving Inhabited

inductive Json where
  | null
  | bool (value : Bool)
  | number (value : Number)
  | string (value : String)
  | array (items : List Json)
  | object (entries : List (String × Json))
  deriving Inhabited

end Reactor

/-!
# UTF-8

Decoding of a byte sequence, with the two ways in which it can fail: a sequence that no further
byte could mend, and an input that ends in the middle of a character.
-/

namespace Reactor.Text

/-- Why a byte sequence is not UTF-8. Positions count bytes from the start. -/
inductive Utf8Fault where
  /-- The `length` bytes from `index` on start no character. -/
  | invalid (length : Nat) (index : Nat)
  /-- The input ends inside the character that starts at `index`. -/
  | incomplete (index : Nat)
  deriving DecidableEq, Repr

namespace Utf8Fault

def message : Utf8Fault → String
  | invalid length index => s!"invalid utf-8 sequence of {length} bytes from index {index}"
  | incomplete index => s!"incomplete utf-8 byte sequence from index {index}"

end Utf8Fault

namespace Utf8

/-- Bytes that continue a character: `10xxxxxx`. -/
def isContinuation (b : UInt8) : Bool :=
  0x80 ≤ b && b ≤ 0xBF

/-- The second bytes allowed after a lead byte of a three-byte character. The bounds exclude
overlong forms and surrogates. -/
def isSecondOfThree (lead second : UInt8) : Bool :=
  (if lead = 0xE0 then 0xA0 else 0x80) ≤ second && second ≤ (if lead = 0xED then 0x9F else 0xBF)

/-- The second bytes allowed after a lead byte of a four-byte character. The bounds exclude
overlong forms and code points above `U+10FFFF`. -/
def isSecondOfFour (lead second : UInt8) : Bool :=
  (if lead = 0xF0 then 0x90 else 0x80) ≤ second && second ≤ (if lead = 0xF4 then 0x8F else 0xBF)

/-- The bits that a continuation byte adds to a code point. -/
def payload (b : UInt8) : Nat :=
  b.toNat % 64

/-- The characters encoded by the bytes from position `index` on. -/
def decodeFrom (index : Nat) : List UInt8 → Except Utf8Fault (List Char)
  | [] => .ok []
  | a :: rest =>
    if a < 0x80 then
      (Char.ofNat a.toNat :: ·) <$> decodeFrom (index + 1) rest
    else if 0xC2 ≤ a && a ≤ 0xDF then
      match rest with
      | [] => .error (.incomplete index)
      | b :: rest =>
        if isContinuation b then
          (Char.ofNat (a.toNat % 32 * 64 + payload b) :: ·) <$> decodeFrom (index + 2) rest
        else .error (.invalid 1 index)
    else if 0xE0 ≤ a && a ≤ 0xEF then
      match rest with
      | [] => .error (.incomplete index)
      | b :: rest =>
        if isSecondOfThree a b then
          match rest with
          | [] => .error (.incomplete index)
          | c :: rest =>
            if isContinuation c then
              (Char.ofNat ((a.toNat % 16 * 64 + payload b) * 64 + payload c) :: ·) <$>
                decodeFrom (index + 3) rest
            else .error (.invalid 2 index)
        else .error (.invalid 1 index)
    else if 0xF0 ≤ a && a ≤ 0xF4 then
      match rest with
      | [] => .error (.incomplete index)
      | b :: rest =>
        if isSecondOfFour a b then
          match rest with
          | [] => .error (.incomplete index)
          | c :: rest =>
            if isContinuation c then
              match rest with
              | [] => .error (.incomplete index)
              | d :: rest =>
                if isContinuation d then
                  (Char.ofNat (((a.toNat % 8 * 64 + payload b) * 64 + payload c) * 64 + payload d)
                    :: ·) <$> decodeFrom (index + 4) rest
                else .error (.invalid 3 index)
            else .error (.invalid 2 index)
        else .error (.invalid 1 index)
    else .error (.invalid 1 index)

/-- The text that a byte sequence encodes. -/
def decode (bytes : List UInt8) : Except Utf8Fault String :=
  String.ofList <$> decodeFrom 0 bytes

def encode (s : String) : List UInt8 :=
  s.toUTF8.toList

end Utf8

end Reactor.Text

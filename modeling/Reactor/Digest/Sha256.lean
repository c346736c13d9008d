/-!
# SHA-256

The digest of a byte sequence: the message is padded to blocks of sixteen words, each block is
expanded to a schedule of sixty-four words, and sixty-four rounds mix the schedule into eight
working words.
-/

namespace Reactor.Digest

/-- The eight words that a round works on, and that a block leaves behind. -/
structure State where
  a : UInt32
  b : UInt32
  c : UInt32
  d : UInt32
  e : UInt32
  f : UInt32
  g : UInt32
  h : UInt32

/-- The state before the first block: fraction bits of the square roots of the first eight
primes. -/
def initial : State :=
  ⟨0x6a09e667, 0xbb67ae85, 0x3c6ef372, 0xa54ff53a, 0x510e527f, 0x9b05688c, 0x1f83d9ab, 0x5be0cd19⟩

/-- One constant per round: fraction bits of the cube roots of the first sixty-four primes. -/
def roundConstants : List UInt32 :=
  [0x428a2f98, 0x71374491, 0xb5c0fbcf, 0xe9b5dba5, 0x3956c25b, 0x59f111f1, 0x923f82a4, 0xab1c5ed5,
    0xd807aa98, 0x12835b01, 0x243185be, 0x550c7dc3, 0x72be5d74, 0x80deb1fe, 0x9bdc06a7, 0xc19bf174,
    0xe49b69c1, 0xefbe4786, 0x0fc19dc6, 0x240ca1cc, 0x2de92c6f, 0x4a7484aa, 0x5cb0a9dc, 0x76f988da,
    0x983e5152, 0xa831c66d, 0xb00327c8, 0xbf597fc7, 0xc6e00bf3, 0xd5a79147, 0x06ca6351, 0x14292967,
    0x27b70a85, 0x2e1b2138, 0x4d2c6dfc, 0x53380d13, 0x650a7354, 0x766a0abb, 0x81c2c92e, 0x92722c85,
    0xa2bfe8a1, 0xa81a664b, 0xc24b8b70, 0xc76c51a3, 0xd192e819, 0xd6990624, 0xf40e3585, 0x106aa070,
    0x19a4c116, 0x1e376c08, 0x2748774c, 0x34b0bcb5, 0x391c0cb3, 0x4ed8aa4a, 0x5b9cca4f, 0x682e6ff3,
    0x748f82ee, 0x78a5636f, 0x84c87814, 0x8cc70208, 0x90befffa, 0xa4506ceb, 0xbef9a3f7, 0xc67178f2]

/-- Rotation to the right by `n` places, for `n` from 1 to 31. -/
def rotate (x : UInt32) (n : UInt32) : UInt32 :=
  x >>> n ||| x <<< (32 - n)

/-- The message followed by one set bit, zeros up to eight bytes before a multiple of sixty-four,
and the length in bits. -/
def pad (message : List UInt8) : List UInt8 :=
  let length := message.length
  let zeros := (64 - (length + 9) % 64) % 64
  message ++ 0x80 :: List.replicate zeros 0 ++
    (List.range 8).map fun i ↦ UInt8.ofNat (8 * length / Nat.pow 256 (7 - i))

def wordsOf : List UInt8 → List UInt32
  | a :: b :: c :: d :: rest =>
    (a.toUInt32 <<< 24 ||| b.toUInt32 <<< 16 ||| c.toUInt32 <<< 8 ||| d.toUInt32) :: wordsOf rest
  | _ => []

/-- Extends a schedule by `count` words, each computed from the sixteen before it. The latest word
stands first. -/
def extend : Nat → List UInt32 → List UInt32
  | 0, schedule => schedule
  | count + 1, schedule =>
    let recent := schedule.getD 1 0
    let early := schedule.getD 14 0
    let mixEarly := rotate early 7 ^^^ rotate early 18 ^^^ early >>> 3
    let mixRecent := rotate recent 17 ^^^ rotate recent 19 ^^^ recent >>> 10
    extend count ((schedule.getD 15 0 + mixEarly + schedule.getD 6 0 + mixRecent) :: schedule)

def round (s : State) (constant word : UInt32) : State :=
  let mixE := rotate s.e 6 ^^^ rotate s.e 11 ^^^ rotate s.e 25
  let choice := s.e &&& s.f ^^^ s.e.complement &&& s.g
  let first := s.h + mixE + choice + constant + word
  let mixA := rotate s.a 2 ^^^ rotate s.a 13 ^^^ rotate s.a 22
  let majority := s.a &&& s.b ^^^ s.a &&& s.c ^^^ s.b &&& s.c
  ⟨first + (mixA + majority), s.a, s.b, s.c, s.d + first, s.e, s.f, s.g⟩

/-- The state after a block of sixteen words. -/
def absorb (s : State) (block : List UInt32) : State :=
  let schedule := (extend 48 block.reverse).reverse
  let t := (roundConstants.zip schedule).foldl (fun t step ↦ round t step.1 step.2) s
  ⟨s.a + t.a, s.b + t.b, s.c + t.c, s.d + t.d, s.e + t.e, s.f + t.f, s.g + t.g, s.h + t.h⟩

def absorbAll : Nat → State → List UInt32 → State
  | 0, s, _ => s
  | count + 1, s, words => absorbAll count (absorb s (words.take 16)) (words.drop 16)

/-- The eight words of the digest. -/
def sha256 (message : List UInt8) : List UInt32 :=
  let words := wordsOf (pad message)
  let s := absorbAll (words.length / 16) initial words
  [s.a, s.b, s.c, s.d, s.e, s.f, s.g, s.h]

/-- A word as eight lower-case hexadecimal digits. -/
def hexWord (word : UInt32) : String :=
  String.ofList ((List.range 8).map fun i ↦ Nat.digitChar (word.toNat / Nat.pow 16 (7 - i) % 16))

/-- The digest of a text's UTF-8 bytes as sixty-four hexadecimal digits. -/
def sha256Hex (text : String) : String :=
  String.join ((sha256 text.toUTF8.toList).map hexWord)

end Reactor.Digest

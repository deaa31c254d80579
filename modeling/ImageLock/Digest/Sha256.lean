/-
The SHA-256 digest.
-/
import ImageLock.Text.Quoted

namespace ImageLock.Digest

def roundConstants : List UInt32 :=
  [
    0x428a2f98, 0x71374491, 0xb5c0fbcf, 0xe9b5dba5, 0x3956c25b, 0x59f111f1, 0x923f82a4, 0xab1c5ed5,
    0xd807aa98, 0x12835b01, 0x243185be, 0x550c7dc3, 0x72be5d74, 0x80deb1fe, 0x9bdc06a7, 0xc19bf174,
    0xe49b69c1, 0xefbe4786, 0x0fc19dc6, 0x240ca1cc, 0x2de92c6f, 0x4a7484aa, 0x5cb0a9dc, 0x76f988da,
    0x983e5152, 0xa831c66d, 0xb00327c8, 0xbf597fc7, 0xc6e00bf3, 0xd5a79147, 0x06ca6351, 0x14292967,
    0x27b70a85, 0x2e1b2138, 0x4d2c6dfc, 0x53380d13, 0x650a7354, 0x766a0abb, 0x81c2c92e, 0x92722c85,
    0xa2bfe8a1, 0xa81a664b, 0xc24b8b70, 0xc76c51a3, 0xd192e819, 0xd6990624, 0xf40e3585, 0x106aa070,
    0x19a4c116, 0x1e376c08, 0x2748774c, 0x34b0bcb5, 0x391c0cb3, 0x4ed8aa4a, 0x5b9cca4f, 0x682e6ff3,
    0x748f82ee, 0x78a5636f, 0x84c87814, 0x8cc70208, 0x90befffa, 0xa4506ceb, 0xbef9a3f7, 0xc67178f2
  ]

structure State where
  a : UInt32
  b : UInt32
  c : UInt32
  d : UInt32
  e : UInt32
  f : UInt32
  g : UInt32
  h : UInt32

namespace State

def start : State :=
  ⟨0x6a09e667, 0xbb67ae85, 0x3c6ef372, 0xa54ff53a, 0x510e527f, 0x9b05688c, 0x1f83d9ab, 0x5be0cd19⟩

def add (s t : State) : State :=
  ⟨s.a + t.a, s.b + t.b, s.c + t.c, s.d + t.d, s.e + t.e, s.f + t.f, s.g + t.g, s.h + t.h⟩

def words (s : State) : List UInt32 := [s.a, s.b, s.c, s.d, s.e, s.f, s.g, s.h]

end State

def rotate (x : UInt32) (n : UInt32) : UInt32 := (x >>> n) ||| (x <<< (32 - n))

def round (s : State) (constant word : UInt32) : State :=
  let mixed := rotate s.e 6 ^^^ rotate s.e 11 ^^^ rotate s.e 25
  let choice := (s.e &&& s.f) ^^^ (~~~s.e &&& s.g)
  let t := s.h + mixed + choice + constant + word
  let mixed := rotate s.a 2 ^^^ rotate s.a 13 ^^^ rotate s.a 22
  let majority := (s.a &&& s.b) ^^^ (s.a &&& s.c) ^^^ (s.b &&& s.c)
  ⟨t + mixed + majority, s.a, s.b, s.c, s.d + t, s.e, s.f, s.g⟩

/-- The word that follows sixteen words, which are in reverse order. -/
def nextWord (last : List UInt32) : UInt32 :=
  let w (n : Nat) : UInt32 := (last[n - 1]?).getD 0
  let x := w 15
  let y := w 2
  w 16 + (rotate x 7 ^^^ rotate x 18 ^^^ (x >>> 3)) + w 7 +
    (rotate y 17 ^^^ rotate y 19 ^^^ (y >>> 10))

/-- The words of a block and those made from them, in reverse order. -/
def schedule : Nat → List UInt32 → List UInt32
  | 0, words => words
  | n + 1, words => schedule n (nextWord (words.take 16) :: words)

def compress (s : State) (block : List UInt32) : State :=
  let words := (schedule 48 block.reverse).reverse
  s.add ((roundConstants.zip words).foldl (fun s (k, w) => round s k w) s)

/-- The bytes of a number, the highest first. -/
def bigEndian (width n : Nat) : List UInt8 :=
  (List.range width).reverse.map fun i => UInt8.ofNat (n / Nat.pow 256 i % 256)

/-- Fills up to blocks of 64 bytes: a one bit, zeros, and the length in bits. -/
def pad (bytes : List UInt8) : List UInt8 :=
  let zeros := (119 - bytes.length % 64) % 64
  bytes ++ 0x80 :: List.replicate zeros 0 ++ bigEndian 8 (8 * bytes.length)

def toWords : List UInt8 → List UInt32
  | a :: b :: c :: d :: rest =>
      ((a.toUInt32 <<< 24) ||| (b.toUInt32 <<< 16) ||| (c.toUInt32 <<< 8) ||| d.toUInt32) ::
        toWords rest
  | _ => []

/-- Takes blocks of sixteen words one after the other. -/
def absorb (s : State) (words : List UInt32) : State :=
  if _h : words.length < 16 then s else absorb (compress s (words.take 16)) (words.drop 16)
termination_by words.length
decreasing_by simp; omega

def hexByte (b : UInt8) : List Char :=
  [Text.hexDigit (b.toNat / 16), Text.hexDigit (b.toNat % 16)]

/-- The digest in lower case hexadecimal. -/
def sha256 (bytes : ByteArray) : String :=
  let words := (absorb State.start (toWords (pad bytes.toList))).words
  String.ofList (words.flatMap fun w => (bigEndian 4 w.toNat).flatMap hexByte)

end ImageLock.Digest

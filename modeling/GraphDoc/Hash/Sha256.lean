import GraphDoc.Text.Basic

/-!
# GraphDoc.Hash.Sha256

SHA-256 of a list of bytes, in hexadecimal.

The message is padded to a whole number of 64-byte blocks.  Each block is
spread over 64 words, held last one first so that the word sixteen places back
is at a fixed place in the list, and sixty-four rounds mix them into eight
working words, which are then added to the hash so far.
-/

namespace GraphDoc.Sha256

/-- Eight words: the hash so far, or the working words of a block. -/
structure Words where
  a : UInt32
  b : UInt32
  c : UInt32
  d : UInt32
  e : UInt32
  f : UInt32
  g : UInt32
  h : UInt32

/-- The first words of the fractional parts of the square roots of the first
eight primes. -/
def initial : Words :=
  ⟨0x6a09e667, 0xbb67ae85, 0x3c6ef372, 0xa54ff53a, 0x510e527f, 0x9b05688c, 0x1f83d9ab, 0x5be0cd19⟩

/-- The first words of the fractional parts of the cube roots of the first
sixty-four primes. -/
def roundConstants : List UInt32 := [
  0x428a2f98, 0x71374491, 0xb5c0fbcf, 0xe9b5dba5, 0x3956c25b, 0x59f111f1, 0x923f82a4, 0xab1c5ed5,
  0xd807aa98, 0x12835b01, 0x243185be, 0x550c7dc3, 0x72be5d74, 0x80deb1fe, 0x9bdc06a7, 0xc19bf174,
  0xe49b69c1, 0xefbe4786, 0x0fc19dc6, 0x240ca1cc, 0x2de92c6f, 0x4a7484aa, 0x5cb0a9dc, 0x76f988da,
  0x983e5152, 0xa831c66d, 0xb00327c8, 0xbf597fc7, 0xc6e00bf3, 0xd5a79147, 0x06ca6351, 0x14292967,
  0x27b70a85, 0x2e1b2138, 0x4d2c6dfc, 0x53380d13, 0x650a7354, 0x766a0abb, 0x81c2c92e, 0x92722c85,
  0xa2bfe8a1, 0xa81a664b, 0xc24b8b70, 0xc76c51a3, 0xd192e819, 0xd6990624, 0xf40e3585, 0x106aa070,
  0x19a4c116, 0x1e376c08, 0x2748774c, 0x34b0bcb5, 0x391c0cb3, 0x4ed8aa4a, 0x5b9cca4f, 0x682e6ff3,
  0x748f82ee, 0x78a5636f, 0x84c87814, 0x8cc70208, 0x90befffa, 0xa4506ceb, 0xbef9a3f7, 0xc67178f2]

/-! ## words -/

def rotate (x : UInt32) (n : UInt32) : UInt32 := (x >>> n) ||| (x <<< (32 - n))

/-- The mixing of a word in the message schedule, fifteen places back. -/
def lowSigma (x : UInt32) : UInt32 := rotate x 7 ^^^ rotate x 18 ^^^ (x >>> 3)

/-- The mixing of a word in the message schedule, two places back. -/
def highSigma (x : UInt32) : UInt32 := rotate x 17 ^^^ rotate x 19 ^^^ (x >>> 10)

/-- The big-endian bytes of a natural number, `size` of them. -/
def bigEndian (size n : Nat) : List UInt8 :=
  (List.range size).map fun i => UInt8.ofNat (n >>> (8 * (size - 1 - i)))

/-! ## a block -/

/-- The words of a block, four bytes each. -/
def blockWords : List UInt8 → List UInt32
  | a :: b :: c :: d :: rest =>
    ((a.toUInt32 <<< 24) ||| (b.toUInt32 <<< 16) ||| (c.toUInt32 <<< 8) ||| d.toUInt32)
      :: blockWords rest
  | _ => []

/-- Adds `count` words to a schedule that is held last word first. -/
def extend (schedule : List UInt32) : Nat → List UInt32
  | 0 => schedule
  | count + 1 =>
    let word :=
      highSigma (schedule.getD 1 0) + schedule.getD 6 0 + lowSigma (schedule.getD 14 0) +
        schedule.getD 15 0
    extend (word :: schedule) count

def Words.round (w : Words) (constant word : UInt32) : Words :=
  let choice := (w.e &&& w.f) ^^^ (~~~w.e &&& w.g)
  let majority := (w.a &&& w.b) ^^^ (w.a &&& w.c) ^^^ (w.b &&& w.c)
  let t1 := w.h + (rotate w.e 6 ^^^ rotate w.e 11 ^^^ rotate w.e 25) + choice + constant + word
  let t2 := (rotate w.a 2 ^^^ rotate w.a 13 ^^^ rotate w.a 22) + majority
  ⟨t1 + t2, w.a, w.b, w.c, w.d + t1, w.e, w.f, w.g⟩

/-- Word by word sum. -/
def Words.add (w v : Words) : Words :=
  ⟨w.a + v.a, w.b + v.b, w.c + v.c, w.d + v.d, w.e + v.e, w.f + v.f, w.g + v.g, w.h + v.h⟩

/-- The hash after one more block. -/
def Words.absorb (hash : Words) (block : List UInt8) : Words :=
  let schedule := (extend (blockWords block).reverse 48).reverse
  let mixed := (roundConstants.zip schedule).foldl (fun w r => w.round r.1 r.2) hash
  hash.add mixed

/-! ## the message -/

/-- The message, a single one bit, zeros up to a whole number of blocks less
eight bytes, and the length of the message in bits. -/
def padded (message : List UInt8) : List UInt8 :=
  let zeros := (119 - message.length % 64) % 64
  message ++ 0x80 :: List.replicate zeros 0 ++ bigEndian 8 (8 * message.length)

/-- The blocks of a padded message, `count` of them. -/
def blocks (message : List UInt8) : Nat → List (List UInt8)
  | 0 => []
  | count + 1 => message.take 64 :: blocks (message.drop 64) count

def hash (message : List UInt8) : Words :=
  let whole := padded message
  (blocks whole (whole.length / 64)).foldl Words.absorb initial

/-- A byte in two hexadecimal digits. -/
def byteText (b : UInt8) : List Char :=
  [Nat.digitChar (b.toNat / 16), Nat.digitChar (b.toNat % 16)]

def Words.bytes (w : Words) : List UInt8 :=
  [w.a, w.b, w.c, w.d, w.e, w.f, w.g, w.h].flatMap fun x => bigEndian 4 x.toNat

/-- The hash of a message in hexadecimal. -/
def digest (message : List UInt8) : Text :=
  Text.ofChars ((hash message).bytes.flatMap byteText)

end GraphDoc.Sha256

import Mathlib.Data.List.Basic

/-!
# SHA-256

The hash function, on lists of bytes: a message is padded to blocks of 64 bytes, each block
is expanded to a schedule of 64 words, and each word of the schedule moves the eight
working variables one round on.
-/

namespace Lib.Sha256

/-- The working variables, and the hash between two blocks. -/
structure Vars where
  a : UInt32
  b : UInt32
  c : UInt32
  d : UInt32
  e : UInt32
  f : UInt32
  g : UInt32
  h : UInt32

/-- The hash of no block: the square roots of the first eight primes. -/
def Vars.initial : Vars :=
  ⟨0x6a09e667, 0xbb67ae85, 0x3c6ef372, 0xa54ff53a, 0x510e527f, 0x9b05688c, 0x1f83d9ab, 0x5be0cd19⟩

/-- The constants of the rounds: the cube roots of the first 64 primes. -/
def roundConstants : List UInt32 :=
  [0x428a2f98, 0x71374491, 0xb5c0fbcf, 0xe9b5dba5, 0x3956c25b, 0x59f111f1,
    0x923f82a4, 0xab1c5ed5, 0xd807aa98, 0x12835b01, 0x243185be, 0x550c7dc3,
    0x72be5d74, 0x80deb1fe, 0x9bdc06a7, 0xc19bf174, 0xe49b69c1, 0xefbe4786,
    0x0fc19dc6, 0x240ca1cc, 0x2de92c6f, 0x4a7484aa, 0x5cb0a9dc, 0x76f988da,
    0x983e5152, 0xa831c66d, 0xb00327c8, 0xbf597fc7, 0xc6e00bf3, 0xd5a79147,
    0x06ca6351, 0x14292967, 0x27b70a85, 0x2e1b2138, 0x4d2c6dfc, 0x53380d13,
    0x650a7354, 0x766a0abb, 0x81c2c92e, 0x92722c85, 0xa2bfe8a1, 0xa81a664b,
    0xc24b8b70, 0xc76c51a3, 0xd192e819, 0xd6990624, 0xf40e3585, 0x106aa070,
    0x19a4c116, 0x1e376c08, 0x2748774c, 0x34b0bcb5, 0x391c0cb3, 0x4ed8aa4a,
    0x5b9cca4f, 0x682e6ff3, 0x748f82ee, 0x78a5636f, 0x84c87814, 0x8cc70208,
    0x90befffa, 0xa4506ceb, 0xbef9a3f7, 0xc67178f2]

def rotateRight (x n : UInt32) : UInt32 := x >>> n ||| x <<< (32 - n)

def Vars.add (v w : Vars) : Vars :=
  ⟨v.a + w.a, v.b + w.b, v.c + w.c, v.d + w.d, v.e + w.e, v.f + w.f, v.g + w.g, v.h + w.h⟩

/-- **One round**, with the sum of its constant and its word. -/
def Vars.round (v : Vars) (x : UInt32) : Vars :=
  let sum1 := rotateRight v.e 6 ^^^ rotateRight v.e 11 ^^^ rotateRight v.e 25
  let choice := v.e &&& v.f ^^^ ~~~v.e &&& v.g
  let temp := v.h + sum1 + choice + x
  let sum0 := rotateRight v.a 2 ^^^ rotateRight v.a 13 ^^^ rotateRight v.a 22
  let majority := v.a &&& v.b ^^^ v.a &&& v.c ^^^ v.b &&& v.c
  ⟨temp + (sum0 + majority), v.a, v.b, v.c, v.d + temp, v.e, v.f, v.g⟩

/-- The next word of a schedule, of which the last word comes first. -/
def nextWord (ws : List UInt32) : UInt32 :=
  let w15 := ws.getD 14 0
  let w2 := ws.getD 1 0
  let sigma0 := rotateRight w15 7 ^^^ rotateRight w15 18 ^^^ w15 >>> 3
  let sigma1 := rotateRight w2 17 ^^^ rotateRight w2 19 ^^^ w2 >>> 10
  ws.getD 15 0 + sigma0 + ws.getD 6 0 + sigma1

/-- A schedule with `n` words more. -/
def expand : ℕ → List UInt32 → List UInt32
  | 0, ws => ws
  | n + 1, ws => expand n (nextWord ws :: ws)

/-- The words of a block, the highest byte first. -/
def words : List UInt8 → List UInt32
  | a :: b :: c :: d :: rest =>
    (a.toUInt32 <<< 24 ||| b.toUInt32 <<< 16 ||| c.toUInt32 <<< 8 ||| d.toUInt32) :: words rest
  | _ => []

/-- **One block.** -/
def Vars.block (v : Vars) (bytes : List UInt8) : Vars :=
  -- sixteen words of the block, and 48 that are computed from them
  let schedule := (expand 48 (words bytes).reverse).reverse
  v.add ((List.zipWith (· + ·) roundConstants schedule).foldl Vars.round v)

/-- The `n` bytes of a number, the highest first. -/
def bigEndian : ℕ → ℕ → List UInt8
  | 0, _ => []
  | n + 1, x => bigEndian n (x / 256) ++ [UInt8.ofNat x]

/-- A message with a bit set, as many zeros as a whole number of blocks takes, and its length
in bits. -/
def pad (message : List UInt8) : List UInt8 :=
  message ++ 0x80 :: List.replicate ((119 - message.length % 64) % 64) 0 ++
    bigEndian 8 (8 * message.length)

/-- The first `n` blocks. -/
def blocks : ℕ → List UInt8 → List (List UInt8)
  | 0, _ => []
  | n + 1, bytes => bytes.take 64 :: blocks n (bytes.drop 64)

end Lib.Sha256

namespace Lib

open Sha256 in
/-- **SHA-256.** -/
def sha256 (message : List UInt8) : List UInt8 :=
  let padded := pad message
  let v := (blocks (padded.length / 64) padded).foldl Vars.block Vars.initial
  [v.a, v.b, v.c, v.d, v.e, v.f, v.g, v.h].flatMap fun x => bigEndian 4 x.toNat

/-- The hash of `abc`. -/
example : (sha256 [0x61, 0x62, 0x63]).take 8 =
    [0xba, 0x78, 0x16, 0xbf, 0x8f, 0x01, 0xcf, 0xea] := by decide +kernel

end Lib

import Interleave.Text.Hex

set_option autoImplicit false

/-! The SHA-256 digest of a list of bytes, and its lower-case hexadecimal text. -/

namespace Interleave.Sha256

-- Powers of naturals are the core ones, whatever else a module imports.
attribute [local instance (high)] instPowNat

structure State where
  a : UInt32
  b : UInt32
  c : UInt32
  d : UInt32
  e : UInt32
  f : UInt32
  g : UInt32
  h : UInt32

def initial : State :=
  ⟨0x6a09e667, 0xbb67ae85, 0x3c6ef372, 0xa54ff53a, 0x510e527f, 0x9b05688c, 0x1f83d9ab, 0x5be0cd19⟩

def roundConstants : List UInt32 :=
  [0x428a2f98, 0x71374491, 0xb5c0fbcf, 0xe9b5dba5, 0x3956c25b, 0x59f111f1, 0x923f82a4, 0xab1c5ed5,
   0xd807aa98, 0x12835b01, 0x243185be, 0x550c7dc3, 0x72be5d74, 0x80deb1fe, 0x9bdc06a7, 0xc19bf174,
   0xe49b69c1, 0xefbe4786, 0x0fc19dc6, 0x240ca1cc, 0x2de92c6f, 0x4a7484aa, 0x5cb0a9dc, 0x76f988da,
   0x983e5152, 0xa831c66d, 0xb00327c8, 0xbf597fc7, 0xc6e00bf3, 0xd5a79147, 0x06ca6351, 0x14292967,
   0x27b70a85, 0x2e1b2138, 0x4d2c6dfc, 0x53380d13, 0x650a7354, 0x766a0abb, 0x81c2c92e, 0x92722c85,
   0xa2bfe8a1, 0xa81a664b, 0xc24b8b70, 0xc76c51a3, 0xd192e819, 0xd6990624, 0xf40e3585, 0x106aa070,
   0x19a4c116, 0x1e376c08, 0x2748774c, 0x34b0bcb5, 0x391c0cb3, 0x4ed8aa4a, 0x5b9cca4f, 0x682e6ff3,
   0x748f82ee, 0x78a5636f, 0x84c87814, 0x8cc70208, 0x90befffa, 0xa4506ceb, 0xbef9a3f7, 0xc67178f2]

def rotate (word : UInt32) (places : UInt32) : UInt32 :=
  (word >>> places) ||| (word <<< (32 - places))

def wordOfBytes (a b c d : UInt8) : UInt32 :=
  (a.toUInt32 <<< 24) ||| (b.toUInt32 <<< 16) ||| (c.toUInt32 <<< 8) ||| d.toUInt32

/-- Big-endian words; fewer than four bytes at the end are dropped. -/
def words : List UInt8 → List UInt32
  | a :: b :: c :: d :: rest => wordOfBytes a b c d :: words rest
  | _ => []

def bigEndian (count value : Nat) : List UInt8 :=
  (List.range count).reverse.map (fun place => UInt8.ofNat (value / 256 ^ place % 256))

/-- The message, a set bit, zeros up to eight bytes below a whole block, and its bit length. -/
def padded (message : List UInt8) : List UInt8 :=
  let zeros := (119 - message.length % 64) % 64
  message ++ 0x80 :: List.replicate zeros 0 ++ bigEndian 8 (8 * message.length)

def extend (schedule : Array UInt32) : Array UInt32 :=
  let back (places : Nat) : UInt32 := schedule.getD (schedule.size - places) 0
  let x := back 15
  let y := back 2
  let small := rotate x 7 ^^^ rotate x 18 ^^^ (x >>> 3)
  let large := rotate y 17 ^^^ rotate y 19 ^^^ (y >>> 10)
  schedule.push (back 16 + small + back 7 + large)

def schedule (block : List UInt32) : List UInt32 :=
  (Nat.repeat extend 48 block.toArray).toList

def round (state : State) (key : UInt32) : State :=
  let large := rotate state.e 6 ^^^ rotate state.e 11 ^^^ rotate state.e 25
  let choice := (state.e &&& state.f) ^^^ (~~~state.e &&& state.g)
  let first := state.h + large + choice + key
  let small := rotate state.a 2 ^^^ rotate state.a 13 ^^^ rotate state.a 22
  let majority := (state.a &&& state.b) ^^^ (state.a &&& state.c) ^^^ (state.b &&& state.c)
  { a := first + (small + majority)
    b := state.a
    c := state.b
    d := state.c
    e := state.d + first
    f := state.e
    g := state.f
    h := state.g }

def compress (state : State) (block : List UInt32) : State :=
  let last := ((schedule block).zipWith (· + ·) roundConstants).foldl round state
  { a := state.a + last.a
    b := state.b + last.b
    c := state.c + last.c
    d := state.d + last.d
    e := state.e + last.e
    f := state.f + last.f
    g := state.g + last.g
    h := state.h + last.h }

def compressAll : (blocks : Nat) → State → List UInt32 → State
  | 0, state, _ => state
  | blocks + 1, state, words => compressAll blocks (compress state (words.take 16)) (words.drop 16)

def digest (message : List UInt8) : List UInt8 :=
  let words := words (padded message)
  let state := compressAll (words.length / 16) initial words
  [state.a, state.b, state.c, state.d, state.e, state.f, state.g, state.h].flatMap
    (fun word => bigEndian 4 word.toNat)

def hexDigest (message : List UInt8) : String := Hex.ofBytes (digest message)

end Interleave.Sha256

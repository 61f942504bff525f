/-
The 64-bit hash XXH64 of a short run of 64-bit words.

`digest seed words` hashes the little-endian bytes of at most three words, the range in which the algorithm has a
single lane: each word is mixed in turn and the result is spread over all bits.
-/
namespace SceneGrammar.Xxh64

/-- the five odd constants of the algorithm -/
def p1 : UInt64 := 0x9E3779B185EBCA87

@[inherit_doc p1] def p2 : UInt64 := 0xC2B2AE3D27D4EB4F

@[inherit_doc p1] def p3 : UInt64 := 0x165667B19E3779F9

@[inherit_doc p1] def p4 : UInt64 := 0x85EBCA77C2B2AE63

@[inherit_doc p1] def p5 : UInt64 := 0x27D4EB2F165667C5

/-- an integer modulo `2 ^ 64` -/
def wordOf (i : Int) : UInt64 := UInt64.ofNat (i % (Nat.pow 2 64 : Nat)).toNat

/-- turn the bits of `x` left by `n` places -/
def rotate (x : UInt64) (n : UInt64) : UInt64 := (x <<< n) ||| (x >>> (64 - n))

/-- one word spread by the first two constants -/
def scramble (word : UInt64) : UInt64 := rotate (word * p2) 31 * p1

/-- mix one word into the running value -/
def absorb (h word : UInt64) : UInt64 := rotate (h ^^^ scramble word) 27 * p1 + p4

/-- the closing spread -/
def finish (h : UInt64) : UInt64 :=
  let h := (h ^^^ (h >>> 33)) * p2
  let h := (h ^^^ (h >>> 29)) * p3
  h ^^^ (h >>> 32)

/-- the hash of the bytes of `words`, least significant first -/
def digest (seed : UInt64) (words : List UInt64) : UInt64 :=
  finish (words.foldl absorb (seed + p5 + UInt64.ofNat (8 * words.length)))

end SceneGrammar.Xxh64

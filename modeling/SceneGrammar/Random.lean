/-
Reseedable sources of random numbers.

A source is a counter over a hash: draw `n` since the last reset is `word key n`, where the key is the seed modulo
`2 ^ 64`. Seed zero stands for "unseeded": every reset then takes a fresh key from the entropy pool. A source that has
never been reset resets itself on its first draw.

Main definitions: `RandomSource.reset`, `reseed`, `next` (one draw, as the integer `k` of the fraction `k / 2 ^ 53`)
and `nextInt`, which scales a draw into a range by integer arithmetic that rounds to 53 binary digits twice (`scaled`).
-/
import SceneGrammar.Rounding
import SceneGrammar.Scalar
import SceneGrammar.Xxh64

namespace SceneGrammar

/-- a pool of fresh keys and how many have been taken from it -/
structure Entropy where
  stream : Nat → UInt64
  taken : Nat

namespace Entropy

/-- take one key -/
def take (e : Entropy) : UInt64 × Entropy :=
  (e.stream e.taken, { e with taken := e.taken + 1 })

end Entropy

/-- why a range gives no integer -/
inductive RangeError where
  /-- no integer lies in `[low, high)` -/
  | empty (low high : Int)
  /-- the width of the range is beyond the range of doubles -/
  | tooWide
  deriving DecidableEq, Repr

/-- what is said about a range that gives no integer -/
def RangeError.message : RangeError → String
  | .empty low high => "Empty random range [" ++ toString low ++ ", " ++ toString high ++ ")"
  | .tooWide => "The range is too wide"

/-- a seeded counter; the key is absent until the first reset or draw -/
structure RandomSource where
  seed : Int
  key : Option UInt64
  draws : Nat

namespace RandomSource

/-- a source that has drawn nothing yet -/
def ofSeed (seed : Int) : RandomSource := ⟨seed, none, 0⟩

/-- the key of a seed other than zero -/
def keyOf (seed : Int) : UInt64 := Xxh64.wordOf seed

/-- draw number `n` under a key -/
def word (key : UInt64) (n : Nat) : UInt64 := Xxh64.digest 0 [key, UInt64.ofNat n]

/-- the top 53 bits of a word -/
def fraction (w : UInt64) : Nat := (w >>> 11).toNat

/-- start the draws of the stored seed again -/
def reset (r : RandomSource) (e : Entropy) : RandomSource × Entropy :=
  if r.seed = 0 then
    let (key, e) := e.take
    ({ r with key := some key, draws := 0 }, e)
  else ({ r with key := some (keyOf r.seed), draws := 0 }, e)

/-- store another seed and start its draws -/
def reseed (r : RandomSource) (seed : Int) (e : Entropy) : RandomSource × Entropy :=
  { r with seed }.reset e

/-- one draw, as the integer `k` of the fraction `k / 2 ^ 53` -/
def next (r : RandomSource) (e : Entropy) : Nat × RandomSource × Entropy :=
  match r.key with
  | some key => (fraction (word key r.draws), { r with draws := r.draws + 1 }, e)
  | none =>
    let (r, e) := r.reset e
    (fraction (word (r.key.getD 0) r.draws), { r with draws := r.draws + 1 }, e)

/-- where the fraction `k / 2 ^ 53` of a width falls, counted from `low` -/
def landing (low : Int) (width k : Nat) : Int :=
  low + (Rounding.toBits 53 (Rounding.toBits 53 width * k) / Nat.pow 2 53 : Nat)

/-- the integer of `[low, high)` that the fraction `k / 2 ^ 53` falls on -/
def scaled (low high : Int) (k : Nat) : Except RangeError Int :=
  let width := (high - low).toNat
  if Nat.pow 2 1024 ≤ Rounding.toBits 53 width then .error .tooWide else .ok (landing low width k)

/-- a random integer of `[low, high)`; an empty range is refused before anything is drawn -/
def nextInt (r : RandomSource) (low high : Int) (e : Entropy) :
    Except RangeError Int × RandomSource × Entropy :=
  if high ≤ low then (.error (.empty low high), r, e)
  else
    let (k, r, e) := r.next e
    (scaled low high k, r, e)

/-- true with a given probability -/
def nextBool {α : Type} [Scalar α] (r : RandomSource) (probability : α) (e : Entropy) :
    Bool × RandomSource × Entropy :=
  let (k, r, e) := r.next e
  (decide (Scalar.unit k < probability), r, e)

/-- how a source is shown -/
def text (r : RandomSource) : String :=
  "RandomSource(seed=" ++ toString r.seed ++ ", draws=" ++ toString r.draws ++ ")"

end RandomSource

end SceneGrammar

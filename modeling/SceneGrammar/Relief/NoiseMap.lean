/-
Layered noise maps.

A plan names the parameters of one map. `rawMap` sums octaves of value noise at rising frequency and falling amplitude;
`normalise` stretches the sums to the span from zero to one; `noiseMap` does both and takes off a falloff if the plan
asks for one. The lattice and the octaves' offsets are parameters of `layered`; `noiseMap` draws them from the seed.
-/
import SceneGrammar.Relief.ValueNoise
import SceneGrammar.Relief.Falloff

namespace SceneGrammar.Relief

/-- the parameters of one noise map -/
structure Plan (α : Type) where
  scale : α
  octaves : Int
  persistence : α
  lacunarity : α
  seed : Int
  offsetX : α
  offsetY : α
  falloff : Bool

variable {α : Type} [Scalar α]

namespace Plan

/-- the parameters of a map nobody has asked anything special of -/
def standard : Plan α :=
  { scale := 50.0, octaves := 4, persistence := 0.5, lacunarity := 2.0, seed := 0
    offsetX := 0.0, offsetY := 0.0, falloff := false }

/-- the plan with scale, octave count and lacunarity raised to what makes sense -/
def clamped (p : Plan α) : Plan α :=
  { p with
    scale := Scalar.greatest p.scale Scalar.zero
    octaves := max p.octaves 1
    lacunarity := Scalar.greatest p.lacunarity Scalar.one }

/-- the divisor of sample points; a scale of zero would divide by zero -/
def divisor (p : Plan α) : α := if Scalar.zero < p.scale then p.scale else 0.0001

/-- the seed of the octaves' offsets; zero would not be reproducible -/
def sourceSeed (p : Plan α) : Int := if p.seed = 0 then 0x5EED else p.seed

/-- octaves are displaced by less than this along each axis -/
def reach : Nat := 100000

/-- the displacement of octave `i`: draws `2 i` and `2 i + 1` of the plan's source, plus the plan's offset -/
def octaveOffset (p : Plan α) (i : Nat) : α × α :=
  let draw (n : Nat) : α :=
    let k := RandomSource.fraction (RandomSource.word (RandomSource.keyOf p.sourceSeed) n)
    Scalar.ofInt (RandomSource.landing (-reach) (2 * reach) k)
  (draw (2 * i) + p.offsetX, draw (2 * i + 1) + p.offsetY)

/-- the displacements of all octaves -/
def offsets (p : Plan α) : List (α × α) := (List.range p.octaves.toNat).map p.octaveOffset

end Plan

/-- the running sum over octaves at one cell -/
structure Layering (α : Type) where
  amplitude : α
  frequency : α
  height : α

/-- add one octave, sampled at the cell's distance `(dx, dy)` from the centre -/
def Layering.add (p : Plan α) (lattice : Int → Int → α) (dx dy : α) (l : Layering α) (offset : α × α) :
    Except ReliefError (Layering α) := do
  let qx ← (Scalar.divide dx p.divisor).mapError .number
  let qy ← (Scalar.divide dy p.divisor).mapError .number
  let noise ← valueNoise lattice (qx * l.frequency + offset.1) (qy * l.frequency + offset.2)
  let sample := noise * Scalar.ofInt 2 - Scalar.one
  return { amplitude := l.amplitude * p.persistence
           frequency := l.frequency * p.lacunarity
           height := l.height + sample * l.amplitude }

/-- the sum of all octaves at one cell -/
def rawHeight (p : Plan α) (lattice : Int → Int → α) (offsets : List (α × α)) (width height : Int)
    (x y : Nat) : Except ReliefError α := do
  let dx := Scalar.ofInt x - Scalar.ofInt width / Scalar.ofInt 2
  let dy := Scalar.ofInt y - Scalar.ofInt height / Scalar.ofInt 2
  let l ← offsets.foldlM (Layering.add p lattice dx dy) ⟨Scalar.one, Scalar.one, Scalar.zero⟩
  return l.height

/-- the sums of all octaves, before they are stretched -/
def rawMap (p : Plan α) (lattice : Int → Int → α) (offsets : List (α × α)) (width height : Int) :
    Except ReliefError (HeightMap α) :=
  if Scalar.fits α width ∧ Scalar.fits α height then
    HeightMap.build width height (rawHeight p lattice offsets width height)
  else .error (.number .unrepresentable)

/-- the least and greatest value seen so far, with one more value; an undefined one is no start -/
def widen : Option (α × α) → α → Option (α × α)
  | none, a => if a == a then some (a, a) else none
  | some (lo, hi), a => some (Scalar.least lo a, Scalar.greatest hi a)

/-- where `a` lies between `lo` and `hi`, as a fraction; all of a single point is at zero -/
def fractionBetween (lo hi a : α) : Except NumberError α :=
  if lo == hi then .ok Scalar.zero
  else do
    let q ← Scalar.divide (a - lo) (hi - lo)
    return Scalar.clamp Scalar.zero Scalar.one q

/-- the map stretched so that its least value is zero and its greatest one; without a defined value it stays -/
def normalise (m : HeightMap α) : Except ReliefError (HeightMap α) :=
  match m.values.foldl widen none with
  | none => .ok m
  | some (lo, hi) => m.mapM fun a => (fractionBetween lo hi a).mapError .number

/-- a map over a given lattice and given displacements of the octaves -/
def layered (p : Plan α) (lattice : Int → Int → α) (offsets : List (α × α)) (width height : Int) :
    Except ReliefError (HeightMap α) := do
  let raw ← rawMap p lattice offsets width height
  let m ← normalise raw
  if p.falloff then press m (← falloffMap width (some height)) else return m

/-- the noise map of a plan -/
def noiseMap (p : Plan α) (width height : Int) : Except ReliefError (HeightMap α) :=
  let p := p.clamped
  layered p (hashLattice p.seed) p.offsets width height

end SceneGrammar.Relief

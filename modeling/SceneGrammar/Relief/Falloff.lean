/-
Falloff maps, which press the border of a height map down.

The falloff of a cell is a curve of its distance from the centre, measured along the axis where it is greater: zero in
the middle, one on the first row and column. `press` takes a falloff map off a height map.
-/
import SceneGrammar.Relief.HeightMap

namespace SceneGrammar.Relief

variable {α : Type} [Scalar α]

/-- the curve `v³ / (v³ + (2.2 - 2.2 v)³)` -/
def falloffCurve (v : α) : Except NumberError α :=
  let a := Scalar.cube v
  Scalar.divide a (a + Scalar.cube (2.2 - 2.2 * v))

/-- a cell's place along an axis of `n` cells, from minus one at the first -/
def axis (i n : Nat) : Except NumberError α := do
  let q ← Scalar.divide (Scalar.ofInt i) (Scalar.ofInt n)
  return q * Scalar.ofInt 2 - Scalar.one

/-- the falloff of one cell -/
def falloffAt (width height x y : Nat) : Except NumberError α := do
  let u ← axis x width
  let v ← axis y height
  falloffCurve (Scalar.greatest (Scalar.magnitude u) (Scalar.magnitude v))

/-- the falloff map of a size; a missing height is the width -/
def falloffMap (width : Int) (height : Option Int) : Except ReliefError (HeightMap α) :=
  let height := height.getD width
  HeightMap.build width height fun x y =>
    (falloffAt width.toNat height.toNat x y).mapError .number

/-- a height map less a falloff of its size, kept between zero and one -/
def press (m falloff : HeightMap α) : Except ReliefError (HeightMap α) :=
  if h : m.width = falloff.width ∧ m.height = falloff.height then
    .ok (m.zipWith (fun a b => Scalar.clamp Scalar.zero Scalar.one (a - b)) falloff h)
  else .error (.mismatch falloff.width falloff.height m.width m.height)

end SceneGrammar.Relief

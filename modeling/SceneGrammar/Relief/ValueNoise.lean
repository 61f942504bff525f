/-
Value noise: a smooth surface through random heights on the integer lattice.

`valueNoise lattice x y` blends the heights of the four lattice points around `(x, y)`; along each axis the weight is
`smoothstep` of the distance from the lower point. The lattice is a parameter; `hashLattice` is the one in use, a hash
of the two coordinates under a seed. Lattice coordinates are 64-bit integers.
-/
import SceneGrammar.Random
import SceneGrammar.Relief.HeightMap

namespace SceneGrammar.Relief

variable {α : Type} [Scalar α]

/-- whether an integer is a lattice coordinate -/
def inLattice (i : Int) : Bool := -(Nat.pow 2 63 : Nat) ≤ i ∧ i < (Nat.pow 2 63 : Nat)

/-- the height of a lattice point under a seed, below one -/
def hashLattice (seed : Int) (x y : Int) : α :=
  Scalar.unit (RandomSource.fraction (Xxh64.digest (Xxh64.wordOf seed) [Xxh64.wordOf x, Xxh64.wordOf y]))

/-- the weight `t² (3 - 2 t)`, flat at zero and one -/
def smoothstep (t : α) : α := t * t * (Scalar.ofInt 3 - Scalar.ofInt 2 * t)

/-- the point at `t` on the way from `a` to `b` -/
def between (a b t : α) : α := a + (b - a) * t

/-- four corner heights blended at `(tx, ty)`, along x first -/
def blend (v₀₀ v₁₀ v₀₁ v₁₁ tx ty : α) : α :=
  between (between v₀₀ v₁₀ tx) (between v₀₁ v₁₁ tx) ty

/-- the noise at a point -/
def valueNoise (lattice : Int → Int → α) (x y : α) : Except ReliefError α :=
  match Scalar.floor x, Scalar.floor y with
  | .error e, _ => .error (.number e)
  | .ok _, .error e => .error (.number e)
  | .ok i, .ok j =>
    if inLattice i ∧ inLattice (i + 1) ∧ inLattice j ∧ inLattice (j + 1) then
      let tx := smoothstep (x - Scalar.ofInt i)
      let ty := smoothstep (y - Scalar.ofInt j)
      .ok (blend (lattice i j) (lattice (i + 1) j) (lattice i (j + 1)) (lattice (i + 1) (j + 1)) tx ty)
    else .error .latticeRange

end SceneGrammar.Relief

/-
Height maps: rectangular grids of scalars in row-major order.

The size and the cell count are part of the type, so every read of an in-bounds cell succeeds. `sample` reads the cell
under a point of the unit square and the nearest edge cell for a point beside it.
-/
import SceneGrammar.Scalar

namespace SceneGrammar

/-- what can go wrong with a height map -/
inductive ReliefError where
  /-- a side is not positive -/
  | badSize (width height : Int)
  /-- more cells than a list can index -/
  | tooManyCells
  /-- a cell outside the map -/
  | outside (x y : Int) (width height : Nat)
  /-- a falloff of another size -/
  | mismatch (falloffWidth falloffHeight width height : Nat)
  /-- a lattice point beyond 64 bits -/
  | latticeRange
  /-- a coordinate without an integer part, or a division by zero -/
  | number (e : NumberError)
  deriving DecidableEq, Repr

namespace ReliefError

/-- a size as text -/
def sizeText (width height : Int) : String := toString width ++ "x" ++ toString height

/-- what is said about an error of a height map -/
def message : ReliefError → String
  | .badSize width height => "HeightMap size must be positive, got " ++ sizeText width height
  | .tooManyCells => "The map has too many cells"
  | .outside x y width height =>
    "(" ++ toString x ++ ", " ++ toString y ++ ") outside " ++ sizeText width height ++ " map"
  | .mismatch fw fh width height =>
    "Falloff size " ++ sizeText fw fh ++ " does not match map size " ++ sizeText width height
  | .latticeRange => "The lattice coordinate is out of range"
  | .number _ => "The number has no answer"

end ReliefError

/-- a grid of `width` by `height` cells, row after row -/
structure HeightMap (α : Type) where
  width : Nat
  height : Nat
  cells : Array α
  width_pos : 0 < width
  height_pos : 0 < height
  cells_size : cells.size = width * height

namespace HeightMap

variable {α : Type}

/-- a map with one value everywhere -/
def filled (width height : Int) (value : α) : Except ReliefError (HeightMap α) :=
  if h : 0 < width ∧ 0 < height then
    if (Nat.pow 2 63 : Nat) ≤ width * height then .error .tooManyCells
    else .ok
      { width := width.toNat, height := height.toNat
        cells := Array.replicate (width.toNat * height.toNat) value
        width_pos := by omega, height_pos := by omega, cells_size := by simp }
  else .error (.badSize width height)

/-- whether `(x, y)` is a cell -/
def inBounds (m : HeightMap α) (x y : Int) : Bool :=
  0 ≤ x ∧ x < m.width ∧ 0 ≤ y ∧ y < m.height

/-- the position of a cell in the row-major list -/
def index (m : HeightMap α) (x y : Nat) : Nat := y * m.width + x

theorem index_lt (m : HeightMap α) {x y : Nat} (hx : x < m.width) (hy : y < m.height) :
    m.index x y < m.cells.size := by
  rw [m.cells_size, index]
  calc y * m.width + x < y * m.width + m.width := by omega
    _ = m.width * (y + 1) := by rw [Nat.mul_comm y, Nat.mul_succ]
    _ ≤ m.width * m.height := Nat.mul_le_mul_left _ hy

/-- the value of a cell -/
def cell (m : HeightMap α) (x y : Nat) (hx : x < m.width) (hy : y < m.height) : α :=
  have := m.index_lt hx hy
  m.cells[m.index x y]

/-- read a cell -/
def get (m : HeightMap α) (x y : Int) : Except ReliefError α :=
  if h : 0 ≤ x ∧ x < m.width ∧ 0 ≤ y ∧ y < m.height then
    .ok (m.cell x.toNat y.toNat (by omega) (by omega))
  else .error (.outside x y m.width m.height)

/-- write a cell -/
def set (m : HeightMap α) (x y : Int) (value : α) : Except ReliefError (HeightMap α) :=
  if m.inBounds x y then
    .ok { m with
      cells := m.cells.setIfInBounds (m.index x.toNat y.toNat) value
      cells_size := by simp [m.cells_size] }
  else .error (.outside x y m.width m.height)

/-- the cell index of a coordinate: below zero the first, past the end the last -/
def snap (n : Nat) (i : Int) : Nat := min i.toNat (n - 1)

theorem snap_lt {n : Nat} (h : 0 < n) (i : Int) : snap n i < n := by
  unfold snap; omega

/-- the value under the point `(u, v)` of the unit square, or at the nearest edge cell -/
def sample [Scalar α] (m : HeightMap α) (u v : α) : Except NumberError α := do
  let x ← Scalar.truncate (u * Scalar.ofInt m.width)
  let y ← Scalar.truncate (v * Scalar.ofInt m.height)
  return m.cell (snap m.width x) (snap m.height y) (snap_lt m.width_pos x) (snap_lt m.height_pos y)

/-- all values, row after row -/
def values (m : HeightMap α) : List α := m.cells.toList

/-- the rows from the first to the last -/
def rows (m : HeightMap α) : List (List α) :=
  (List.range m.height).map fun y => (m.values.drop (y * m.width)).take m.width

/-- the least value, by running comparison -/
def least [Scalar α] (m : HeightMap α) : Option α := Scalar.leastOf m.values

/-- the greatest value, by running comparison -/
def greatest [Scalar α] (m : HeightMap α) : Option α := Scalar.greatestOf m.values

/-- the map of the images of all values; the first error wins -/
def mapM {β ε : Type} (m : HeightMap α) (f : α → Except ε β) : Except ε (HeightMap β) := do
  let cells ← (Vector.mk m.cells m.cells_size).mapM f
  return { m with cells := cells.toArray, cells_size := by simp }

/-- the map of what `f` makes of the values of two maps of one size -/
def zipWith {β γ : Type} (f : α → β → γ) (m : HeightMap α) (n : HeightMap β)
    (h : m.width = n.width ∧ m.height = n.height) : HeightMap γ :=
  { m with
    cells := Array.zipWith f m.cells n.cells
    cells_size := by simp [m.cells_size, n.cells_size, h.1, h.2] }

/-- a map whose cells are computed from their positions, row after row; the first error wins -/
def build (width height : Int) (f : Nat → Nat → Except ReliefError α) :
    Except ReliefError (HeightMap α) :=
  if h : 0 < width ∧ 0 < height then
    if (Nat.pow 2 63 : Nat) ≤ width * height then .error .tooManyCells
    else do
      let cells ← (Vector.ofFnM fun (i : Fin (width.toNat * height.toNat)) =>
        f (i.val % width.toNat) (i.val / width.toNat))
      .ok
        { width := width.toNat, height := height.toNat, cells := cells.toArray
          width_pos := by omega, height_pos := by omega, cells_size := by simp }
  else .error (.badSize width height)

end HeightMap

end SceneGrammar

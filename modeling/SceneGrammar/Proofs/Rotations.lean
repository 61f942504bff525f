/-
Rotations about three axes in turn.

A rotation is built from the cosines and sines of half of three angles. Over any commutative ring it is the product of the
rotations about the single axes, y first (`ofHalfAngles_eq_mul`), whatever the six values are. Where each cosine and sine
have squares that add up to one, the factors are unit quaternions, and so is the product: it turns a vector about z, then
about x, then about y.

- `normSq_rotate_eq`: what a quaternion does to the length of a vector, which is nothing if it is a unit quaternion.
- `turns_about_axes`: the product, its length, and what it does to vectors.
-/
import SceneGrammar.Proofs.Kinematics

namespace SceneGrammar

variable {R : Type} [CommRing R]

/-- the square of the length -/
def Vector3.normSq (v : Vector3 R) : R := v.x * v.x + v.y * v.y + v.z * v.z

namespace Quaternion

/-- the rotation about the first axis; the argument is the cosine and the sine of half the angle -/
def aboutX (h : R × R) : Quaternion R := ⟨h.2, 0, 0, h.1⟩

/-- the rotation about the second axis -/
def aboutY (h : R × R) : Quaternion R := ⟨0, h.2, 0, h.1⟩

/-- the rotation about the third axis -/
def aboutZ (h : R × R) : Quaternion R := ⟨0, 0, h.2, h.1⟩

section

variable (x y z h : R × R)

theorem normSq_aboutX : (aboutX h).normSq = h.1 ^ 2 + h.2 ^ 2 := by
  simp only [aboutX, normSq]
  ring

theorem normSq_aboutY : (aboutY h).normSq = h.1 ^ 2 + h.2 ^ 2 := by
  simp only [aboutY, normSq]
  ring

theorem normSq_aboutZ : (aboutZ h).normSq = h.1 ^ 2 + h.2 ^ 2 := by
  simp only [aboutZ, normSq]
  ring

/-- where two of three angles are zero, the third one alone counts -/
theorem ofHalfAngles_single : ofHalfAngles h (1, 0) (1, 0) = aboutX h ∧ ofHalfAngles (1, 0) h (1, 0) = aboutY h ∧
    ofHalfAngles (1, 0) (1, 0) h = aboutZ h := by
  refine ⟨?_, ?_, ?_⟩ <;> ext <;> simp [ofHalfAngles, aboutX, aboutY, aboutZ]

/-- the rotation built from three angles is a product, whatever their cosines and sines are -/
theorem ofHalfAngles_eq_mul : ofHalfAngles x y z = aboutY y * aboutX x * aboutZ z := by
  ext <;> simp only [ofHalfAngles, aboutX, aboutY, aboutZ, mul_x, mul_y, mul_z, mul_w] <;> ring

end

/-- twice the cross product of a quaternion's vector part with a vector, which is what a rotation adds a multiple of -/
def sweep (q : Quaternion R) (v : Vector3 R) : Vector3 R :=
  ⟨2 * (q.y * v.z - q.z * v.y), 2 * (q.z * v.x - q.x * v.z), 2 * (q.x * v.y - q.y * v.x)⟩

/-- The length of a rotated vector. The sweep `t` is at right angles to both `q` and `v`, so of the mixed products only that
of `v` with the cross product of `q` and `t` is left, and twice that takes the square of `t` off again. -/
theorem normSq_rotate_eq (q : Quaternion R) (v : Vector3 R) :
    (q.rotate v).normSq = v.normSq + (q.normSq - 1) * (q.sweep v).normSq := by
  simp only [rotate, sweep, normSq, Vector3.normSq]
  ring

/-- a unit quaternion keeps lengths -/
theorem normSq_rotate {q : Quaternion R} (hq : q.normSq = 1) (v : Vector3 R) : (q.rotate v).normSq = v.normSq := by
  rw [normSq_rotate_eq, hq, sub_self, zero_mul, add_zero]

/-- **Three angles.** Over any commutative ring, where the squares of each cosine and sine add up to one:
- the rotation built from them is the product of those about y, x and z, each of which is what is built from one angle;
- it is a unit quaternion;
- it turns every vector about z, then x, then y, and keeps its length. -/
theorem turns_about_axes {x y z : R × R} (hx : x.1 ^ 2 + x.2 ^ 2 = 1) (hy : y.1 ^ 2 + y.2 ^ 2 = 1)
    (hz : z.1 ^ 2 + z.2 ^ 2 = 1) :
    ofHalfAngles x y z = aboutY y * aboutX x * aboutZ z ∧
      (ofHalfAngles x y z).normSq = 1 ∧
      (∀ v : Vector3 R,
        (ofHalfAngles x y z).rotate v = (aboutY y).rotate ((aboutX x).rotate ((aboutZ z).rotate v)) ∧
          ((ofHalfAngles x y z).rotate v).normSq = v.normSq) ∧
      aboutX x = ofHalfAngles x (1, 0) (1, 0) ∧ aboutY y = ofHalfAngles (1, 0) y (1, 0) ∧
        aboutZ z = ofHalfAngles (1, 0) (1, 0) z := by
  have hX : (aboutX x).normSq = 1 := (normSq_aboutX x).trans hx
  have hY : (aboutY y).normSq = 1 := (normSq_aboutY y).trans hy
  have hZ : (aboutZ z).normSq = 1 := (normSq_aboutZ z).trans hz
  have hproduct := ofHalfAngles_eq_mul x y z
  have hYX : (aboutY y * aboutX x).normSq = 1 := by rw [normSq_mul, hY, hX, one_mul]
  have hunit : (ofHalfAngles x y z).normSq = 1 := by rw [hproduct, normSq_mul, hYX, hZ, one_mul]
  refine ⟨hproduct, hunit, fun v => ⟨?_, normSq_rotate hunit v⟩, (ofHalfAngles_single x).1.symm,
    (ofHalfAngles_single y).2.1.symm, (ofHalfAngles_single z).2.2.symm⟩
  calc (ofHalfAngles x y z).rotate v
    _ = (aboutY y * aboutX x * aboutZ z).rotate v := by rw [hproduct]
    _ = (aboutY y * aboutX x).rotate ((aboutZ z).rotate v) := rotate_mul hYX hZ v
    _ = (aboutY y).rotate ((aboutX x).rotate ((aboutZ z).rotate v)) := rotate_mul hY hX _

/-- three angles about three axes; the order of the axes matters -/
theorem turns_about_axes_tilted :
    let x : ℚ × ℚ := (4 / 5, 3 / 5)
    let y : ℚ × ℚ := (12 / 13, -5 / 13)
    let z : ℚ × ℚ := (-3 / 5, 4 / 5)
    let v : Vector3 ℚ := ⟨1, -2, 3⟩
    (x.1 ^ 2 + x.2 ^ 2 = 1 ∧ y.1 ^ 2 + y.2 ^ 2 = 1 ∧ z.1 ^ 2 + z.2 ^ 2 = 1) ∧
      ofHalfAngles x y z = aboutY y * aboutX x * aboutZ z ∧ ofHalfAngles x y z ≠ aboutZ z * aboutX x * aboutY y ∧
      (ofHalfAngles x y z).rotate v = (aboutY y).rotate ((aboutX x).rotate ((aboutZ z).rotate v)) ∧
      ((ofHalfAngles x y z).rotate v).normSq = 14 := by
  intro x y z v
  have hx : x.1 ^ 2 + x.2 ^ 2 = 1 := by norm_num [x]
  have hy : y.1 ^ 2 + y.2 ^ 2 = 1 := by norm_num [y]
  have hz : z.1 ^ 2 + z.2 ^ 2 = 1 := by norm_num [z]
  obtain ⟨hproduct, -, hturn, -⟩ := turns_about_axes hx hy hz
  have hlength : v.normSq = 14 := by norm_num [Vector3.normSq, v]
  exact ⟨⟨hx, hy, hz⟩, hproduct, by decide +kernel, (hturn v).1, (hturn v).2.trans hlength⟩

end Quaternion

end SceneGrammar

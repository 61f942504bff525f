/-
Vectors, rotations and poses.

Rotations are quaternions; `rotate` applies one to a vector and `*` composes two. `ofHalfAngles` builds the rotation
about z, then x, then y from the cosine and sine of half of each angle; `ofEuler` takes the angles in degrees.
-/
import SceneGrammar.Scalar

namespace SceneGrammar

/-- a point or displacement -/
structure Vector3 (α : Type) where
  x : α
  y : α
  z : α
  deriving DecidableEq, Repr

/-- a rotation, identity at `(0, 0, 0, 1)` -/
structure Quaternion (α : Type) where
  x : α
  y : α
  z : α
  w : α
  deriving DecidableEq, Repr

namespace Vector3

variable {α : Type}

/-- componentwise sum -/
def add [Add α] (u v : Vector3 α) : Vector3 α := ⟨u.x + v.x, u.y + v.y, u.z + v.z⟩

/-- componentwise difference -/
def sub [Sub α] (u v : Vector3 α) : Vector3 α := ⟨u.x - v.x, u.y - v.y, u.z - v.z⟩

/-- every component times `k` -/
def scale [Mul α] (v : Vector3 α) (k : α) : Vector3 α := ⟨v.x * k, v.y * k, v.z * k⟩

instance [Add α] : Add (Vector3 α) := ⟨add⟩

instance [Sub α] : Sub (Vector3 α) := ⟨sub⟩

/-- the origin -/
def origin [Scalar α] : Vector3 α := ⟨Scalar.zero, Scalar.zero, Scalar.zero⟩

end Vector3

namespace Quaternion

variable {α : Type}

/-- the rotation that changes nothing -/
def identity [Scalar α] : Quaternion α := ⟨Scalar.zero, Scalar.zero, Scalar.zero, Scalar.one⟩

/-- the rotation about z, then x, then y; each argument is the cosine and sine of half an angle -/
def ofHalfAngles [Add α] [Sub α] [Mul α] (x y z : α × α) : Quaternion α :=
  let (cx, sx) := x
  let (cy, sy) := y
  let (cz, sz) := z
  { x := cy * sx * cz + sy * cx * sz
    y := sy * cx * cz - cy * sx * sz
    z := cy * cx * sz - sy * sx * cz
    w := cy * cx * cz + sy * sx * sz }

/-- the rotation of three angles in degrees -/
def ofEuler [Scalar α] (x y z : α) : Except NumberError (Quaternion α) := do
  let x ← Scalar.halfAngle x
  let y ← Scalar.halfAngle y
  let z ← Scalar.halfAngle z
  return ofHalfAngles x y z

/-- the composition that applies `q` first -/
def mul [Add α] [Sub α] [Mul α] (p q : Quaternion α) : Quaternion α :=
  { x := p.w * q.x + p.x * q.w + p.y * q.z - p.z * q.y
    y := p.w * q.y - p.x * q.z + p.y * q.w + p.z * q.x
    z := p.w * q.z + p.x * q.y - p.y * q.x + p.z * q.w
    w := p.w * q.w - p.x * q.x - p.y * q.y - p.z * q.z }

instance [Add α] [Sub α] [Mul α] : Mul (Quaternion α) := ⟨mul⟩

/-- `v` turned by `q`: with `t` twice the cross product of `q` and `v`, this is `v + w t + q × t` -/
def rotate [Add α] [Sub α] [Mul α] (q : Quaternion α) (v : Vector3 α) : Vector3 α :=
  let twice (a : α) := a + a
  let tx := twice (q.y * v.z - q.z * v.y)
  let ty := twice (q.z * v.x - q.x * v.z)
  let tz := twice (q.x * v.y - q.y * v.x)
  { x := v.x + q.w * tx + (q.y * tz - q.z * ty)
    y := v.y + q.w * ty + (q.z * tx - q.x * tz)
    z := v.z + q.w * tz + (q.x * ty - q.y * tx) }

end Quaternion

/-- where something stands relative to what carries it -/
structure Pose (α : Type) where
  position : Vector3 α
  rotation : Quaternion α
  deriving DecidableEq, Repr

namespace Pose

variable {α : Type}

/-- at the carrier's own place -/
def rest [Scalar α] : Pose α := ⟨.origin, .identity⟩

/-- displaced and not turned -/
def displaced [Scalar α] (v : Vector3 α) : Pose α := ⟨v, .identity⟩

end Pose

end SceneGrammar

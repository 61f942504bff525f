/-
Exact scalars.

`ExactScalar`: equality and order are what they say, every scalar has an integer part, and the angles that the buildings
of a city are turned by have cosines. Nothing is asked of sums, products and quotients: who compares two runs compares
what was computed in the same way. The rationals are exact scalars; there the cosine of an angle is that of the nearest
double.
-/
import SceneGrammar.Binary64
import SceneGrammar.Proofs.Order
import SceneGrammar.Relief.HeightMap
import SceneGrammar.Spatial

namespace SceneGrammar

/-- scalars with a true order, among which the quarter turns have angles -/
class ExactScalar (α : Type) [Scalar α] : Prop where
  beq_iff : ∀ a b : α, (a == b) = true ↔ a = b
  lt_irrefl : ∀ a : α, ¬ a < a
  lt_trans : ∀ a b c : α, a < b → b < c → a < c
  lt_connex : ∀ a b : α, a < b ∨ a = b ∨ b < a
  le_iff : ∀ a b : α, a ≤ b ↔ ¬ b < a
  ofInt_ne_zero : ∀ n : Int, n ≠ 0 → Scalar.ofInt n ≠ (Scalar.zero : α)
  truncates : ∀ a : α, ∃ n, Scalar.truncate a = .ok n
  straight : ∃ q, Scalar.halfAngle (Scalar.zero : α) = .ok q
  turned : ∀ n : Int, 0 ≤ n → n < 4 → ∃ q, Scalar.halfAngle (Scalar.ofInt 90 * Scalar.ofInt n : α) = .ok q

namespace ExactScalar

variable {α : Type} [Scalar α] [ExactScalar α]

instance : OrderedScalar α := ⟨beq_iff, lt_irrefl, lt_trans, lt_connex, le_iff⟩

theorem beq_zero : ((Scalar.zero : α) == Scalar.zero) = true := (beq_iff _ _).2 rfl

/-- a division by an integer other than zero -/
theorem divides (a : α) {n : Int} (hn : n ≠ 0) : ∃ q, Scalar.divide a (Scalar.ofInt n) = .ok q := by
  have hne : ¬ ((Scalar.ofInt n : α) == Scalar.zero) = true := fun h => ofInt_ne_zero n hn ((beq_iff _ _).1 h)
  exact ⟨a / Scalar.ofInt n, by rw [Scalar.divide, if_neg hne]⟩

/-- a height map has a value under every point -/
theorem samples (m : HeightMap α) (u v : α) : ∃ h, m.sample u v = .ok h := by
  obtain ⟨x, hx⟩ := truncates (u * Scalar.ofInt m.width : α)
  obtain ⟨y, hy⟩ := truncates (v * Scalar.ofInt m.height : α)
  unfold HeightMap.sample
  rw [hx, hy]
  exact ⟨_, rfl⟩

/-- a quarter turn about the vertical -/
theorem turns {n : Int} (h0 : 0 ≤ n) (h4 : n < 4) :
    ∃ q, Quaternion.ofEuler (Scalar.zero : α) (Scalar.ofInt 90 * Scalar.ofInt n) Scalar.zero = .ok q := by
  obtain ⟨p, hp⟩ := straight (α := α)
  obtain ⟨q, hq⟩ := turned (α := α) n h0 h4
  unfold Quaternion.ofEuler
  rw [hp, hq]
  exact ⟨_, rfl⟩

end ExactScalar

/-! ## The rationals -/

namespace Binary64

/-- the rational that a double stands for; one that stands for none is put at zero -/
def value (x : Float) : ℚ :=
  match read x with
  | .finite negative m q => (if negative then -1 else 1) * m * (2 : ℚ) ^ q
  | _ => 0

/-- the double nearest to a rational -/
def nearest (a : ℚ) : Float := ofQuotient (a < 0) a.num.natAbs a.den

theorem nearest_natCast (n : Nat) : nearest (n : ℚ) = ofQuotient false n 1 := by
  have hsign : ¬ (n : ℚ) < 0 := not_lt.2 (Nat.cast_nonneg n)
  rw [nearest, decide_eq_false hsign, Rat.num_natCast, Rat.den_natCast, Int.natAbs_natCast]

/-- the double nearest to a quarter turn has a cosine -/
theorem halfAngle_quarter : ∀ k < 4, ∃ q, halfAngle (ofQuotient false (90 * k) 1) = .ok q := by
  intro k hk
  have hfinite : (ofQuotient false (90 * k) 1 * radiansPerDegree * 0.5).isInf = false := by
    revert k
    decide +kernel
  exact ⟨_, by rw [halfAngle, hfinite]; rfl⟩

end Binary64

instance : Scalar ℚ where
  ofInt n := n
  fits _ := true
  ltDecidable := inferInstance
  leDecidable := inferInstance
  floor a := .ok ⌊a⌋
  truncate a := .ok (if a < 0 then ⌈a⌉ else ⌊a⌋)
  cube a := a ^ 3
  halfAngle a := (Binary64.halfAngle (Binary64.nearest a)).map fun q => (Binary64.value q.1, Binary64.value q.2)

/-- an angle of the rationals has a cosine if the nearest double has -/
theorem halfAngle_natCast {a : ℚ} {n : Nat} (ha : a = n) {q : Float × Float}
    (hq : Binary64.halfAngle (Binary64.ofQuotient false n 1) = .ok q) : ∃ r, Scalar.halfAngle a = .ok r := by
  subst ha
  refine ⟨(Binary64.value q.1, Binary64.value q.2), ?_⟩
  show (Binary64.halfAngle (Binary64.nearest n)).map _ = _
  rw [Binary64.nearest_natCast, hq]
  rfl

instance : ExactScalar ℚ where
  beq_iff _ _ := beq_iff_eq
  lt_irrefl := lt_irrefl
  lt_trans _ _ _ := lt_trans
  lt_connex := lt_trichotomy
  le_iff _ _ := not_lt.symm
  ofInt_ne_zero n hn h := hn (Int.cast_injective (α := ℚ) h)
  truncates _ := ⟨_, rfl⟩
  straight := by
    obtain ⟨q, hq⟩ := Binary64.halfAngle_quarter 0 (by decide)
    exact halfAngle_natCast (show ((0 : Int) : ℚ) = ((90 * 0 : Nat) : ℚ) by simp) hq
  turned n h0 h4 := by
    obtain ⟨k, rfl⟩ := Int.eq_ofNat_of_zero_le h0
    obtain ⟨q, hq⟩ := Binary64.halfAngle_quarter k (by omega)
    exact halfAngle_natCast (show ((90 : Int) : ℚ) * ((k : Int) : ℚ) = ((90 * k : Nat) : ℚ) by push_cast; rfl) hq

end SceneGrammar

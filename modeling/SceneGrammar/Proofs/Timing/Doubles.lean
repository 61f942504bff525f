/-
Doubles from zero on.

The undefined double compares to nothing, not to itself either. The doubles from zero on are ranked, infinity included:
`rank` sends them into a linear order, and comparisons and equality go by it (`lt_iff_rank`, `le_iff_rank`,
`beq_iff_rank`). Sums of them stay among them (`zero_le_add`), since no infinity is ever taken from another.
-/
import Mathlib
import SceneGrammar.Binary64

namespace SceneGrammar.Binary64

open Float.Model Float.Model.UnpackedFloat

/-- what a double at zero or above is taken apart into -/
def Nonneg : UnpackedFloat → Prop
  | .infinity s => s = .positive
  | .notANumber => False
  | .zero _ => True
  | .finite s _ _ _ => s = .positive

/-- zero, then what is finite, by exponent and significand, then infinity -/
def height : UnpackedFloat → ℕ ×ₗ ℤ ×ₗ ℕ
  | .zero _ => toLex (0, toLex (0, 0))
  | .finite _ m e _ => toLex (1, toLex (e, m))
  | _ => toLex (2, toLex (0, 0))

theorem compare_eq_height {u v : UnpackedFloat} (hu : Nonneg u) (hv : Nonneg v) :
    u.compare v = some (compare (height u) (height v)) := by
  cases u <;> cases v <;> simp only [Nonneg] at hu hv <;> subst_vars <;> rfl

/-! ## Sums -/

theorem nonneg_round (spec : Format) (m : ℕ) (e : ℤ) : Nonneg (UnpackedFloat.round spec .positive m e) := by
  unfold UnpackedFloat.round roundWithAccuracy
  dsimp only
  split
  · trivial
  · rfl

theorem nonneg_normalize (spec : Format) {m : ℤ} (hm : 0 ≤ m) (e : ℤ) :
    Nonneg (UnpackedFloat.normalize spec m e .positive) := by
  unfold UnpackedFloat.normalize
  rcases hm.lt_or_eq with hlt | rfl
  · rw [compare_gt_iff_gt.2 hlt]
    exact nonneg_round spec _ _
  · trivial

theorem nonneg_add (spec : Format) {u v : UnpackedFloat} (hu : Nonneg u) (hv : Nonneg v) :
    Nonneg (UnpackedFloat.add spec u v) := by
  cases u with
  | notANumber => exact hu.elim
  | infinity s =>
    cases v with
    | notANumber => exact hv.elim
    | infinity t =>
      obtain rfl : s = .positive := hu
      obtain rfl : t = .positive := hv
      rfl
    | zero => exact hu
    | finite => exact hu
  | zero s =>
    cases v with
    | notANumber => exact hv.elim
    | infinity => exact hv
    | zero t =>
      unfold UnpackedFloat.add
      dsimp only
      split
      · trivial
      · trivial
    | finite => exact hv
  | finite s m e hm =>
    cases v with
    | notANumber => exact hv.elim
    | infinity => exact hv
    | zero => exact hu
    | finite t n f hn =>
      obtain rfl : s = .positive := hu
      obtain rfl : t = .positive := hv
      exact nonneg_normalize spec (Int.add_nonneg (Int.natCast_nonneg _) (Int.natCast_nonneg _)) _

/-! ## Packing -/

theorem unpackSign_packComponents (spec : Format) (s : Sign) (e : BitVec spec.exponentBits)
    (m : BitVec spec.mantissaBitsWithoutImplicit) : unpackSign (packComponents spec s e m) = s.toBitVec := by
  refine BitVec.eq_of_getLsbD_eq fun i hi => ?_
  obtain rfl : i = 0 := Nat.lt_one_iff.1 hi
  simp [unpackSign, packComponents, BitVec.getLsbD_append, BitVec.getElem_append]

/-- an exponent below the greatest is not that of an infinity -/
theorem ofNat_ne_neg_one {k n : ℕ} (hn : n + 1 < 2 ^ k) : BitVec.ofNat k n ≠ -1#k := by
  intro h
  have hnat := congrArg BitVec.toNat h
  rw [BitVec.neg_one_eq_allOnes, BitVec.toNat_allOnes, BitVec.toNat_ofNat, Nat.mod_eq_of_lt (by omega)] at hnat
  omega

theorem zero_ne_neg_one {k : ℕ} (hk : 0 < k) : 0#k ≠ -1#k := ofNat_ne_neg_one (Nat.one_lt_two_pow hk.ne')

/-- packed with a positive sign, or as a zero of any sign, and not as an undefined one -/
theorem nonneg_components (spec : Format) {s : Sign} {e : BitVec spec.exponentBits}
    {m : BitVec spec.mantissaBitsWithoutImplicit} (hs : s = .positive ∨ e = 0#_ ∧ m = 0#_) (he : e = -1#_ → m = 0#_) :
    Nonneg (UnpackedFloat.unpack spec (packComponents spec s e m)) := by
  have hsign (hpos : s = .positive) : Sign.ofBitVec s.toBitVec = .positive := by rw [hpos]; rfl
  unfold UnpackedFloat.unpack
  simp only [unpackExponent_packComponents, unpackMantissa_packComponents, unpackSign_packComponents]
  by_cases hinf : e = -1#_
  · have hpos := hs.resolve_right fun h => zero_ne_neg_one spec.he (h.1.symm.trans hinf)
    rw [if_pos hinf, if_pos (he hinf)]
    exact hsign hpos
  rw [if_neg hinf]
  split_ifs with hz hm
  · trivial
  · exact hsign (hs.resolve_right fun h => hm h.2)
  · exact hsign (hs.resolve_right fun h => hz h.1)

theorem nonneg_pack (spec : Format) {u : UnpackedFloat} (hu : Nonneg u) :
    Nonneg (UnpackedFloat.unpack spec (UnpackedFloat.pack spec u)) := by
  cases u with
  | notANumber => exact hu.elim
  | infinity s => exact nonneg_components spec (.inl hu) fun _ => rfl
  | zero s => exact nonneg_components spec (.inr ⟨rfl, rfl⟩) fun _ => rfl
  | finite s m e hm =>
    unfold UnpackedFloat.pack
    dsimp only
    split_ifs with hbig
    · exact nonneg_components spec (.inl hu) fun _ => rfl
    · exact nonneg_components spec (.inl hu) fun he => absurd he (ofNat_ne_neg_one (Nat.lt_of_not_le hbig))
    · exact nonneg_components spec (.inl hu) fun he => absurd he (zero_ne_neg_one spec.he)

/-! ## Doubles -/

theorem zero_le_iff {x : Float} : Scalar.zero ≤ x ↔ Nonneg x.toModel.unpack := by
  have hle : Scalar.zero ≤ x ↔ UnpackedFloat.le (.zero .positive) x.toModel.unpack = true := decide_eq_true_iff
  rw [hle]
  cases x.toModel.unpack with
  | notANumber => exact ⟨(fun h => by cases h), False.elim⟩
  | infinity s => cases s <;> simp [UnpackedFloat.le, UnpackedFloat.compare, Nonneg]
  | zero s => simp [UnpackedFloat.le, UnpackedFloat.compare, Nonneg]
  | finite s m e hm => cases s <;> simp [UnpackedFloat.le, UnpackedFloat.compare, Nonneg]

/-- **Sums** of doubles from zero on are from zero on; they may be infinite, but not undefined. -/
theorem zero_le_add {x y : Float} (hx : Scalar.zero ≤ x) (hy : Scalar.zero ≤ y) : Scalar.zero ≤ x + y := by
  rw [zero_le_iff] at hx hy ⊢
  exact nonneg_pack _ (nonneg_add _ hx hy)

/-- the place of a double among those from zero on -/
def rank (x : Float) : ℕ ×ₗ ℤ ×ₗ ℕ := height x.toModel.unpack

variable {x y : Float} (hx : Scalar.zero ≤ x) (hy : Scalar.zero ≤ y)

include hx hy

theorem lt_iff_rank : x < y ↔ rank x < rank y := by
  have hlt : x < y ↔ UnpackedFloat.lt x.toModel.unpack y.toModel.unpack = true := decide_eq_true_iff
  rw [hlt, UnpackedFloat.lt, compare_eq_height (zero_le_iff.1 hx) (zero_le_iff.1 hy)]
  rw [beq_iff_eq, Option.some_inj, compare_lt_iff_lt, rank, rank]

theorem le_iff_rank : x ≤ y ↔ rank x ≤ rank y := by
  have hle : x ≤ y ↔ UnpackedFloat.le x.toModel.unpack y.toModel.unpack = true := decide_eq_true_iff
  rw [hle, UnpackedFloat.le, compare_eq_height (zero_le_iff.1 hx) (zero_le_iff.1 hy)]
  rw [Option.any_some, rank, rank, ← compare_le_iff_le, Ordering.isLE_iff_ne_gt]

theorem beq_iff_rank : (x == y) = true ↔ rank x = rank y := by
  have hbeq : (x == y) = UnpackedFloat.beq x.toModel.unpack y.toModel.unpack := rfl
  rw [hbeq, UnpackedFloat.beq, compare_eq_height (zero_le_iff.1 hx) (zero_le_iff.1 hy)]
  rw [beq_iff_eq, Option.some_inj, compare_eq_iff_eq, rank, rank]

end SceneGrammar.Binary64

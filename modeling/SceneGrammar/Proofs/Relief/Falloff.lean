/-
Falloff maps rise from the centre to the border.

Over the rationals the falloff of a cell is `rise` of its distance `offCentre` from the centre. That curve is strictly
increasing from zero to one (`rise_strictMonoOn`), its denominator being positive all the way (`rise_denominator_pos`).

- `falloff_rises`: for every size, no cell divides by zero, and the falloff is a number from zero to one that depends on
  the distance alone and grows with it, zero at the centre and one on the first row and column only; so a map that a falloff
  map is taken off is zero there.
-/
import SceneGrammar.Proofs.Rational
import SceneGrammar.Proofs.Relief.Grid
import SceneGrammar.Relief.Falloff

namespace SceneGrammar.Relief

open Set

/-! ## The curve -/

/-- the falloff at a distance from the centre -/
def rise (d : ℚ) : ℚ := d ^ 3 / (d ^ 3 + (11 / 5 - 11 / 5 * d) ^ 3)

section

variable {d : ℚ}

theorem rise_denominator_pos (hd : d ∈ Icc 0 1) : 0 < d ^ 3 + (11 / 5 - 11 / 5 * d) ^ 3 := by
  obtain ⟨h0, h1⟩ := hd
  rcases h0.eq_or_lt with rfl | hpos
  · norm_num
  · have hrest : 0 ≤ 11 / 5 - 11 / 5 * d := by linarith
    positivity

theorem falloffCurve_eq (hd : d ∈ Icc 0 1) : falloffCurve d = .ok (rise d) := by
  have hnumber : (2.2 : ℚ) = 11 / 5 := by norm_num
  have hdivide := Scalar.divide_ok (a := d ^ 3) (rise_denominator_pos hd).ne'
  rw [← hnumber] at hdivide
  rw [rise, ← hnumber]
  exact hdivide

theorem rise_zero : rise 0 = 0 := by norm_num [rise]

theorem rise_one : rise 1 = 1 := by norm_num [rise]

theorem rise_strictMonoOn : StrictMonoOn rise (Icc 0 1) := by
  intro a ha b hb hab
  have hrest : 11 / 5 - 11 / 5 * b < 11 / 5 - 11 / 5 * a := by linarith
  have hnonneg : 0 ≤ 11 / 5 - 11 / 5 * b := by linarith [hb.2]
  have hcube : a ^ 3 < b ^ 3 := pow_lt_pow_left₀ hab ha.1 (by decide)
  have hfalls : (11 / 5 - 11 / 5 * b) ^ 3 < (11 / 5 - 11 / 5 * a) ^ 3 := pow_lt_pow_left₀ hrest hnonneg (by decide)
  have hcross : a ^ 3 * (11 / 5 - 11 / 5 * b) ^ 3 < b ^ 3 * (11 / 5 - 11 / 5 * a) ^ 3 :=
    mul_lt_mul'' hcube hfalls (pow_nonneg ha.1 3) (pow_nonneg hnonneg 3)
  unfold rise
  rw [div_lt_div_iff₀ (rise_denominator_pos ha) (rise_denominator_pos hb), mul_add, mul_add, mul_comm (b ^ 3) (a ^ 3)]
  exact (add_lt_add_iff_left _).2 hcross

theorem rise_mem (hd : d ∈ Icc 0 1) : rise d ∈ Icc 0 1 := by
  have hlow := rise_strictMonoOn.monotoneOn (left_mem_Icc.2 zero_le_one) hd hd.1
  have hhigh := rise_strictMonoOn.monotoneOn hd (right_mem_Icc.2 zero_le_one) hd.2
  rw [rise_zero] at hlow
  rw [rise_one] at hhigh
  exact ⟨hlow, hhigh⟩

theorem rise_eq_zero_iff (hd : d ∈ Icc 0 1) : rise d = 0 ↔ d = 0 := by
  have h := rise_strictMonoOn.injOn.eq_iff hd (left_mem_Icc.2 zero_le_one)
  rwa [rise_zero] at h

theorem rise_eq_one_iff (hd : d ∈ Icc 0 1) : rise d = 1 ↔ d = 1 := by
  have h := rise_strictMonoOn.injOn.eq_iff hd (right_mem_Icc.2 zero_le_one)
  rwa [rise_one] at h

end

/-! ## The distance from the centre -/

/-- how far a cell lies from the centre, along the axis where it is farther -/
def offCentre (width height : Nat) (c : Nat × Nat) : ℚ := max |2 * c.1 / width - 1| |2 * c.2 / height - 1|

section

variable {i n : Nat}

theorem axis_eq (hn : 0 < n) : (axis i n : Except NumberError ℚ) = .ok (2 * i / n - 1) := by
  have hne : ((n : Int) : ℚ) ≠ 0 := by exact_mod_cast hn.ne'
  have hdivide : Scalar.divide (Scalar.ofInt i : ℚ) (Scalar.ofInt n) = .ok ((i : Int) / (n : Int) : ℚ) :=
    Scalar.divide_ok hne
  unfold axis
  rw [hdivide]
  show Except.ok (((i : Int) / (n : Int) : ℚ) * ((2 : Int) : ℚ) - Scalar.one) = _
  rw [Scalar.one_rat]
  push_cast
  rw [div_mul_eq_mul_div, mul_comm (i : ℚ)]

theorem axis_mem (hi : i < n) : (2 * i / n - 1 : ℚ) ∈ Ico (-1) 1 := by
  have hn : (0 : ℚ) < n := by exact_mod_cast Nat.zero_lt_of_lt hi
  have hlt : (i : ℚ) < n := by exact_mod_cast hi
  have hnonneg : (0 : ℚ) ≤ 2 * i / n := by positivity
  have htwo : (2 * i / n : ℚ) < 2 := by
    rw [div_lt_iff₀ hn]
    linarith
  constructor <;> linarith

theorem abs_axis_le (hi : i < n) : |(2 * i / n - 1 : ℚ)| ≤ 1 := by
  obtain ⟨hlow, hhigh⟩ := axis_mem hi
  exact abs_le.2 ⟨hlow, hhigh.le⟩

theorem abs_axis_eq_one_iff (hi : i < n) : |(2 * i / n - 1 : ℚ)| = 1 ↔ i = 0 := by
  obtain ⟨hlow, hhigh⟩ := axis_mem hi
  have hn : (n : ℚ) ≠ 0 := by exact_mod_cast (Nat.zero_lt_of_lt hi).ne'
  constructor
  · intro h
    have hfirst : (2 * i / n - 1 : ℚ) = -1 := ((abs_eq zero_le_one).1 h).resolve_left hhigh.ne
    have hzero : (2 * i / n : ℚ) = 0 := by linarith
    rcases div_eq_zero_iff.1 hzero with h | h
    · exact_mod_cast (mul_eq_zero.1 h).resolve_left two_ne_zero
    · exact absurd h hn
  · rintro rfl
    simp

end

section

variable {width height : Nat} {c : Nat × Nat}

theorem offCentre_mem (hc : c ∈ grid width height) : offCentre width height c ∈ Icc 0 1 :=
  ⟨(abs_nonneg _).trans (le_max_left _ _), max_le (abs_axis_le hc.1) (abs_axis_le hc.2)⟩

theorem offCentre_eq_one_iff (hc : c ∈ grid width height) : offCentre width height c = 1 ↔ c.1 = 0 ∨ c.2 = 0 := by
  rw [← abs_axis_eq_one_iff hc.1, ← abs_axis_eq_one_iff hc.2, offCentre]
  have hx := abs_axis_le hc.1
  have hy := abs_axis_le hc.2
  constructor
  · intro h
    rcases max_choice |(2 * c.1 / width - 1 : ℚ)| |(2 * c.2 / height - 1 : ℚ)| with hmax | hmax
    · exact .inl (hmax.symm.trans h)
    · exact .inr (hmax.symm.trans h)
  · rintro (h | h)
    · rw [h]
      exact max_eq_left hy
    · rw [h]
      exact max_eq_right hx

/-- **One cell.** -/
theorem falloffAt_eq (hc : c ∈ grid width height) :
    falloffAt width height c.1 c.2 = .ok (rise (offCentre width height c)) := by
  unfold falloffAt
  rw [axis_eq (Nat.zero_lt_of_lt hc.1), axis_eq (Nat.zero_lt_of_lt hc.2)]
  show falloffCurve (Scalar.greatest (Scalar.magnitude _) (Scalar.magnitude _)) = _
  rw [Scalar.greatest_rat, Scalar.magnitude_rat, Scalar.magnitude_rat]
  exact falloffCurve_eq (offCentre_mem hc)

end

/-! ## Falloff maps -/

section

variable {width height : Int} {high : Option Int} (hw : 0 < width) (hh : 0 < height) (hhigh : high.getD width = height)

include hw hh hhigh

/-- a falloff map is made unless it has too many cells -/
theorem falloffMap_charts (hcells : width * height < 2 ^ 63) : ∃ m, falloffMap width high = .ok m ∧
    m.Charts width.toNat height.toNat fun c => rise (offCentre width.toNat height.toNat c) := by
  subst hhigh
  unfold falloffMap
  refine HeightMap.build_charts hw hh hcells fun c hc => ?_
  rw [falloffAt_eq hc]
  rfl

theorem falloffMap_tooMany (hcells : 2 ^ 63 ≤ width * height) :
    (falloffMap width high : Except ReliefError (HeightMap ℚ)) = .error .tooManyCells := by
  subst hhigh
  unfold falloffMap
  exact HeightMap.build_tooMany hw hh hcells _

end

/-- a falloff map of the same size can be taken off any map -/
theorem press_charts {m n : HeightMap ℚ} {width height : Nat} {f g : Nat × Nat → ℚ} (hm : m.Charts width height f)
    (hn : n.Charts width height g) :
    ∃ k, press m n = .ok k ∧ k.Charts width height fun c => min (max (f c - g c) 0) 1 := by
  have hsize : m.width = n.width ∧ m.height = n.height :=
    ⟨hm.width_eq.trans hn.width_eq.symm, hm.height_eq.trans hn.height_eq.symm⟩
  refine ⟨_, dif_pos hsize, ?_⟩
  have h := hm.zipWith hn (fun a b => Scalar.clamp Scalar.zero Scalar.one (a - b)) hsize
  simpa only [Scalar.clamp_rat, Scalar.zero_rat, Scalar.one_rat] using h

/-- **Falloff maps.** For every size, a missing height being the width:

- no cell divides by zero: the falloff of each is `rise` of its distance from the centre;
- `rise` is strictly increasing, and distances and falloffs are numbers from zero to one; so of two cells the one that is
  farther out has the greater falloff, and cells as far out have the same;
- the falloff is zero at the centre only, and one on the first row and the first column only.

The map consists of these falloffs, unless it would have more cells than a list can hold. Taken off a map of the same size
with heights from zero to one, it leaves zero on the first row and the first column. -/
theorem falloff_rises {width height : Int} {high : Option Int} (hw : 0 < width) (hh : 0 < height)
    (hhigh : high.getD width = height) :
    let cells := grid width.toNat height.toNat
    let off := offCentre width.toNat height.toNat
    (∀ c ∈ cells, falloffAt width.toNat height.toNat c.1 c.2 = .ok (rise (off c))) ∧
    StrictMonoOn rise (Icc 0 1) ∧
    (∀ c ∈ cells, off c ∈ Icc 0 1 ∧ rise (off c) ∈ Icc 0 1 ∧ (rise (off c) = 0 ↔ off c = 0) ∧
      (rise (off c) = 1 ↔ c.1 = 0 ∨ c.2 = 0)) ∧
    (∀ c ∈ cells, ∀ d ∈ cells, rise (off c) < rise (off d) ↔ off c < off d) ∧
    (2 ^ 63 ≤ width * height ∧ (falloffMap width high : Except ReliefError (HeightMap ℚ)) = .error .tooManyCells ∨
      ∃ m, falloffMap width high = .ok m ∧ m.Charts width.toNat height.toNat (fun c => rise (off c)) ∧
        ∀ n f, n.Charts width.toNat height.toNat f → (∀ c ∈ cells, f c ∈ Icc 0 1) →
          ∃ k g, press n m = .ok k ∧ k.Charts width.toNat height.toNat g ∧ ∀ c ∈ cells, c.1 = 0 ∨ c.2 = 0 → g c = 0) := by
  intro cells off
  have hoff {c : Nat × Nat} (hc : c ∈ cells) : off c ∈ Icc 0 1 := offCentre_mem hc
  refine ⟨fun c hc => falloffAt_eq hc, rise_strictMonoOn, fun c hc => ?_, fun c hc d hd => ?_, ?_⟩
  · exact ⟨hoff hc, rise_mem (hoff hc), rise_eq_zero_iff (hoff hc),
      (rise_eq_one_iff (hoff hc)).trans (offCentre_eq_one_iff hc)⟩
  · exact rise_strictMonoOn.lt_iff_lt (hoff hc) (hoff hd)
  rcases le_or_gt (2 ^ 63) (width * height) with hmany | hfew
  · exact .inl ⟨hmany, falloffMap_tooMany hw hh hhigh hmany⟩
  obtain ⟨m, hm, hcharts⟩ := falloffMap_charts hw hh hhigh hfew
  refine .inr ⟨m, hm, hcharts, fun n f hn hf => ?_⟩
  obtain ⟨k, hk, hpressed⟩ := press_charts hn hcharts
  refine ⟨k, _, hk, hpressed, fun c hc hedge => ?_⟩
  have hone : rise (off c) = 1 := (rise_eq_one_iff (hoff hc)).2 ((offCentre_eq_one_iff hc).2 hedge)
  show min (max (f c - rise (off c)) 0) 1 = 0
  rw [hone, max_eq_right (sub_nonpos.2 (hf c hc).2), min_eq_left zero_le_one]

/-- on a map of four columns and two rows: the centre, a cell half way out, and the border -/
theorem falloff_rises_four_by_two :
    ((0 : Int) < 4 ∧ (0 : Int) < 2 ∧ (some (2 : Int)).getD 4 = 2) ∧
    rise (offCentre 4 2 (2, 1)) = 0 ∧ rise (offCentre 4 2 (1, 1)) = 125 / 1456 ∧ rise (offCentre 4 2 (0, 1)) = 1 ∧
    ∃ m : HeightMap ℚ, falloffMap 4 (some 2) = .ok m ∧ m.Charts 4 2 (fun c => rise (offCentre 4 2 c)) ∧
      ∃ k g, press m m = .ok k ∧ k.Charts 4 2 g ∧ ∀ c ∈ grid 4 2, c.1 = 0 ∨ c.2 = 0 → g c = 0 := by
  refine ⟨by decide, by decide +kernel, by decide +kernel, by decide +kernel, ?_⟩
  obtain ⟨-, -, hcell, -, ⟨hmany, -⟩ | ⟨m, hm, hcharts, hpress⟩⟩ :=
    falloff_rises (show (0 : Int) < 4 by decide) (show (0 : Int) < 2 by decide) (show (some 2).getD 4 = (2 : Int) from rfl)
  · exact absurd hmany (by decide)
  · exact ⟨m, hm, hcharts, hpress m _ hcharts fun c hc => (hcell c hc).2.1⟩

end SceneGrammar.Relief

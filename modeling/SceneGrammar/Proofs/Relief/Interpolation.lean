/-
Value noise between lattice points.

Over the rationals the weight `smoothstep` stays between zero and one, so each blend of two heights lies between them, and
so does a blend of two blends (`blend_mem`). `cellNoise` is the formula of one lattice cell, read at any place: along an
edge it blends the two ends of that edge alone, which is why the cells on both sides of an edge agree there
(`cellNoise_right`, `cellNoise_top`). The noise at a place is what any cell around the place says, its edges included
(`noiseAt_eq_cellNoise`).

- `noise_interpolates`: the noise lies between the four lattice points around a place, equals the lattice at its points,
  and has no seam along the edges of cells, for negative coordinates, too.
-/
import SceneGrammar.Proofs.Growth.Completion
import SceneGrammar.Proofs.Relief.Octaves

namespace SceneGrammar.Relief

open Set

/-! ## Blending -/

theorem smoothstep_eq (t : ℚ) : smoothstep t = t * t * (3 - 2 * t) := by
  show t * t * (((3 : Int) : ℚ) - ((2 : Int) : ℚ) * t) = _
  norm_num

@[simp] theorem smoothstep_zero : smoothstep (0 : ℚ) = 0 := by rw [smoothstep_eq, mul_zero, zero_mul]

@[simp] theorem smoothstep_one : smoothstep (1 : ℚ) = 1 := by norm_num [smoothstep_eq]

/-- the weight stays between zero and one, as what it is short of one is `(1 - t)² (1 + 2 t)` -/
theorem smoothstep_mem {t : ℚ} (ht : t ∈ Icc 0 1) : smoothstep t ∈ Icc 0 1 := by
  obtain ⟨h0, h1⟩ := ht
  have hrest : 0 ≤ (1 - t) ^ 2 * (1 + 2 * t) := mul_nonneg (sq_nonneg _) (by linarith)
  have hshort : 1 - t * t * (3 - 2 * t) = (1 - t) ^ 2 * (1 + 2 * t) := by ring
  rw [smoothstep_eq]
  exact ⟨mul_nonneg (mul_self_nonneg t) (by linarith), sub_nonneg.1 (hshort ▸ hrest)⟩

section

variable {a b c d s t : ℚ}

@[simp] theorem between_zero : between a b 0 = a := by rw [between, mul_zero, add_zero]

@[simp] theorem between_one : between a b 1 = b := by rw [between, mul_one, add_sub_cancel]

/-- what is between two heights of a range is in the range -/
theorem between_mem {S : Set ℚ} (hS : Convex ℚ S) (ha : a ∈ S) (hb : b ∈ S) (ht : t ∈ Icc 0 1) : between a b t ∈ S := by
  have h := hS.add_smul_sub_mem ha hb ht
  rwa [smul_eq_mul, mul_comm] at h

theorem blend_mem {S : Set ℚ} (hS : Convex ℚ S) (ha : a ∈ S) (hb : b ∈ S) (hc : c ∈ S) (hd : d ∈ S) (hs : s ∈ Icc 0 1)
    (ht : t ∈ Icc 0 1) : blend a b c d s t ∈ S :=
  between_mem hS (between_mem hS ha hb hs) (between_mem hS hc hd hs) ht

end

/-! ## Cells -/

/-- the formula of the lattice cell with a lower corner, at any place -/
def cellNoise (lattice : Int → Int → ℚ) (i j : Int) (x y : ℚ) : ℚ :=
  blend (lattice i j) (lattice (i + 1) j) (lattice i (j + 1)) (lattice (i + 1) (j + 1)) (smoothstep (x - i))
    (smoothstep (y - j))

section

variable (lattice : Int → Int → ℚ) (i j : Int) (x y : ℚ)

theorem cellNoise_left : cellNoise lattice i j i y = between (lattice i j) (lattice i (j + 1)) (smoothstep (y - j)) := by
  rw [cellNoise, sub_self, smoothstep_zero, blend, between_zero, between_zero]

theorem cellNoise_right : cellNoise lattice i j (i + 1) y =
    between (lattice (i + 1) j) (lattice (i + 1) (j + 1)) (smoothstep (y - j)) := by
  rw [cellNoise, add_sub_cancel_left, smoothstep_one, blend, between_one, between_one]

theorem cellNoise_bottom : cellNoise lattice i j x j = between (lattice i j) (lattice (i + 1) j) (smoothstep (x - i)) := by
  rw [cellNoise, sub_self, smoothstep_zero, blend, between_zero]

theorem cellNoise_top : cellNoise lattice i j x (j + 1) =
    between (lattice i (j + 1)) (lattice (i + 1) (j + 1)) (smoothstep (x - i)) := by
  rw [cellNoise, add_sub_cancel_left, smoothstep_one, blend, between_one]

/-- two cells side by side agree on the edge between them -/
theorem cellNoise_seam_x : cellNoise lattice i j (i + 1) y = cellNoise lattice (i + 1) j (i + 1) y := by
  have hleft := cellNoise_left lattice (i + 1) j y
  rw [Int.cast_add, Int.cast_one] at hleft
  rw [cellNoise_right, hleft]

/-- two cells one above the other agree on the edge between them -/
theorem cellNoise_seam_y : cellNoise lattice i j x (j + 1) = cellNoise lattice i (j + 1) x (j + 1) := by
  have hbottom := cellNoise_bottom lattice i (j + 1) x
  rw [Int.cast_add, Int.cast_one] at hbottom
  rw [cellNoise_top, hbottom]

end

/-- a place between two neighbouring lattice coordinates has the lower one as its integer part, or is the upper one -/
theorem floor_of_mem_cell {x : ℚ} {i : Int} (hx : x ∈ Icc (i : ℚ) (i + 1)) : ⌊x⌋ = i ∨ x = i + 1 ∧ ⌊x⌋ = i + 1 := by
  rcases hx.2.lt_or_eq with hlt | rfl
  · exact .inl (Int.floor_eq_iff.2 ⟨hx.1, hlt⟩)
  · exact .inr ⟨rfl, by rw [Int.floor_add_one, Int.floor_intCast]⟩

/-- **Cells.** The noise at a place is what every cell says in which the place lies, be it on an edge or a corner. -/
theorem noiseAt_eq_cellNoise (lattice : Int → Int → ℚ) {i j : Int} {x y : ℚ} (hx : x ∈ Icc (i : ℚ) (i + 1))
    (hy : y ∈ Icc (j : ℚ) (j + 1)) : noiseAt lattice (x, y) = cellNoise lattice i j x y := by
  have hown : noiseAt lattice (x, y) = cellNoise lattice ⌊x⌋ ⌊y⌋ x y := rfl
  rw [hown]
  rcases floor_of_mem_cell hx with hi | ⟨rfl, hi⟩ <;> rcases floor_of_mem_cell hy with hj | ⟨rfl, hj⟩ <;> rw [hi, hj]
  · rw [cellNoise_seam_y]
  · rw [cellNoise_seam_x]
  · rw [cellNoise_seam_x, cellNoise_seam_y]

/-- **One place.** The noise lies in every range that the four lattice points around the place lie in. -/
theorem noiseAt_mem {S : Set ℚ} (hS : Convex ℚ S) {lattice : Int → Int → ℚ} {x y : ℚ}
    (h : ∀ i ∈ ({⌊x⌋, ⌊x⌋ + 1} : Set Int), ∀ j ∈ ({⌊y⌋, ⌊y⌋ + 1} : Set Int), lattice i j ∈ S) :
    noiseAt lattice (x, y) ∈ S := by
  have hweight (a : ℚ) : smoothstep (Int.fract a) ∈ Icc 0 1 := smoothstep_mem ⟨Int.fract_nonneg a, (Int.fract_lt_one a).le⟩
  exact blend_mem hS (h _ (.inl rfl) _ (.inl rfl)) (h _ (.inr rfl) _ (.inl rfl)) (h _ (.inl rfl) _ (.inr rfl))
    (h _ (.inr rfl) _ (.inr rfl)) (hweight x) (hweight y)

/-- the least of the four lattice points around a place -/
def lowestCorner (lattice : Int → Int → ℚ) (x y : ℚ) : ℚ :=
  min (min (lattice ⌊x⌋ ⌊y⌋) (lattice (⌊x⌋ + 1) ⌊y⌋)) (min (lattice ⌊x⌋ (⌊y⌋ + 1)) (lattice (⌊x⌋ + 1) (⌊y⌋ + 1)))

/-- the greatest of the four lattice points around a place -/
def highestCorner (lattice : Int → Int → ℚ) (x y : ℚ) : ℚ :=
  max (max (lattice ⌊x⌋ ⌊y⌋) (lattice (⌊x⌋ + 1) ⌊y⌋)) (max (lattice ⌊x⌋ (⌊y⌋ + 1)) (lattice (⌊x⌋ + 1) (⌊y⌋ + 1)))

theorem noiseAt_mem_corners (lattice : Int → Int → ℚ) (x y : ℚ) :
    noiseAt lattice (x, y) ∈ Icc (lowestCorner lattice x y) (highestCorner lattice x y) := by
  refine noiseAt_mem (convex_Icc _ _) ?_
  rintro i (rfl | rfl) j (rfl | rfl) <;> simp [lowestCorner, highestCorner]

/-- **Interpolation.** Whatever heights from zero to below one a hash gives to the lattice under a seed:
- where the lattice has the four points around a place, there is noise; it lies between the least and the greatest of the
  four, so it is from zero to below one, and it is what every cell around the place says, its edges included;
- elsewhere there is none;
- the noise at a lattice point is its height;
- two cells that share an edge say the same all along that edge. -/
theorem noise_interpolates {hash : Int → Int → Int → ℚ} (hhash : ∀ seed i j, 0 ≤ hash seed i j ∧ hash seed i j < 1)
    (seed : Int) :
    (∀ x y : ℚ, OnLattice (x, y) → ∃ v, valueNoise (hash seed) x y = .ok v ∧
      lowestCorner (hash seed) x y ≤ v ∧ v ≤ highestCorner (hash seed) x y ∧
      0 ≤ v ∧ v < 1 ∧
      ∀ i j : Int, i ≤ x → x ≤ i + 1 → j ≤ y → y ≤ j + 1 → v = cellNoise (hash seed) i j x y) ∧
    (∀ x y : ℚ, ¬ OnLattice (x, y) → valueNoise (hash seed) x y = .error .latticeRange) ∧
    (∀ i j : Int, OnLattice (i, j) → valueNoise (hash seed) (i : ℚ) j = .ok (hash seed i j)) ∧
    (∀ (i j : Int) (y : ℚ), cellNoise (hash seed) i j (i + 1) y = cellNoise (hash seed) (i + 1) j (i + 1) y) ∧
    (∀ (i j : Int) (x : ℚ), cellNoise (hash seed) i j x (j + 1) = cellNoise (hash seed) i (j + 1) x (j + 1)) := by
  have hplace (x y : ℚ) := valueNoise_eq (hash seed) (x, y)
  refine ⟨fun x y hon => ?_, fun x y hoff => (hplace x y).trans (if_neg hoff), fun i j hon => ?_,
    cellNoise_seam_x _, fun i j x => cellNoise_seam_y _ i j x⟩
  · have hrange : noiseAt (hash seed) (x, y) ∈ Ico (0 : ℚ) 1 :=
      noiseAt_mem (convex_Ico 0 1) fun i _ j _ => hhash seed i j
    have hcorners := noiseAt_mem_corners (hash seed) x y
    exact ⟨_, (hplace x y).trans (if_pos hon), hcorners.1, hcorners.2, hrange.1, hrange.2,
      fun i j hi hi' hj hj' => noiseAt_eq_cellNoise _ ⟨hi, hi'⟩ ⟨hj, hj'⟩⟩
  · have hcorner : noiseAt (hash seed) ((i : ℚ), (j : ℚ)) = hash seed i j := by
      rw [noiseAt_eq_cellNoise (hash seed) (i := i) (j := j) ⟨le_rfl, by linarith⟩ ⟨le_rfl, by linarith⟩, cellNoise_bottom,
        sub_self, smoothstep_zero, between_zero]
    rw [← hcorner]
    exact (hplace i j).trans (if_pos hon)

/-- the hash in use gives heights from zero to below one -/
theorem hashLattice_mem (seed i j : Int) : 0 ≤ (hashLattice seed i j : ℚ) ∧ (hashLattice seed i j : ℚ) < 1 := by
  have hk := RandomSource.fraction_lt (Xxh64.digest (Xxh64.wordOf seed) [Xxh64.wordOf i, Xxh64.wordOf j])
  have hscale : ((Nat.pow 2 53 : Nat) : Int) = 2 ^ 53 := rfl
  have hunit (k : Nat) : (Scalar.unit k : ℚ) = k / 2 ^ 53 := by
    show ((k : Int) : ℚ) / (((Nat.pow 2 53 : Nat) : Int) : ℚ) = _
    rw [hscale]
    norm_num
  rw [hashLattice, hunit]
  have hk' : ((RandomSource.fraction (Xxh64.digest (Xxh64.wordOf seed) [Xxh64.wordOf i, Xxh64.wordOf j]) : Nat) : ℚ) < 2 ^ 53 := by
    exact_mod_cast hk
  exact ⟨by positivity, (div_lt_one (by norm_num)).2 hk'⟩

/-- a place left of the origin on the edge between two cells, which both say what the noise is there -/
theorem noise_interpolates_below_origin :
    (∀ seed i j : Int, 0 ≤ (hashLattice seed i j : ℚ) ∧ (hashLattice seed i j : ℚ) < 1) ∧ OnLattice (-3, -5 / 4) ∧
    ∃ v : ℚ, valueNoise (hashLattice 7) (-3 : ℚ) (-5 / 4) = .ok v ∧ 0 ≤ v ∧ v < 1 ∧
      v = cellNoise (hashLattice 7) (-4) (-2) (-3) (-5 / 4) ∧ v = cellNoise (hashLattice 7) (-3) (-2) (-3) (-5 / 4) := by
  have hon : OnLattice (-3, -5 / 4) := by decide +kernel
  obtain ⟨v, hv, -, -, h0, h1, hcell⟩ := (noise_interpolates hashLattice_mem 7).1 (-3) (-5 / 4) hon
  exact ⟨hashLattice_mem, hon, v, hv, h0, h1, hcell (-4) (-2) (by norm_num) (by norm_num) (by norm_num) (by norm_num),
    hcell (-3) (-2) (by norm_num) (by norm_num) (by norm_num) (by norm_num)⟩

end SceneGrammar.Relief

/-
Noise over the rationals, at one place and summed over octaves.

`noiseAt` is the blend of the four lattice points around a place, `OnLattice` says that the lattice has them. The divisor of
samples is positive for every scale (`Plan.divisor_pos`), so an octave has a value where its sample is on the lattice and
fails for that reason only (`Layering.add_eq`). The running sum comes to `Plan.field`, in which the amplitudes and the
frequencies of the octaves are the powers of persistence and lacunarity (`rawHeight_eq`).
-/
import SceneGrammar.Proofs.Rational
import SceneGrammar.Proofs.Relief.Grid
import SceneGrammar.Relief.NoiseMap

namespace SceneGrammar.Relief

open Finset

/-! ## One place -/

/-- the lattice has the four points around a place -/
def OnLattice (q : ℚ × ℚ) : Prop :=
  inLattice ⌊q.1⌋ ∧ inLattice (⌊q.1⌋ + 1) ∧ inLattice ⌊q.2⌋ ∧ inLattice (⌊q.2⌋ + 1)

instance (q : ℚ × ℚ) : Decidable (OnLattice q) := inferInstanceAs (Decidable (_ ∧ _))

/-- the noise at a place, on a lattice without an end -/
def noiseAt (lattice : Int → Int → ℚ) (q : ℚ × ℚ) : ℚ :=
  blend (lattice ⌊q.1⌋ ⌊q.2⌋) (lattice (⌊q.1⌋ + 1) ⌊q.2⌋) (lattice ⌊q.1⌋ (⌊q.2⌋ + 1)) (lattice (⌊q.1⌋ + 1) (⌊q.2⌋ + 1))
    (smoothstep (Int.fract q.1)) (smoothstep (Int.fract q.2))

section

variable (lattice : Int → Int → ℚ) (q : ℚ × ℚ)

theorem valueNoise_eq :
    valueNoise lattice q.1 q.2 = if OnLattice q then .ok (noiseAt lattice q) else .error .latticeRange := rfl

end

/-! ## One octave -/

namespace Plan

variable (p : Plan ℚ)

/-- a scale of zero or less does not divide -/
theorem divisor_pos : 0 < p.divisor := by
  unfold divisor
  split_ifs with h
  · rwa [Scalar.zero_rat] at h
  · exact show (0 : ℚ) < 0.0001 by norm_num

end Plan

/-- where an octave of some frequency and displacement is sampled, at a distance from the centre -/
def sampleAt (divisor frequency dx dy : ℚ) (offset : ℚ × ℚ) : ℚ × ℚ :=
  (dx / divisor * frequency + offset.1, dy / divisor * frequency + offset.2)

section

variable {p : Plan ℚ} {lattice : Int → Int → ℚ} {dx dy : ℚ} {l : Layering ℚ} {offset : ℚ × ℚ}

theorem Layering.add_eq : l.add p lattice dx dy offset =
    if OnLattice (sampleAt p.divisor l.frequency dx dy offset) then
      .ok ⟨l.amplitude * p.persistence, l.frequency * p.lacunarity,
        l.height + (noiseAt lattice (sampleAt p.divisor l.frequency dx dy offset) * 2 - 1) * l.amplitude⟩
    else .error .latticeRange := by
  have hdivide (d : ℚ) : (Scalar.divide d p.divisor).mapError ReliefError.number = .ok (d / p.divisor) := by
    rw [Scalar.divide_ok p.divisor_pos.ne']
    rfl
  have hnoise : valueNoise lattice (dx / p.divisor * l.frequency + offset.1) (dy / p.divisor * l.frequency + offset.2) = _ :=
    valueNoise_eq lattice (sampleAt p.divisor l.frequency dx dy offset)
  simp only [Layering.add, hdivide, bind, Except.bind]
  simp only [hnoise]
  split_ifs
  · rfl
  · rfl

end

/-! ## All octaves -/

namespace Plan

variable (p : Plan ℚ) (lattice : Int → Int → ℚ) (width height : Int)

/-- where an octave is sampled for a cell -/
def place (c : Nat × Nat) (i : Nat) : ℚ × ℚ :=
  sampleAt p.divisor (p.lacunarity ^ i) (c.1 - width / 2) (c.2 - height / 2) (p.octaveOffset i)

/-- all octaves are sampled on the lattice for all cells -/
def StaysOnLattice : Prop :=
  ∀ c ∈ grid width.toNat height.toNat, ∀ i < p.octaves.toNat, OnLattice (p.place width height c i)

/-- the sum of all octaves at a cell -/
def field (c : Nat × Nat) : ℚ :=
  ∑ i ∈ range p.octaves.toNat, (noiseAt lattice (p.place width height c i) * 2 - 1) * p.persistence ^ i

end Plan

section

variable {p : Plan ℚ} {lattice : Int → Int → ℚ} {dx dy : ℚ}

/-- The octaves up to the `n`-th, summed up. By induction on `n`: the amplitude and the frequency of the next one are the
`n`-th powers of persistence and lacunarity. -/
theorem foldlM_octaves (offset : Nat → ℚ × ℚ) (n : Nat)
    (h : ∀ i < n, OnLattice (sampleAt p.divisor (p.lacunarity ^ i) dx dy (offset i))) :
    ((List.range n).map offset).foldlM (Layering.add p lattice dx dy) ⟨Scalar.one, Scalar.one, Scalar.zero⟩ =
      .ok ⟨p.persistence ^ n, p.lacunarity ^ n, ∑ i ∈ range n,
        (noiseAt lattice (sampleAt p.divisor (p.lacunarity ^ i) dx dy (offset i)) * 2 - 1) * p.persistence ^ i⟩ := by
  induction n with
  | zero =>
    simp only [Scalar.one_rat, Scalar.zero_rat, pow_zero, sum_range_zero]
    rfl
  | succ n ih =>
    rw [List.range_succ, List.map_append, List.foldlM_append, ih fun i hi => h i (hi.trans n.lt_succ_self),
      sum_range_succ, pow_succ, pow_succ]
    show ([offset n].foldlM (Layering.add p lattice dx dy) _ : Except ReliefError (Layering ℚ)) = _
    rw [List.foldlM_cons, Layering.add_eq, if_pos (h n n.lt_succ_self)]
    rfl

/-- the sum of octaves fails for one reason only -/
theorem foldlM_octaves_error {offsets : List (ℚ × ℚ)} {l : Layering ℚ} {e : ReliefError}
    (h : offsets.foldlM (Layering.add p lattice dx dy) l = .error e) : e = .latticeRange := by
  induction offsets generalizing l with
  | nil => cases h
  | cons o offsets ih =>
    rw [List.foldlM_cons, Layering.add_eq] at h
    split_ifs at h
    · exact ih h
    · exact (Except.error.inj h).symm

end

section

variable {p : Plan ℚ} {lattice : Int → Int → ℚ} {width height : Int}

/-- **One cell.** Where all octaves are sampled on the lattice, the raw height is their sum. -/
theorem rawHeight_eq {c : Nat × Nat} (h : ∀ i < p.octaves.toNat, OnLattice (p.place width height c i)) :
    rawHeight p lattice p.offsets width height c.1 c.2 = .ok (p.field lattice width height c) := by
  have hsum : p.offsets.foldlM (Layering.add p lattice (Scalar.ofInt c.1 - Scalar.ofInt width / Scalar.ofInt 2)
      (Scalar.ofInt c.2 - Scalar.ofInt height / Scalar.ofInt 2)) ⟨Scalar.one, Scalar.one, Scalar.zero⟩ = .ok _ :=
    foldlM_octaves p.octaveOffset p.octaves.toNat h
  unfold rawHeight
  simp only [hsum]
  rfl

theorem rawHeight_error {offsets : List (ℚ × ℚ)} {x y : Nat} {e : ReliefError}
    (h : rawHeight p lattice offsets width height x y = .error e) : e = .latticeRange := by
  unfold rawHeight at h
  cases hsum : offsets.foldlM (Layering.add p lattice (Scalar.ofInt x - Scalar.ofInt width / Scalar.ofInt 2)
      (Scalar.ofInt y - Scalar.ofInt height / Scalar.ofInt 2)) ⟨Scalar.one, Scalar.one, Scalar.zero⟩ with
  | ok l =>
    simp only [hsum] at h
    cases h
  | error e' =>
    simp only [hsum] at h
    obtain rfl : e' = e := Except.error.inj h
    exact foldlM_octaves_error hsum

end

end SceneGrammar.Relief

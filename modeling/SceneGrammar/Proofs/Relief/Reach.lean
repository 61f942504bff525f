/-
Plans whose samples stay on the lattice.

The coordinates of the lattice are 64-bit integers. A plan covers a size (`Plan.Covers`) if the farthest sample of its last
octave would still be on the lattice; the octaves before it are coarser and lie nearer to the origin, so all samples are
(`Plan.Covers.staysOnLattice`). The displacement of an octave is a draw from the plan's source, and no draw is greater than
`Plan.reach` (`Plan.octaveOffset_le`).
-/
import SceneGrammar.Proofs.Growth.Completion
import SceneGrammar.Proofs.Relief.Octaves

namespace SceneGrammar.Relief

/-- the lattice has the four points around whatever is nearer to the origin than this along both axes -/
def farthest : ℚ := 2 ^ 63 - 1

theorem inLattice_floor {x : ℚ} (h : |x| < farthest) : inLattice ⌊x⌋ = true ∧ inLattice (⌊x⌋ + 1) = true := by
  obtain ⟨hlow, hhigh⟩ := abs_lt.1 h
  have hfarthest : ((2 ^ 63 - 1 : Int) : ℚ) = farthest := by norm_num [farthest]
  have hbelow : -(2 ^ 63 - 1) ≤ ⌊x⌋ := Int.le_floor.2 (by rw [Int.cast_neg, hfarthest]; exact hlow.le)
  have habove : ⌊x⌋ < 2 ^ 63 - 1 := Int.floor_lt.2 (by rw [hfarthest]; exact hhigh)
  have hpow : ((Nat.pow 2 63 : Nat) : Int) = 2 ^ 63 := rfl
  simp only [inLattice, hpow, decide_eq_true_eq]
  omega

theorem onLattice_of_near {q : ℚ × ℚ} (hx : |q.1| < farthest) (hy : |q.2| < farthest) : OnLattice q := by
  obtain ⟨hx, hx'⟩ := inLattice_floor hx
  obtain ⟨hy, hy'⟩ := inLattice_floor hy
  exact ⟨hx, hx', hy, hy'⟩

/-- how far a cell lies from the centre -/
theorem centre_le {n size : Int} (hn : n ≤ size) {x : Nat} (hx : x < n.toNat) :
    |(x : ℚ) - (n : ℚ) / 2| ≤ size / 2 := by
  have hlow : (0 : ℚ) ≤ (x : ℚ) := x.cast_nonneg
  have hhigh : (x : ℚ) ≤ n := by exact_mod_cast (by omega : (x : Int) ≤ n)
  have hsize : (n : ℚ) ≤ size := by exact_mod_cast hn
  rw [abs_le]
  constructor <;> linarith

namespace Plan

theorem octaveOffset_le (p : Plan ℚ) (i : Nat) : |(p.octaveOffset i).1| ≤ Plan.reach + max |p.offsetX| |p.offsetY| ∧
    |(p.octaveOffset i).2| ≤ Plan.reach + max |p.offsetX| |p.offsetY| := by
  have hwidth : Rounding.toBits 53 (2 * Plan.reach) = 2 * Plan.reach := by decide +kernel
  have hdraw (n : Nat) : |((RandomSource.landing (-Plan.reach) (2 * Plan.reach)
      (RandomSource.fraction (RandomSource.word (RandomSource.keyOf p.sourceSeed) n)) : Int) : ℚ)| ≤ Plan.reach := by
    obtain ⟨hlow, hhigh⟩ : -(Plan.reach : Int) ≤ RandomSource.landing (-Plan.reach) (2 * Plan.reach) _ ∧ _ :=
      RandomSource.landing_mem (show 0 < 2 * Plan.reach by decide)
        (RandomSource.fraction_lt (RandomSource.word (RandomSource.keyOf p.sourceSeed) n))
    rw [hwidth] at hhigh
    push_cast at hhigh
    exact_mod_cast abs_le.2 ⟨hlow, by omega⟩
  refine ⟨?_, ?_⟩
  · exact (abs_add_le _ _).trans (add_le_add (hdraw _) (le_max_left _ _))
  · exact (abs_add_le _ _).trans (add_le_add (hdraw _) (le_max_right _ _))

/-- the samples of all octaves of a map stay within the lattice -/
structure Covers (p : Plan ℚ) (size : Int) : Prop where
  divisor : 0 < p.divisor
  finer : 1 ≤ p.lacunarity
  near : size / 2 / p.divisor * p.lacunarity ^ p.octaves.toNat + (Plan.reach + max |p.offsetX| |p.offsetY|) < farthest

variable {p : Plan ℚ} {width height size : Int}

/-- the frequencies of octaves rise, so no sample is farther out than one of the last octave -/
theorem Covers.staysOnLattice (h : p.Covers size) (hw : width ≤ size) (hh : height ≤ size) :
    p.StaysOnLattice width height := by
  intro c hc i hi
  have hsample {n : Int} (hn : n ≤ size) {x : Nat} (hx : x < n.toNat) {o : ℚ}
      (ho : |o| ≤ Plan.reach + max |p.offsetX| |p.offsetY|) :
      |((x : ℚ) - n / 2) / p.divisor * p.lacunarity ^ i + o| < farthest := by
    have hradius := centre_le hn hx
    have hsize : (0 : ℚ) ≤ size / 2 := (abs_nonneg _).trans hradius
    calc |((x : ℚ) - n / 2) / p.divisor * p.lacunarity ^ i + o|
      _ ≤ |((x : ℚ) - n / 2) / p.divisor * p.lacunarity ^ i| + |o| := abs_add_le _ _
      _ = |(x : ℚ) - n / 2| / p.divisor * p.lacunarity ^ i + |o| := by
        rw [abs_mul, abs_div, abs_of_pos h.divisor, abs_of_nonneg (pow_nonneg (zero_le_one.trans h.finer) i)]
      _ ≤ size / 2 / p.divisor * p.lacunarity ^ p.octaves.toNat + (Plan.reach + max |p.offsetX| |p.offsetY|) := by
        have hdivisor := h.divisor
        have hfiner := h.finer
        gcongr
      _ < farthest := h.near
  obtain ⟨hx, hy⟩ := p.octaveOffset_le i
  exact onLattice_of_near (hsample hw hc.1 hx) (hsample hh hc.2 hy)

end Plan

end SceneGrammar.Relief

/-
Noise maps fill the span from zero to one.

`normalise` looks for the least and the greatest height of a map and then replaces each height by its place between them.
Over the rationals that stretches the map to the span from zero to one and keeps its order, and a level map becomes zero
(`Stretched`). A falloff that is taken off afterwards lowers the heights and leaves them in the span.

- `layered_error`: a noise map is not made only if it has too many cells or is sampled beyond the lattice; nothing is
  divided by zero, whatever the scale is.
- `noise_levels`: where all samples are on the lattice, the map is the stretched sum of octaves.
- `noiseMap_ok`: then it has a height everywhere.
-/
import SceneGrammar.Proofs.Relief.Falloff
import SceneGrammar.Proofs.Relief.Reach

namespace SceneGrammar

namespace HeightMap

variable {m : HeightMap ℚ} {width height : Nat} {f : Nat × Nat → ℚ}

theorem Charts.values_eq (h : m.Charts width height f) : {a | a ∈ m.values} = f '' grid width height :=
  Set.ext fun _ => h.mem_values

theorem Charts.least_iff (h : m.Charts width height f) {a : ℚ} :
    m.least = some a ↔ IsLeast (f '' grid width height) a := by
  rw [HeightMap.least, Scalar.leastOf_eq_some_iff, h.values_eq]

theorem Charts.greatest_iff (h : m.Charts width height f) {a : ℚ} :
    m.greatest = some a ↔ IsGreatest (f '' grid width height) a := by
  rw [HeightMap.greatest, Scalar.greatestOf_eq_some_iff, h.values_eq]

/-- a map has a least and a greatest value -/
theorem Charts.bounds (h : m.Charts width height f) :
    ∃ lo hi, IsLeast (f '' grid width height) lo ∧ IsGreatest (f '' grid width height) hi := by
  cases hvalues : m.values with
  | nil =>
    have hmem := h.mem_values.2 ⟨_, h.grid_nonempty, rfl⟩
    rw [hvalues] at hmem
    cases hmem
  | cons a l =>
    refine ⟨l.foldl Scalar.least a, l.foldl Scalar.greatest a, h.least_iff.1 ?_, h.greatest_iff.1 ?_⟩
    · rw [HeightMap.least, hvalues]
      rfl
    · rw [HeightMap.greatest, hvalues]
      rfl

end HeightMap

namespace Relief

/-! ## Stretching -/

/-- the least and the greatest value seen, from some on -/
theorem foldl_widen_some (l : List ℚ) (lo hi : ℚ) :
    l.foldl widen (some (lo, hi)) = some (l.foldl Scalar.least lo, l.foldl Scalar.greatest hi) := by
  induction l generalizing lo hi with
  | nil => rfl
  | cons a l ih => exact ih _ _

theorem foldl_widen {l : List ℚ} {lo hi : ℚ} (hlo : Scalar.leastOf l = some lo) (hhi : Scalar.greatestOf l = some hi) :
    l.foldl widen none = some (lo, hi) := by
  cases l with
  | nil => cases hlo
  | cons a l =>
    have hfirst : widen none a = some (a, a) := if_pos (beq_iff_eq.2 rfl)
    rw [List.foldl_cons, hfirst, foldl_widen_some, Option.some.inj hlo, Option.some.inj hhi]

/-- where a height lies between two others, as a fraction; zero if they are the same -/
def share (lo hi a : ℚ) : ℚ := (a - lo) / (hi - lo)

theorem fractionBetween_eq (lo hi a : ℚ) : fractionBetween lo hi a = .ok (min (max (share lo hi a) 0) 1) := by
  unfold fractionBetween
  by_cases hflat : lo = hi
  · have hshare : share lo hi a = 0 := by rw [share, hflat, sub_self, div_zero]
    rw [if_pos (beq_iff_eq.2 hflat), hshare, max_self, min_eq_left zero_le_one, Scalar.zero_rat]
  · have hdivide : Scalar.divide (a - lo) (hi - lo) = .ok (share lo hi a) :=
      Scalar.divide_ok (sub_ne_zero.2 (Ne.symm hflat))
    have hclamp := Scalar.clamp_rat 0 1 (share lo hi a)
    rw [if_neg fun h => hflat (beq_iff_eq.1 h)]
    simp only [hdivide, bind, Except.bind, Scalar.zero_rat, Scalar.one_rat, hclamp]
    rfl

section

variable {lo hi a b : ℚ}

theorem share_self : share lo hi lo = 0 := by rw [share, sub_self, zero_div]

theorem share_mem (hlo : lo ≤ a) (hhi : a ≤ hi) : 0 ≤ share lo hi a ∧ share lo hi a ≤ 1 :=
  ⟨div_nonneg (sub_nonneg.2 hlo) (sub_nonneg.2 (hlo.trans hhi)),
    div_le_one_of_le₀ (sub_le_sub_right hhi lo) (sub_nonneg.2 (hlo.trans hhi))⟩

theorem share_lt_iff (h : lo < hi) : share lo hi a < share lo hi b ↔ a < b := by
  rw [share, share, div_lt_div_iff_of_pos_right (sub_pos.2 h), sub_lt_sub_iff_right]

end

/-- heights that are all the same -/
def Flat (cells : Set (Nat × Nat)) (field : Nat × Nat → ℚ) : Prop := ∀ c ∈ cells, ∀ d ∈ cells, field c = field d

/-- heights that are others stretched to the span from zero to one; others that are all the same come to zero -/
structure Stretched (cells : Set (Nat × Nat)) (field level : Nat × Nat → ℚ) : Prop where
  flat : Flat cells field → ∀ c ∈ cells, level c = 0
  span : ¬ Flat cells field → IsLeast (level '' cells) 0 ∧ IsGreatest (level '' cells) 1
  order : ¬ Flat cells field → ∀ c ∈ cells, ∀ d ∈ cells, level c < level d ↔ field c < field d

section

variable {cells : Set (Nat × Nat)} {field level : Nat × Nat → ℚ} {lo hi : ℚ}

theorem Stretched.nonneg (h : Stretched cells field level) {c : Nat × Nat} (hc : c ∈ cells) : 0 ≤ level c := by
  by_cases hflat : Flat cells field
  · exact (h.flat hflat c hc).ge
  · exact (h.span hflat).1.2 ⟨c, hc, rfl⟩

/-- heights are all the same if the least is the greatest -/
theorem flat_of_bounds (hlo : IsLeast (field '' cells) lo) (hhi : IsGreatest (field '' cells) hi) (h : hi ≤ lo) :
    Flat cells field := by
  have heq {c : Nat × Nat} (hc : c ∈ cells) : field c = lo :=
    le_antisymm ((hhi.2 ⟨c, hc, rfl⟩).trans h) (hlo.2 ⟨c, hc, rfl⟩)
  intro c hc d hd
  rw [heq hc, heq hd]

theorem stretched_share (hlo : IsLeast (field '' cells) lo) (hhi : IsGreatest (field '' cells) hi) :
    Stretched cells field fun c => share lo hi (field c) := by
  have hmem {c : Nat × Nat} (hc : c ∈ cells) := share_mem (hlo.2 ⟨c, hc, rfl⟩) (hhi.2 ⟨c, hc, rfl⟩)
  have hlt (hflat : ¬ Flat cells field) : lo < hi := lt_of_not_ge fun h => hflat (flat_of_bounds hlo hhi h)
  obtain ⟨⟨c₀, hc₀, rfl⟩, -⟩ := hlo
  obtain ⟨⟨c₁, hc₁, rfl⟩, -⟩ := hhi
  refine
    { flat := fun hflat c hc => ?flat
      span := fun hflat => ⟨⟨⟨c₀, hc₀, share_self⟩, ?above⟩, ⟨c₁, hc₁, ?top⟩, ?below⟩
      order := fun hflat c _ d _ => share_lt_iff (hlt hflat) }
  case flat =>
    show share _ _ (field c) = 0
    rw [hflat c hc c₀ hc₀, share_self]
  case above =>
    rintro _ ⟨c, hc, rfl⟩
    exact (hmem hc).1
  case top => exact div_self (sub_pos.2 (hlt hflat)).ne'
  case below =>
    rintro _ ⟨c, hc, rfl⟩
    exact (hmem hc).2

end

/-- **Stretching.** -/
theorem normalise_charts {m : HeightMap ℚ} {width height : Nat} {f : Nat × Nat → ℚ} (h : m.Charts width height f)
    {lo hi : ℚ} (hlo : IsLeast (f '' grid width height) lo) (hhi : IsGreatest (f '' grid width height) hi) :
    ∃ n, normalise m = .ok n ∧ n.Charts width height fun c => share lo hi (f c) := by
  have hrange := foldl_widen (h.least_iff.2 hlo) (h.greatest_iff.2 hhi)
  obtain ⟨n, hn, hcharts⟩ := h.mapM (φ := fun a => (fractionBetween lo hi a).mapError ReliefError.number) fun a => by
    rw [fractionBetween_eq]
    rfl
  refine ⟨n, ?_, hcharts.congr fun c hc => ?_⟩
  · rw [normalise, hrange]
    exact hn
  · obtain ⟨hnonneg, hle⟩ := share_mem (hlo.2 ⟨c, hc, rfl⟩) (hhi.2 ⟨c, hc, rfl⟩)
    rw [max_eq_left hnonneg, min_eq_left hle]

/-! ## Maps -/

/-- the heights that are left when the falloff of a map is taken off -/
def sunken (width height : Nat) (level : Nat × Nat → ℚ) (c : Nat × Nat) : ℚ :=
  min (max (level c - rise (offCentre width height c)) 0) 1

theorem sunken_mem {width height : Nat} {level : Nat × Nat → ℚ} {c : Nat × Nat} (hc : c ∈ grid width height)
    (hlevel : 0 ≤ level c) :
    0 ≤ sunken width height level c ∧ sunken width height level c ≤ 1 ∧ sunken width height level c ≤ level c := by
  have hrise : 0 ≤ rise (offCentre width height c) := (rise_mem (offCentre_mem hc)).1
  have hlower : max (level c - rise (offCentre width height c)) 0 ≤ level c :=
    max_le (sub_le_self _ hrise) hlevel
  exact ⟨le_min (le_max_right _ _) zero_le_one, min_le_right _ _, (min_le_left _ _).trans hlower⟩

section

variable {p : Plan ℚ} {lattice : Int → Int → ℚ} {offsets : List (ℚ × ℚ)} {width height : Int}

/-- all sizes are rational numbers -/
theorem rawMap_eq : rawMap p lattice offsets width height =
    HeightMap.build width height (rawHeight p lattice offsets width height) :=
  if_pos ⟨rfl, rfl⟩

theorem layered_of_rawMap_error {e : ReliefError} (h : rawMap p lattice offsets width height = .error e) :
    layered p lattice offsets width height = .error e := by
  simp only [layered, h, bind, Except.bind]

variable (hw : 0 < width) (hh : 0 < height)

include hw hh

/-- what becomes of the raw heights, without falloff and with it -/
theorem layered_charts (hcells : width * height < 2 ^ 63) {raw : HeightMap ℚ} {field : Nat × Nat → ℚ}
    (hraw : rawMap p lattice offsets width height = .ok raw) (hcharts : raw.Charts width.toNat height.toNat field) :
    ∃ level, Stretched (grid width.toNat height.toNat) field level ∧
      ∀ falloff, ∃ m, layered { p with falloff } lattice offsets width height = .ok m ∧
        m.Charts width.toNat height.toNat (if falloff then sunken width.toNat height.toNat level else level) := by
  have hraw' (falloff : Bool) : rawMap { p with falloff } lattice offsets width height = .ok raw := hraw
  obtain ⟨lo, hi, hlo, hhi⟩ := hcharts.bounds
  obtain ⟨m, hm, hlevel⟩ := normalise_charts hcharts hlo hhi
  refine ⟨_, stretched_share hlo hhi, fun falloff => ?_⟩
  cases falloff with
  | false =>
    refine ⟨m, ?_, hlevel⟩
    simp only [layered, hraw', bind, Except.bind, hm]
    rfl
  | true =>
    obtain ⟨off, hoff, hfall⟩ := falloffMap_charts hw hh (show (some height).getD width = height from rfl) hcells
    obtain ⟨k, hk, hsunken⟩ := press_charts hlevel hfall
    refine ⟨k, ?_, hsunken⟩
    simp only [layered, hraw', bind, Except.bind, hm, hoff]
    exact hk

/-- a noise map fails for want of room or of a lattice point, and in no other way -/
theorem layered_error {e : ReliefError} (h : layered p lattice offsets width height = .error e) :
    e = .latticeRange ∨ 2 ^ 63 ≤ width * height ∧ e = .tooManyCells := by
  rcases HeightMap.build_cases hw hh (rawHeight p lattice offsets width height) with
    ⟨hmany, hbuild⟩ | ⟨hfew, ⟨c, -, e', he', hbuild⟩ | ⟨field, raw, -, hbuild, hcharts⟩⟩
  · rw [← rawMap_eq] at hbuild
    rw [layered_of_rawMap_error hbuild] at h
    exact .inr ⟨hmany, (Except.error.inj h).symm⟩
  · rw [← rawMap_eq] at hbuild
    rw [layered_of_rawMap_error hbuild] at h
    exact .inl (Except.error.inj h ▸ rawHeight_error he')
  · rw [← rawMap_eq] at hbuild
    obtain ⟨level, -, hmade⟩ := layered_charts hw hh hfew hbuild hcharts
    obtain ⟨m, hm, -⟩ := hmade p.falloff
    cases h.symm.trans hm

variable (lattice) in
/-- where all octaves are sampled on the lattice, the raw heights are their sums -/
theorem rawMap_charts (hcells : width * height < 2 ^ 63) (hp : p.StaysOnLattice width height) :
    ∃ raw, rawMap p lattice p.offsets width height = .ok raw ∧
      raw.Charts width.toNat height.toNat (p.field lattice width height) := by
  rw [rawMap_eq]
  exact HeightMap.build_charts hw hh hcells fun c hc => rawHeight_eq (hp c hc)

end

/-- **Noise maps.** For every plan, every lattice and every size, without falloff and with it:

- a map is not made only where it is sampled beyond the lattice or has more cells than a list can hold; in particular
  nothing is divided by zero, whatever the scale is;
- where all octaves are sampled on the lattice, the raw heights are the sums of octaves, and without falloff they are
  stretched to the span from zero to one: the least height is zero and the greatest one if the sums differ at all, of two
  cells the higher one is still higher, and every height is zero if all sums are the same;
- with falloff, heights are numbers from zero to one that are no greater than without. -/
theorem noise_levels (p : Plan ℚ) (lattice : Int → Int → ℚ) {width height : Int} (hw : 0 < width) (hh : 0 < height) :
    let q := p.clamped
    let made (falloff : Bool) := layered { q with falloff } lattice q.offsets width height
    let cells := grid width.toNat height.toNat
    (∀ falloff e, made falloff = .error e → e = .latticeRange ∨ 2 ^ 63 ≤ width * height ∧ e = .tooManyCells) ∧
    (q.StaysOnLattice width height →
      (2 ^ 63 ≤ width * height ∧ ∀ falloff, made falloff = .error .tooManyCells) ∨
      ∃ raw plain pressed level low,
        rawMap q lattice q.offsets width height = .ok raw ∧
        raw.Charts width.toNat height.toNat (q.field lattice width height) ∧
        made false = .ok plain ∧ plain.Charts width.toNat height.toNat level ∧
        made true = .ok pressed ∧ pressed.Charts width.toNat height.toNat low ∧
        Stretched cells (q.field lattice width height) level ∧
        ∀ c ∈ cells, 0 ≤ low c ∧ low c ≤ 1 ∧ low c ≤ level c) := by
  intro q made cells
  refine ⟨fun falloff e h => layered_error hw hh h, fun hplaces => ?_⟩
  rcases le_or_gt (2 ^ 63) (width * height) with hmany | hfew
  · refine .inl ⟨hmany, fun falloff => layered_of_rawMap_error ?_⟩
    rw [rawMap_eq]
    exact HeightMap.build_tooMany hw hh hmany _
  · obtain ⟨raw, hraw, hfield⟩ := rawMap_charts lattice hw hh hfew hplaces
    obtain ⟨level, hstretched, hmade⟩ := layered_charts hw hh hfew hraw hfield
    obtain ⟨plain, hplain, hlevel⟩ := hmade false
    obtain ⟨pressed, hpressed, hlow⟩ := hmade true
    refine .inr ⟨raw, plain, pressed, level, _, hraw, hfield, hplain, hlevel, hpressed, hlow, hstretched, fun c hc => ?_⟩
    exact sunken_mem hc (hstretched.nonneg hc)

/-- a plan with a negative scale -/
def steep : Plan ℚ := { Plan.standard with scale := -3, octaves := 2, seed := 7 }

theorem steep_covers : steep.clamped.Covers 2 where
  divisor := Plan.divisor_pos _
  finer := by decide +kernel
  near := by decide +kernel

/-- on a map of two cells one is at zero and the other at one -/
theorem noise_levels_two_cells :
    ((0 : Int) < 2 ∧ (0 : Int) < 1 ∧ steep.clamped.StaysOnLattice 2 1) ∧
    ∃ plain pressed level low, noiseMap steep 2 1 = .ok plain ∧ plain.Charts 2 1 level ∧
      noiseMap { steep with falloff := true } 2 1 = .ok pressed ∧ pressed.Charts 2 1 low ∧
      level (0, 0) = 1 ∧ level (1, 0) = 0 ∧ low (1, 0) = 0 := by
  have hplaces : steep.clamped.StaysOnLattice 2 1 := steep_covers.staysOnLattice (by decide) (by decide)
  refine ⟨⟨by decide, by decide, hplaces⟩, ?_⟩
  obtain ⟨-, h⟩ := noise_levels steep (hashLattice 7) (show (0 : Int) < 2 by decide) (show (0 : Int) < 1 by decide)
  obtain ⟨hmany, -⟩ | ⟨-, plain, pressed, level, low, -, -, hplain, hlevel, hpressed, hlow, hstretched, hsunk⟩ := h hplaces
  · exact absurd hmany (by decide)
  have hleft : (0, 0) ∈ grid 2 1 := ⟨by decide, by decide⟩
  have hright : (1, 0) ∈ grid 2 1 := ⟨by decide, by decide⟩
  have hcells : ∀ c ∈ grid 2 1, c = (0, 0) ∨ c = (1, 0) := by
    rintro ⟨x, y⟩ ⟨hx, hy⟩
    simp only [Prod.mk.injEq]
    omega
  have hfield : steep.clamped.field (hashLattice 7) 2 1 (1, 0) < steep.clamped.field (hashLattice 7) 2 1 (0, 0) := by
    decide +kernel
  have huneven : ¬ Flat (grid 2 1) (steep.clamped.field (hashLattice 7) 2 1) :=
    fun hflat => hfield.ne (hflat _ hright _ hleft)
  have hlt : level (1, 0) < level (0, 0) := (hstretched.order huneven _ hright _ hleft).2 hfield
  obtain ⟨⟨⟨c, hc, hzero⟩, hleast⟩, ⟨d, hd, hone⟩, hgreatest⟩ := hstretched.span huneven
  have hrightZero : level (1, 0) = 0 := by
    rcases hcells c hc with rfl | rfl
    · exact absurd (hzero ▸ hlt) (not_lt.2 (hleast ⟨_, hright, rfl⟩))
    · exact hzero
  have hleftOne : level (0, 0) = 1 := by
    rcases hcells d hd with rfl | rfl
    · exact hone
    · exact absurd (hone ▸ hlt) (not_lt.2 (hgreatest ⟨_, hleft, rfl⟩))
  obtain ⟨hnonneg, -, hle⟩ := hsunk _ hright
  exact ⟨plain, pressed, level, low, hplain, hlevel, hpressed, hlow, hleftOne, hrightZero,
    le_antisymm (hrightZero ▸ hle) hnonneg⟩

/-- A map whose samples stay on the lattice has a height everywhere. -/
theorem noiseMap_ok {p : Plan ℚ} {width height : Int} (hw : 0 < width) (hh : 0 < height)
    (hcells : width * height < 2 ^ 63) (hplaces : p.clamped.StaysOnLattice width height) :
    ∃ m, noiseMap p width height = .ok m := by
  obtain ⟨raw, hraw, hfield⟩ := rawMap_charts (hashLattice p.clamped.seed) hw hh hcells hplaces
  obtain ⟨level, -, hmade⟩ := layered_charts hw hh hcells hraw hfield
  obtain ⟨m, hm, -⟩ := hmade p.falloff
  exact ⟨m, hm⟩

end Relief

end SceneGrammar

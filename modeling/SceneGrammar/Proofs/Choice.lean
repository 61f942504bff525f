/-
Random integers stay in range, and so do choices from a list.

A symbol that draws an integer of a range either has no source to draw from, or the range is too wide for doubles, or it
gets an integer of the range (`World.randomInt_cases`). A choice from a list draws a position and looks it up
(`City.choose_cases`): it never looks behind the end.

- `RandomSource.stays_in_range`: for every range whose width can be rounded, whatever is drawn, the two roundings lead to an
  integer of the range; hence every source answers one, and every choice from a list that is not empty is one of its items.
-/
import SceneGrammar.City
import SceneGrammar.Proofs.Descent
import SceneGrammar.Proofs.Engine.Ticks
import SceneGrammar.Proofs.Range

namespace SceneGrammar

variable {α κ σ : Type} [Scalar α] [SymbolKind κ]

omit [Scalar α] in
/-- what a symbol gets that asks for an integer of a range that is not empty -/
theorem World.randomInt_cases (s : ShapeId) {low high : Int} (hlt : low < high) (w : World α κ σ) :
    (∃ e, w.sourceOf s = .error e ∧ randomInt s low high w = .error e w) ∨
    (Nat.pow 2 1024 ≤ Rounding.toBits 53 (high - low).toNat ∧
      ∃ w', randomInt s low high w = .error (.range .tooWide) w') ∨
    ∃ x w', randomInt s low high w = .ok x w' ∧ low ≤ x ∧ x < high := by
  unfold randomInt
  cases hsource : w.sourceOf s with
  | error e => exact .inl ⟨e, rfl, rfl⟩
  | ok i =>
    cases hr : w.sources[i]? with
    | none => exact .inr (.inr ⟨low, w, by simp only [hr], le_rfl, hlt⟩)
    | some r =>
      rcases Nat.lt_or_ge (Rounding.toBits 53 (high - low).toNat) (Nat.pow 2 1024) with hfits | hwide
      · refine .inr (.inr ⟨_, w.setSource i (r.next w.entropy).2.1 (r.next w.entropy).2.2, ?_,
          RandomSource.landing_between hlt (RandomSource.next_lt r w.entropy)⟩)
        simp only [hr, RandomSource.nextInt_eq hlt hfits]
      · refine .inr (.inl ⟨hwide, w.setSource i (r.next w.entropy).2.1 (r.next w.entropy).2.2, ?_⟩)
        simp only [hr, RandomSource.nextInt, if_neg (not_le.2 hlt), RandomSource.scaled, if_pos hwide]

/-- what a symbol gets that chooses from a list that is not empty -/
theorem City.choose_cases {β : Type} (s : ShapeId) {xs : List β} (hne : xs ≠ []) (g : Grammar α κ σ) (w : World α κ σ) :
    (∃ e, w.sourceOf s = .error e ∧ (choose s xs).run g w = .error e w) ∨
    (Nat.pow 2 1024 ≤ Rounding.toBits 53 xs.length ∧ ∃ w', (choose s xs).run g w = .error (.range .tooWide) w') ∨
    ∃ (i : Fin xs.length) (w' : World α κ σ),
      World.randomInt s 0 xs.length w = .ok (i : Int) w' ∧ (choose s xs).run g w = .ok xs[i] w' := by
  have hpos : (0 : Int) < xs.length := Int.natCast_pos.2 (List.length_pos_iff.2 hne)
  have hempty : ¬ xs.isEmpty = true := by simpa using hne
  have hperform : World.perform g.spare (g.expandWithin g.nesting) (.randomInt s 0 xs.length) w =
      World.randomInt s 0 xs.length w := rfl
  unfold choose
  rw [if_neg hempty, Prog.run_bind, Prog.run_act, hperform]
  rcases World.randomInt_cases s hpos w with ⟨e, hsource, hdraw⟩ | ⟨hwide, v, hdraw⟩ | ⟨x, v, hdraw, h0, hlt⟩
  · exact .inl ⟨e, hsource, by rw [hdraw]⟩
  · rw [Int.sub_zero, Int.toNat_natCast] at hwide
    exact .inr (.inl ⟨hwide, v, by rw [hdraw]⟩)
  · obtain ⟨i, rfl⟩ := Int.eq_ofNat_of_zero_le h0
    have hi : i < xs.length := Int.ofNat_lt.1 hlt
    refine .inr (.inr ⟨⟨i, hi⟩, v, hdraw, ?_⟩)
    rw [hdraw]
    simp only [Int.toNat_natCast, List.getElem?_eq_getElem hi]
    rfl

/-- **Random integers stay in range.** Let the width of a range round to less than `2 ^ 1024`. For every fraction
`k / 2 ^ 53`, the width is rounded to the nearest number of 53 binary digits, ties to even, multiplied by the fraction,
rounded again, and what is behind the point is dropped; the integer that falls on is one of the range. So every source
answers such an integer. A choice from a list that is not empty draws a position in the list and answers what stands
there, unless there is no source to draw from or the list is too long for its length to be a double. -/
theorem RandomSource.stays_in_range {low high : Int} (hlt : low < high)
    (hfits : Rounding.toBits 53 (high - low).toNat < Nat.pow 2 1024) :
    (∀ k < 2 ^ 53,
      let width := (high - low).toNat
      let product := Rounding.toBits 53 width * k
      let x := low + (Rounding.toBits 53 product / 2 ^ 53 : Nat)
      Rounding.Rounds 53 width (Rounding.toBits 53 width) ∧ Rounding.Rounds 53 product (Rounding.toBits 53 product) ∧
        scaled low high k = .ok x ∧ low ≤ x ∧ x < high) ∧
    (∀ (r : RandomSource) (e : Entropy), ∃ x r' e', r.nextInt low high e = (.ok x, r', e') ∧ low ≤ x ∧ x < high) ∧
    ∀ {β : Type} (s : ShapeId) (xs : List β) (g : Grammar α κ σ) (w : World α κ σ), xs ≠ [] →
      (∃ e, w.sourceOf s = .error e ∧ (City.choose s xs).run g w = .error e w) ∨
      (Nat.pow 2 1024 ≤ Rounding.toBits 53 xs.length ∧
        ∃ w', (City.choose s xs).run g w = .error (.range .tooWide) w') ∨
      ∃ (i : Fin xs.length) (w' : World α κ σ),
        World.randomInt s 0 xs.length w = .ok (i : Int) w' ∧ (City.choose s xs).run g w = .ok xs[i] w' := by
  refine ⟨fun k hk => ?_, fun r e => ?_, fun s xs g w hne => City.choose_cases s hne g w⟩
  · have hprecise : 1 < 53 := by decide
    exact ⟨Rounding.toBits_rounds hprecise _, Rounding.toBits_rounds hprecise _, scaled_eq hfits k,
      landing_between hlt hk⟩
  · exact ⟨_, _, _, nextInt_eq hlt hfits r e, landing_between hlt (next_lt r e)⟩

/-- a width of `2 ^ 54 + 3` is rounded up by one; the last of all fractions still falls short of the end. A symbol with a
source chooses from three. -/
theorem RandomSource.stays_in_range_rounded_up :
    Rounding.toBits 53 (2 ^ 54 + 3) = 2 ^ 54 + 4 ∧ scaled (-1) (2 ^ 54 + 2) (2 ^ 53 - 1) = .ok (2 ^ 54 - 1) ∧
      (∃ x r' e', (ofSeed 7).nextInt (-1) (2 ^ 54 + 2) ⟨fun _ => 0, 0⟩ = (.ok x, r', e') ∧ -1 ≤ x ∧ x < 2 ^ 54 + 2) ∧
      ∃ (i : Fin 3) (w' : World Float (City.Kind Float) Unit), World.randomInt 2 0 3 branched = .ok (i : Int) w' ∧
        (City.choose 2 ["park", "block", "water"]).run idle branched = .ok ["park", "block", "water"][i] w' := by
  have hfits : Rounding.toBits 53 ((2 ^ 54 + 2 : Int) - -1).toNat < Nat.pow 2 1024 := by decide +kernel
  obtain ⟨hdraws, hsources, hchoices⟩ :=
    stays_in_range (α := Float) (κ := City.Kind Float) (σ := Unit) (show (-1 : Int) < 2 ^ 54 + 2 by decide) hfits
  have hlast := (hdraws (2 ^ 53 - 1) (by decide)).2.2.1
  refine ⟨by decide +kernel, hlast.trans (by decide +kernel), hsources (ofSeed 7) ⟨fun _ => 0, 0⟩, ?_⟩
  rcases hchoices 2 ["park", "block", "water"] idle branched (by decide) with ⟨e, hsource, -⟩ | ⟨hwide, -⟩ | hchosen
  · have hnone : (branched.sourceOf 2).isOk = true := by decide +kernel
    rw [hsource] at hnone
    cases hnone
  · exact absurd hwide (by decide +kernel)
  · exact hchosen

end SceneGrammar

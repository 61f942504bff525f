/-
Recipes that do not fail.

`Completes Q r`: whatever has grown, the recipe `r` does not fail, and its answer has the property `Q`. Recipes are put
together by `bind`, which is what sequence is for the programs they stand for (`toProg_bind`) and for what they grow
(`grow_bind`); what is put together of recipes that do not fail does not fail.

Draws stay in their range: a draw of `[low, high)` is at least `low` and falls short of `low` plus the width, rounded to
53 binary digits (`landing_mem`). Widths below `2 ^ 53` are not changed by that rounding.
-/
import SceneGrammar.Proofs.Growth.Recipe

namespace SceneGrammar

/-! ## Draws -/

namespace Rounding

theorem nearest_le (num den : Nat) : 2 * (nearest num den * den) ≤ 2 * num + den := by
  have hdiv := Nat.div_add_mod num den
  have hcomm : num / den * den = den * (num / den) := Nat.mul_comm _ _
  unfold nearest
  simp only
  split_ifs
  · omega
  · rw [Nat.add_mul, Nat.one_mul]
    omega
  · omega
  · rw [Nat.add_mul, Nat.one_mul]
    omega

theorem le_nearest_of_mul_le {num den t : Nat} (hden : 0 < den) (h : t * den ≤ num) : t ≤ nearest num den := by
  have ht : t ≤ num / den := (Nat.le_div_iff_mul_le hden).2 h
  unfold nearest
  simp only
  split_ifs <;> omega

/-- a width below `2 ^ 53` can be scaled to -/
theorem toBits_fits {n : Nat} (h : n < Nat.pow 2 53) : toBits 53 n < Nat.pow 2 1024 := by
  -- the exponent is hidden from evaluation
  obtain ⟨p, hp⟩ : ∃ p, p = 1024 := ⟨_, rfl⟩
  rw [toBits_of_lt h, ← hp]
  exact h.trans_le (Nat.pow_le_pow_right Nat.two_pos (by omega))

/-- a number with digits to spare is at least half of the power of two beyond it -/
theorem pow_le_of_lt_width {p n : Nat} (hp : 0 < p) (h : p < width n) : 2 ^ (width n - p + (p - 1)) ≤ n := by
  have hn : n ≠ 0 := by
    rintro rfl
    simp [width] at h
  have hw : width n = n.log2 + 1 := by simp [width, hn]
  have he : width n - p + (p - 1) = n.log2 := by omega
  rw [he]
  exact Nat.log2_self_le hn

theorem toBits_pos {p n : Nat} (hp : 0 < p) (hn : 0 < n) : 0 < toBits p n := by
  rcases Nat.lt_or_ge p (width n) with h | h
  · have hle : 2 ^ (width n - p) ≤ n :=
      (Nat.pow_le_pow_right Nat.two_pos (Nat.le_add_right _ _)).trans (pow_le_of_lt_width hp h)
    have hpos := le_nearest_of_mul_le (t := 1) (Nat.two_pow_pos _) ((Nat.one_mul _).trans_le hle)
    exact Nat.mul_pos hpos (Nat.two_pow_pos _)
  · simpa [toBits, Nat.sub_eq_zero_of_le h] using hn

/-- the rounded product of a width and a fraction falls short of the width -/
theorem toBits_mul_lt {p m k : Nat} (hp : 0 < p) (hm : 0 < m) (hk : k < 2 ^ p) : toBits p (m * k) < m * 2 ^ p := by
  have hmul : m * k + m ≤ m * 2 ^ p := by
    rw [← Nat.mul_succ]
    exact Nat.mul_le_mul_left m hk
  rcases Nat.lt_or_ge p (width (m * k)) with h | h
  · -- what is added by rounding is at most half of the last digit, which is less than the width
    have hround := nearest_le (m * k) (2 ^ (width (m * k) - p))
    have hlast : 2 ^ (width (m * k) - p) * 2 ^ (p - 1) ≤ m * k := by
      rw [← Nat.pow_add]
      exact pow_le_of_lt_width hp h
    have hdouble : 2 ^ p = 2 * 2 ^ (p - 1) := by
      rw [← Nat.pow_succ', Nat.succ_eq_add_one, Nat.sub_one_add_one hp.ne']
    have hless : 2 ^ (width (m * k) - p) < 2 * m := by
      refine Nat.lt_of_mul_lt_mul_right (a := 2 ^ (p - 1)) (hlast.trans_lt ?_)
      calc m * k < m * 2 ^ p := by omega
        _ = 2 * m * 2 ^ (p - 1) := by rw [hdouble, ← Nat.mul_assoc, Nat.mul_comm m 2]
    show nearest (m * k) (2 ^ (width (m * k) - p)) * 2 ^ (width (m * k) - p) < m * 2 ^ p
    omega
  · have hsame : toBits p (m * k) = m * k := by simp [toBits, Nat.sub_eq_zero_of_le h]
    omega

/-- the whole part of such a product, taken as a fraction, falls short of the width -/
theorem toBits_mul_div_lt {p m k : Nat} (hp : 0 < p) (hm : 0 < m) (hk : k < 2 ^ p) :
    toBits p (m * k) / Nat.pow 2 p < m := by
  exact Nat.div_lt_of_lt_mul ((toBits_mul_lt hp hm hk).trans_eq (Nat.mul_comm m _))

end Rounding

namespace RandomSource

theorem fraction_lt (w : UInt64) : fraction w < 2 ^ 53 := by
  have h := w.toNat_lt
  simp only [fraction, UInt64.toNat_shiftRight, Nat.shiftRight_eq_div_pow]
  exact Nat.div_lt_of_lt_mul (h.trans_eq (by decide))

/-- **The range of draws.** -/
theorem landing_mem {low : Int} {width k : Nat} (hw : 0 < width) (hk : k < 2 ^ 53) :
    low ≤ landing low width k ∧ landing low width k < low + Rounding.toBits 53 width := by
  have hp : 0 < 53 := by decide
  have hlt := Int.ofNat_lt.2 (Rounding.toBits_mul_div_lt hp (Rounding.toBits_pos hp hw) hk)
  unfold landing
  exact ⟨Int.le_add_of_nonneg_right (Int.natCast_nonneg _), Int.add_lt_add_left hlt low⟩

end RandomSource

/-! ## Recipes in sequence -/

namespace Recipe

variable {α κ σ β γ : Type}

/-- one recipe after another -/
def bind {β : Type} : Recipe α κ β → (β → Recipe α κ γ) → Recipe α κ γ
  | .done b, f => f b
  | .fail fault, _ => .fail fault
  | .relief next, f => .relief fun m => (next m).bind f
  | .integer low high next, f => .integer low high fun x => (next x).bind f
  | .fraction next, f => .fraction fun k => (next k).bind f
  | .symbol offer name pose next, f => .symbol offer name pose (next.bind f)
  | .terminal template pose next, f => .terminal template pose (next.bind f)
  | .attempt body next, f => .attempt body fun r => (next r).bind f

instance instMonad : Monad (Recipe α κ) where
  pure := .done
  bind := bind

/-- a value, or its fault -/
def ofExcept : Except (Fault α) β → Recipe α κ β
  | .ok b => .done b
  | .error fault => .fail fault

section

variable [SymbolKind κ] (self : ShapeId)

theorem toProg_bind (r : Recipe α κ β) (f : β → Recipe α κ γ) : (r >>= f).toProg self =
    ((r.toProg self : Prog α κ σ β) >>= fun b => (f b).toProg self) := by
  show (r.bind f).toProg self = (r.toProg self).bind fun b => (f b).toProg self
  induction r with
  | done b => rfl
  | fail e => rfl
  | relief next ih =>
    simp only [bind, toProg, Prog.bind]
    congr 1
    funext m
    cases m with
    | ok m => exact ih m f
    | error e => rfl
  | integer low high next ih =>
    simp only [bind, toProg, Prog.bind]
    exact congrArg _ (funext fun x => ih x f)
  | fraction next ih =>
    simp only [bind, toProg, Prog.bind]
    exact congrArg _ (funext fun x => ih x f)
  | symbol offer name pose next ih =>
    simp only [bind, toProg, Prog.bind]
    exact congrArg _ (funext fun _ => ih f)
  | terminal template pose next ih =>
    simp only [bind, toProg, Prog.bind]
    exact congrArg _ (funext fun _ => ih f)
  | attempt body next _ ih =>
    simp only [bind, toProg, Prog.bind]
    exact congrArg _ (funext fun r => ih r f)

theorem toProg_ofExcept (x : Except (Fault α) β) :
    (ofExcept x : Recipe α κ β).toProg self = (Prog.ofExcept x : Prog α κ σ β) := by
  cases x <;> rfl

theorem toProg_forM (l : List β) (f : β → Recipe α κ Unit) :
    (l.forM f).toProg self = (l.forM fun b => ((f b).toProg self : Prog α κ σ Unit)) := by
  induction l with
  | nil => rfl
  | cons b l ih =>
    show (f b >>= fun _ => l.forM f).toProg self = (f b).toProg self >>= fun _ => l.forM fun b => (f b).toProg self
    rw [toProg_bind, ih]

end

/-! ## Thriving -/

section

variable [Scalar α] (ctx : GrowthContext α κ) (expand : Option Nat → Grow α κ Unit) (self : Option Nat)

theorem grow_bind (r : Recipe α κ β) (f : β → Recipe α κ γ) (P : Subtree α κ) : (r >>= f).grow ctx expand self P =
    match r.grow ctx expand self P with
    | .ok b P => (f b).grow ctx expand self P
    | .error e P => .error e P := by
  show (r.bind f).grow ctx expand self P = _
  induction r generalizing P with
  | done b => rfl
  | fail e => rfl
  | relief next ih => exact ih ctx.relief f P
  | integer low high next ih =>
    simp only [bind, grow]
    cases drawInt ctx low high P with
    | error e Q => rfl
    | ok x Q => exact ih x f Q
  | fraction next ih => exact ih _ f _
  | symbol offer name pose next ih =>
    simp only [bind, grow]
    cases makeSymbol ctx expand self offer name pose P with
    | error e Q => rfl
    | ok x Q => exact ih f Q
  | terminal template pose next ih =>
    simp only [bind, grow]
    cases makeTerminal ctx self template pose P with
    | error e Q => rfl
    | ok x Q => exact ih f Q
  | attempt body next _ ih =>
    simp only [bind, grow]
    cases body.grow ctx expand self P with
    | error e Q => exact ih _ f Q
    | ok x Q => exact ih _ f Q

/-- whatever has grown, a recipe does not fail, and its answer has a property -/
def Completes (Q : β → Prop) (r : Recipe α κ β) : Prop := ∀ P, ∃ b P', r.grow ctx expand self P = .ok b P' ∧ Q b

variable {ctx expand self}

theorem Completes.pure {Q : β → Prop} {b : β} (h : Q b) : Completes ctx expand self Q (Pure.pure b) :=
  fun P => ⟨b, P, rfl, h⟩

theorem Completes.bind {Q : β → Prop} {R : γ → Prop} {r : Recipe α κ β} {f : β → Recipe α κ γ}
    (h : Completes ctx expand self Q r) (k : ∀ b, Q b → Completes ctx expand self R (f b)) :
    Completes ctx expand self R (r >>= f) := by
  intro P
  obtain ⟨b, P', hr, hb⟩ := h P
  obtain ⟨c, P'', hf, hc⟩ := k b hb P'
  exact ⟨c, P'', by rw [grow_bind, hr]; exact hf, hc⟩

theorem Completes.forM {l : List β} {f : β → Recipe α κ Unit}
    (h : ∀ b ∈ l, Completes ctx expand self (fun _ => True) (f b)) :
    Completes ctx expand self (fun _ => True) (l.forM f) := by
  induction l with
  | nil => exact .pure trivial
  | cons b l ih =>
    show Completes ctx expand self _ (f b >>= fun _ => l.forM f)
    exact (h b List.mem_cons_self).bind fun _ _ => ih fun c hc => h c (List.mem_cons_of_mem b hc)

theorem Completes.ofExcept {Q : β → Prop} {x : Except (Fault α) β} {b : β} (hx : x = .ok b) (h : Q b) :
    Completes ctx expand self Q (Recipe.ofExcept x) := by
  subst hx
  exact .pure h

theorem Completes.relief {Q : β → Prop} {next : Option (HeightMap α) → Recipe α κ β}
    (h : Completes ctx expand self Q (next ctx.relief)) : Completes ctx expand self Q (.relief next) := h

theorem Completes.fraction {Q : β → Prop} {next : Nat → Recipe α κ β}
    (h : ∀ k, Completes ctx expand self Q (next k)) : Completes ctx expand self Q (.fraction next) :=
  fun P => h _ { P with draws := P.draws + 1 }

/-- a draw from a range that is not empty and not too wide -/
theorem Completes.integer {Q : β → Prop} {low high : Int} {next : Int → Recipe α κ β} (hlt : low < high)
    (hfits : Rounding.toBits 53 (high - low).toNat < Nat.pow 2 1024)
    (h : ∀ x, low ≤ x → x < low + Rounding.toBits 53 (high - low).toNat → Completes ctx expand self Q (next x)) :
    Completes ctx expand self Q (.integer low high next) := by
  intro P
  have hk := RandomSource.fraction_lt (RandomSource.word ctx.key P.draws)
  have hw : 0 < (high - low).toNat := by omega
  obtain ⟨hge, hup⟩ := @RandomSource.landing_mem low _ _ hw hk
  obtain ⟨b, P', hr, hb⟩ := h _ hge hup { P with draws := P.draws + 1 }
  refine ⟨b, P', ?_, hb⟩
  simp only [grow, drawInt, if_neg (not_le.2 hlt), RandomSource.scaled, if_neg (not_le.2 hfits)]
  exact hr

/-- a symbol of a kind whose rule does not fail -/
theorem Completes.symbol {Q : β → Prop} {kind : κ} {name : String} {pose : Pose α} {next : Recipe α κ β}
    (he : ∀ j P, (P.shapes[j]?).map (·.kind) = some kind → ∃ P', expand (some j) P = .ok () P')
    (h : Completes ctx expand self Q next) : Completes ctx expand self Q (.symbol (.of kind) name pose next) := by
  intro P
  have hmake : ∃ P', makeSymbol ctx expand self (.of kind) name pose P = .ok () P' := by
    simp only [makeSymbol]
    by_cases hea : ctx.eager = true
    · simp only [if_pos hea]
      refine he P.shapes.length _ ?_
      cases self with
      | none => simp [Subtree.markExpanded, Subtree.track, Subtree.addSymbol]
      | some j =>
        simp only [Subtree.markExpanded, Subtree.track, Subtree.addSymbol, List.getElem?_modify,
          List.getElem?_append_right le_rfl, Nat.sub_self, List.getElem?_cons_zero]
        split_ifs <;> rfl
    · simp only [if_neg hea]
      exact ⟨_, rfl⟩
  obtain ⟨P', hm⟩ := hmake
  obtain ⟨b, P'', hr, hb⟩ := h P'
  exact ⟨b, P'', by simp only [grow, hm]; exact hr, hb⟩

/-- a terminal that the library holds -/
theorem Completes.terminal {Q : β → Prop} {id : String} {pose : Pose α} {next : Recipe α κ β}
    (hfind : (ctx.templates.find? id).isSome = true) (h : Completes ctx expand self Q next) :
    Completes ctx expand self Q (.terminal (.byId id) pose next) := by
  intro P
  obtain ⟨t, ht⟩ := Option.isSome_iff_exists.1 hfind
  obtain ⟨b, P', hr, hb⟩ := h ((P.plant t (P.home self) pose).track self P.nodes.length)
  refine ⟨b, P', ?_, hb⟩
  simp only [grow, makeTerminal, GrowthContext.resolve, ht]
  exact hr

end

end Recipe

end SceneGrammar

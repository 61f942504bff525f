/-
Draws keep below the upper end of their range, however wide it is.

A draw of `[low, high)` takes the width rounded to 53 binary digits, multiplies it by a fraction below one, rounds again
and drops what is behind the point. Rounding is to the nearest number with that few digits, and of two to the even one
(`Rounding.toBits_rounds`). The rounded width can exceed the width, and the rounded product of a width and a fraction just
below one can come up to the width. Both at once would leave the range, and they never meet
(`Rounding.toBits_toBits_mul_lt`): a width that was rounded up is not a power of two, and then the product falls short of
it by more than the rounding added.
-/
import SceneGrammar.Proofs.Growth.Completion
import Mathlib.Data.Nat.Dist

namespace SceneGrammar

namespace Rounding

theorem lt_two_pow_width (n : Nat) : n < 2 ^ width n := by
  unfold width
  split_ifs with hn
  · rw [hn]
    exact Nat.one_pos
  · exact Nat.lt_log2_self

theorem width_le {n e : Nat} (h : n < 2 ^ e) : width n ≤ e := by
  unfold width
  split_ifs with hn
  · exact Nat.zero_le e
  · exact (Nat.log2_lt hn).2 h

/-- what is nearer to `t` than to `t + 1` is not rounded beyond `t` -/
theorem nearest_le_of_lt {num den t : Nat} (h : 2 * num < (2 * t + 1) * den) : nearest num den ≤ t := by
  have hround := nearest_le num den
  by_contra hc
  have hmul : (t + 1) * den ≤ nearest num den * den := Nat.mul_le_mul_right den (Nat.succ_le_of_lt (not_le.1 hc))
  have hsplit : (2 * t + 1) * den = 2 * (t * den) + den := by ring
  have hnext : (t + 1) * den = t * den + den := by ring
  omega

/-- rounding does not lead beyond the next power of two -/
theorem toBits_le_two_pow_width (p n : Nat) : toBits p n ≤ 2 ^ width n := by
  have hlt := lt_two_pow_width n
  rcases Nat.lt_or_ge p (width n) with h | h
  · have hsplit : 2 ^ width n = 2 ^ p * 2 ^ (width n - p) := by
      rw [← Nat.pow_add, Nat.add_sub_cancel' h.le]
    have hle : nearest n (2 ^ (width n - p)) ≤ 2 ^ p := by
      apply nearest_le_of_lt
      have hpos := Nat.two_pow_pos (width n - p)
      have : (2 * 2 ^ p + 1) * 2 ^ (width n - p) = 2 * (2 ^ p * 2 ^ (width n - p)) + 2 ^ (width n - p) := by ring
      omega
    rw [hsplit]
    exact Nat.mul_le_mul_right _ hle
  · simpa [toBits, Nat.sub_eq_zero_of_le h] using hlt.le

/-- a number with digits to spare is rounded to a multiple of a power of two, by half of it at most -/
theorem toBits_eq_mul {p n : Nat} (h : p < width n) (hp : 0 < p) : ∃ m e, toBits p n = m * 2 ^ (e + 1) ∧
    2 ^ (p - 1) ≤ m ∧ m ≤ 2 ^ p ∧ 2 ^ (e + p) ≤ n ∧ m * 2 ^ (e + 1) ≤ n + 2 ^ e := by
  obtain ⟨e, he⟩ : ∃ e, width n - p = e + 1 := ⟨width n - p - 1, by omega⟩
  have hlow : 2 ^ (e + p) ≤ n := by
    have := pow_le_of_lt_width hp h
    rwa [he, show e + 1 + (p - 1) = e + p by omega] at this
  refine ⟨nearest n (2 ^ (e + 1)), e, by rw [toBits, he]; rfl, ?_, ?_, hlow, ?_⟩
  · refine le_nearest_of_mul_le (Nat.two_pow_pos _) (le_trans (le_of_eq ?_) hlow)
    rw [← Nat.pow_add]
    congr 1
    omega
  · have hle := toBits_le_two_pow_width p n
    have hsplit : 2 ^ width n = 2 ^ p * 2 ^ (e + 1) := by
      rw [← he, ← Nat.pow_add, Nat.add_sub_cancel' h.le]
    rw [toBits, he, hsplit] at hle
    exact Nat.le_of_mul_le_mul_right hle (Nat.two_pow_pos _)
  · have hround := nearest_le n (2 ^ (e + 1))
    have hdouble : 2 ^ (e + 1) = 2 * 2 ^ e := by rw [Nat.pow_succ, Nat.mul_comm]
    omega

/-! ## The rule of rounding -/

/-- a number with at most `p` significant binary digits -/
def Short (p m : Nat) : Prop := ∃ a s, a < 2 ^ p ∧ m = a * 2 ^ s

/-- `m` is `n` rounded to `p` binary digits: no other number with that few digits is nearer to `n`, and if one is as near,
then the last digit of `m` is zero -/
structure Rounds (p n m : Nat) : Prop where
  short : Short p m
  nearest : ∀ c, Short p c → Nat.dist n m ≤ Nat.dist n c
  even : ∀ c, Short p c → c ≠ m → Nat.dist n c = Nat.dist n m → Short (p - 1) m

theorem short_two_pow {p : Nat} (hp : 0 < p) (s : Nat) : Short p (2 ^ s) :=
  ⟨1, s, Nat.one_lt_two_pow hp.ne', (Nat.one_mul _).symm⟩

/-- a multiple of `2 ^ s` by a number of at most `p` digits, or by the one after those, has at most `p` digits -/
theorem short_mul {p a : Nat} (hp : 0 < p) (ha : a ≤ 2 ^ p) (s : Nat) : Short p (a * 2 ^ s) := by
  rcases ha.lt_or_eq with hlt | rfl
  · exact ⟨a, s, hlt, rfl⟩
  · rw [← Nat.pow_add]
    exact short_two_pow hp (p + s)

section

variable {p q s r c : Nat}

/-- no number of few digits lies between neighbouring multiples of the last digit -/
theorem Short.le_or_le (hc : Short p c) (hp : 0 < p) (hlow : 2 ^ (p - 1) ≤ q) : c ≤ q * 2 ^ s ∨ (q + 1) * 2 ^ s ≤ c := by
  obtain ⟨a, t, ha, rfl⟩ := hc
  rcases Nat.lt_or_ge t s with hlt | hge
  · left
    calc a * 2 ^ t ≤ 2 ^ p * 2 ^ t := Nat.mul_le_mul_right _ ha.le
      _ = 2 ^ (p - 1) * 2 ^ (t + 1) := by rw [← Nat.pow_add, ← Nat.pow_add]; congr 1; omega
      _ ≤ q * 2 ^ s := Nat.mul_le_mul hlow (Nat.pow_le_pow_right Nat.two_pos hlt)
  · have hsplit : a * 2 ^ t = a * 2 ^ (t - s) * 2 ^ s := by rw [Nat.mul_assoc, ← Nat.pow_add, Nat.sub_add_cancel hge]
    rw [hsplit]
    rcases Nat.lt_or_ge q (a * 2 ^ (t - s)) with hq | hq
    · exact .inr (Nat.mul_le_mul_right _ hq)
    · exact .inl (Nat.mul_le_mul_right _ hq)

theorem rounds_down (hp : 0 < p) (hlow : 2 ^ (p - 1) ≤ q) (hhigh : q < 2 ^ p)
    (h : 2 * r < 2 ^ s ∨ 2 * r = 2 ^ s ∧ q % 2 = 0) : Rounds p (q * 2 ^ s + r) (q * 2 ^ s) where
  short := ⟨q, s, hhigh, rfl⟩
  nearest c hc := by
    have hsides := hc.le_or_le (s := s) hp hlow
    rw [Nat.add_one_mul] at hsides
    unfold Nat.dist
    omega
  even c hc hne hdist := by
    have hsides := hc.le_or_le (s := s) hp hlow
    rw [Nat.add_one_mul] at hsides
    unfold Nat.dist at hdist
    -- another number as near is the multiple above, at the same distance
    have heven : q % 2 = 0 := by omega
    obtain ⟨l, rfl⟩ : ∃ l, q = 2 * l := ⟨q / 2, by omega⟩
    refine ⟨l, s + 1, ?_, by ring⟩
    have hhalf : 2 ^ p = 2 * 2 ^ (p - 1) := by rw [← Nat.pow_succ', Nat.succ_eq_add_one, Nat.sub_one_add_one hp.ne']
    omega

theorem rounds_up (hp : 1 < p) (hlow : 2 ^ (p - 1) ≤ q) (hhigh : q < 2 ^ p) (hr : r < 2 ^ s)
    (h : 2 ^ s < 2 * r ∨ 2 * r = 2 ^ s ∧ q % 2 = 1) : Rounds p (q * 2 ^ s + r) ((q + 1) * 2 ^ s) where
  short := short_mul (Nat.zero_lt_of_lt hp) hhigh s
  nearest c hc := by
    have hsides := hc.le_or_le (s := s) (Nat.zero_lt_of_lt hp) hlow
    rw [Nat.add_one_mul] at hsides ⊢
    unfold Nat.dist
    omega
  even c hc hne hdist := by
    have hsides := hc.le_or_le (s := s) (Nat.zero_lt_of_lt hp) hlow
    rw [Nat.add_one_mul] at hsides hdist hne
    unfold Nat.dist at hdist
    have hodd : q % 2 = 1 := by omega
    obtain ⟨l, rfl⟩ : ∃ l, q = 2 * l + 1 := ⟨q / 2, by omega⟩
    have hhalf : 2 ^ p = 2 * 2 ^ (p - 1) := by
      rw [← Nat.pow_succ', Nat.succ_eq_add_one, Nat.sub_one_add_one (Nat.zero_lt_of_lt hp).ne']
    have hdouble : (2 * l + 1 + 1) * 2 ^ s = (l + 1) * 2 ^ (s + 1) := by ring
    rw [hdouble]
    exact short_mul (by omega) (by omega) (s + 1)

end

/-- **Rounding.** `toBits` rounds to the nearest number with that few digits, a tie going to the even one. -/
theorem toBits_rounds {p : Nat} (hp : 1 < p) (n : Nat) : Rounds p n (toBits p n) := by
  have hp0 : 0 < p := Nat.zero_lt_of_lt hp
  rcases Nat.lt_or_ge p (width n) with hw | hw
  · obtain ⟨s, hs⟩ : ∃ s, width n - p = s := ⟨_, rfl⟩
    have hlow : 2 ^ (p - 1) ≤ n / 2 ^ s := by
      rw [Nat.le_div_iff_mul_le (Nat.two_pow_pos s), ← Nat.pow_add, Nat.add_comm, ← hs]
      exact pow_le_of_lt_width hp0 hw
    have hhigh : n / 2 ^ s < 2 ^ p := by
      rw [Nat.div_lt_iff_lt_mul (Nat.two_pow_pos s), ← Nat.pow_add, ← hs, Nat.add_sub_cancel' hw.le]
      exact lt_two_pow_width n
    have hrest := Nat.mod_lt n (Nat.two_pow_pos s)
    have hsplit : n / 2 ^ s * 2 ^ s + n % 2 ^ s = n := Nat.div_add_mod' n _
    have hround : toBits p n = nearest n (2 ^ s) * 2 ^ s := by rw [← hs]; rfl
    rw [hround]
    conv => arg 2; rw [← hsplit]
    unfold nearest
    simp only
    split_ifs with hless hmore heven
    · exact rounds_down hp0 hlow hhigh (.inl hless)
    · exact rounds_up hp hlow hhigh hrest (.inl hmore)
    · exact rounds_down hp0 hlow hhigh (.inr ⟨by omega, heven⟩)
    · exact rounds_up hp hlow hhigh hrest (.inr ⟨by omega, by omega⟩)
  · have hsame : toBits p n = n := by simp [toBits, Nat.sub_eq_zero_of_le hw]
    have hlt : n < 2 ^ p := (lt_two_pow_width n).trans_le (Nat.pow_le_pow_right Nat.two_pos hw)
    rw [hsame]
    refine ⟨⟨n, 0, hlt, by simp⟩, fun c _ => by simp, fun c _ hne hdist => ?_⟩
    exact absurd (Nat.eq_of_dist_eq_zero (hdist.trans (Nat.dist_self n))).symm hne

/-! ## Two roundings -/

section

variable {p m e k : Nat}

/-- the product of a rounded width and a fraction is nearer to the multiple below the width than to the width -/
theorem mul_lt_between (hp : 0 < p) (hk : k < 2 ^ p) (hm : 2 ^ (p - 1) < m) :
    2 * (m * 2 ^ (e + 1) * k) < (2 * (m - 1) + 1) * 2 ^ (e + 1 + p) := by
  have hhalf : 2 ^ p = 2 * 2 ^ (p - 1) := by rw [← Nat.pow_succ', Nat.succ_eq_add_one, Nat.sub_one_add_one hp.ne']
  obtain ⟨l, rfl⟩ : ∃ l, m = l + 1 := ⟨m - 1, by omega⟩
  have hk' : (l + 1) * k + (l + 1) ≤ (l + 1) * 2 ^ p := by
    rw [← Nat.mul_succ]
    exact Nat.mul_le_mul_left _ hk
  have hmul : 2 * ((l + 1) * k) < (2 * l + 1) * 2 ^ p := by
    have h1 : (l + 1) * 2 ^ p = l * 2 ^ p + 2 ^ p := by ring
    have h2 : (2 * l + 1) * 2 ^ p = 2 * (l * 2 ^ p) + 2 ^ p := by ring
    omega
  calc 2 * ((l + 1) * 2 ^ (e + 1) * k) = 2 ^ (e + 1) * (2 * ((l + 1) * k)) := by ring
    _ < 2 ^ (e + 1) * ((2 * l + 1) * 2 ^ p) := Nat.mul_lt_mul_of_pos_left hmul (Nat.two_pow_pos _)
    _ = (2 * (l + 1 - 1) + 1) * 2 ^ (e + 1 + p) := by rw [Nat.pow_add, Nat.add_sub_cancel]; ring

/-- how many digits the product has, unless it is small -/
theorem width_mul (hk : k < 2 ^ p) (hm : 0 < m) (hhigh : m ≤ 2 ^ p) (hbig : 2 ^ (e + p + p) ≤ m * 2 ^ (e + 1) * k) :
    width (m * 2 ^ (e + 1) * k) = e + 1 + p + p := by
  apply le_antisymm
  · apply width_le
    have hmk : m * k < 2 ^ p * 2 ^ p := by
      calc m * k < m * 2 ^ p := Nat.mul_lt_mul_of_pos_left hk hm
        _ ≤ 2 ^ p * 2 ^ p := Nat.mul_le_mul_right _ hhigh
    calc m * 2 ^ (e + 1) * k = 2 ^ (e + 1) * (m * k) := by ring
      _ < 2 ^ (e + 1) * (2 ^ p * 2 ^ p) := Nat.mul_lt_mul_of_pos_left hmk (Nat.two_pow_pos _)
      _ = 2 ^ (e + 1 + p + p) := by ring
  · have := (Nat.pow_lt_pow_iff_right (by decide : 1 < 2)).1 (hbig.trans_lt (lt_two_pow_width _))
    omega

/-- so the product is rounded to that multiple at most -/
theorem toBits_mul_le (hp : 0 < p) (hk : k < 2 ^ p) (hm : 2 ^ (p - 1) < m) (hhigh : m ≤ 2 ^ p) :
    toBits p (m * 2 ^ (e + 1) * k) ≤ (m - 1) * 2 ^ (e + 1 + p) := by
  rcases Nat.lt_or_ge (m * 2 ^ (e + 1) * k) (2 ^ (e + p + p)) with hsmall | hbig
  · -- a product with fewer digits is rounded at most to the power of two beyond it
    refine (toBits_le_two_pow_width p _).trans ((Nat.pow_le_pow_right Nat.two_pos (width_le hsmall)).trans ?_)
    rw [show e + p + p = (p - 1) + (e + 1 + p) by omega, Nat.pow_add]
    exact Nat.mul_le_mul_right _ (by omega)
  · have hshift : e + 1 + p + p - p = e + 1 + p := by omega
    show nearest _ (2 ^ (width _ - p)) * 2 ^ (width _ - p) ≤ _
    rw [width_mul hk (Nat.zero_lt_of_lt hm) hhigh hbig, hshift]
    exact Nat.mul_le_mul_right _ (nearest_le_of_lt (mul_lt_between hp hk hm))

end

/-- **Two roundings.** The rounded product of a rounded width and a fraction falls short of the width. -/
theorem toBits_toBits_mul_lt {p n k : Nat} (hp : 0 < p) (hn : 0 < n) (hk : k < 2 ^ p) :
    toBits p (toBits p n * k) < n * 2 ^ p := by
  rcases Nat.lt_or_ge p (width n) with hw | hw
  swap
  · have hsame : toBits p n = n := by simp [toBits, Nat.sub_eq_zero_of_le hw]
    rw [hsame]
    exact toBits_mul_lt hp hn hk
  obtain ⟨m, e, hm, hlow, hhigh, hpow, hround⟩ := toBits_eq_mul hw hp
  rw [hm]
  rcases hlow.eq_or_lt with heq | hlt
  · -- the rounded width is a power of two, so it does not exceed the width
    have hle : m * 2 ^ (e + 1) ≤ n := by
      rw [← heq, ← Nat.pow_add, show p - 1 + (e + 1) = e + p by omega]
      exact hpow
    have hpos : 0 < m * 2 ^ (e + 1) := Nat.mul_pos (heq ▸ Nat.two_pow_pos _) (Nat.two_pow_pos _)
    exact (toBits_mul_lt hp hpos hk).trans_le (Nat.mul_le_mul_right _ hle)
  · -- the multiple below the rounded width falls short of the width
    have hbelow : (m - 1) * 2 ^ (e + 1) < n := by
      have hsub : (m - 1) * 2 ^ (e + 1) + 2 ^ (e + 1) = m * 2 ^ (e + 1) := by
        rw [← Nat.succ_mul, Nat.succ_eq_add_one, Nat.sub_one_add_one (Nat.zero_lt_of_lt hlt).ne']
      have hdouble : 2 ^ (e + 1) = 2 * 2 ^ e := by rw [Nat.pow_succ, Nat.mul_comm]
      have hpos := Nat.two_pow_pos e
      omega
    calc toBits p (m * 2 ^ (e + 1) * k)
      _ ≤ (m - 1) * 2 ^ (e + 1 + p) := toBits_mul_le hp hk hlt hhigh
      _ = (m - 1) * 2 ^ (e + 1) * 2 ^ p := by rw [Nat.pow_add, ← Nat.mul_assoc]
      _ < n * 2 ^ p := Nat.mul_lt_mul_of_pos_right hbelow (Nat.two_pow_pos p)

end Rounding

namespace RandomSource

/-- **The range of draws.** A draw stays below the upper end of its range, however wide it is. -/
theorem landing_lt {low : Int} {width k : Nat} (hw : 0 < width) (hk : k < 2 ^ 53) :
    low ≤ landing low width k ∧ landing low width k < low + width := by
  refine ⟨(landing_mem hw hk).1, ?_⟩
  have hlt := Rounding.toBits_toBits_mul_lt (by decide : 0 < 53) hw hk
  have hdiv : Rounding.toBits 53 (Rounding.toBits 53 width * k) / Nat.pow 2 53 < width :=
    Nat.div_lt_of_lt_mul (hlt.trans_eq (Nat.mul_comm _ _))
  exact Int.add_lt_add_left (Int.ofNat_lt.2 hdiv) low

theorem next_lt (r : RandomSource) (e : Entropy) : (r.next e).1 < 2 ^ 53 := by
  unfold next
  cases r.key <;> exact fraction_lt _

section

variable {low high : Int}

theorem landing_between (hlt : low < high) {k : Nat} (hk : k < 2 ^ 53) :
    low ≤ landing low (high - low).toNat k ∧ landing low (high - low).toNat k < high := by
  obtain ⟨hlow, hhigh⟩ := @landing_lt low (high - low).toNat k (by omega) hk
  exact ⟨hlow, by omega⟩

theorem scaled_eq (hfits : Rounding.toBits 53 (high - low).toNat < Nat.pow 2 1024) (k : Nat) :
    scaled low high k = .ok (landing low (high - low).toNat k) := by
  simp only [scaled, if_neg (not_le.2 hfits)]

/-- a draw from a range that is neither empty nor too wide -/
theorem nextInt_eq (hlt : low < high) (hfits : Rounding.toBits 53 (high - low).toNat < Nat.pow 2 1024) (r : RandomSource)
    (e : Entropy) : r.nextInt low high e = (.ok (landing low (high - low).toNat (r.next e).1), (r.next e).2) := by
  simp only [nextInt, if_neg (not_le.2 hlt), scaled_eq hfits]

end

end RandomSource

end SceneGrammar

/-
Which pauses a system takes.

Over the rationals the rule of the system is a bound: a pause is taken just if it does not go back and ends before the
clock can count no further (`PauseRule.system_eq_none_iff`). A configured tick rate has no bound, so a thread may fail of it
after a tick that was as good as any. One whose speed has been set fails of its ticks only (`Manager.falls_setTickRate_iff`).

`Engine.run_paced` is about a loop that ticks by itself. If it comes to an end it has slept only pauses that are taken, and
the world counts no delays any more after it, also if a tick has failed or a pause was refused.
-/
import SceneGrammar.Proofs.Engine.Thread
import SceneGrammar.Proofs.Engine.Ticks
import SceneGrammar.Proofs.Rational

namespace SceneGrammar

/-! ## The rule of the system -/

namespace PauseRule

theorem nanoseconds_rat (seconds : ℚ) : nanoseconds seconds = seconds * 10 ^ 9 := by
  show seconds * ((1000000000 : Int) : ℚ) = seconds * 10 ^ 9
  norm_num

theorem bound_rat : (Scalar.ofInt bound : ℚ) = 2 ^ 63 ∧ (Scalar.ofInt (-bound) : ℚ) = -2 ^ 63 := by
  show ((bound : Int) : ℚ) = 2 ^ 63 ∧ ((-bound : Int) : ℚ) = -2 ^ 63
  norm_num [bound]

/-- **Pauses.** What does not go back and is over in time is taken, and nothing else is. -/
theorem system_eq_none_iff {clock : ℚ} (hclock : 0 ≤ clock) (seconds : ℚ) :
    system clock seconds = none ↔ 0 ≤ seconds ∧ (clock + seconds) * 10 ^ 9 < 2 ^ 63 := by
  simp only [system, nanoseconds_rat, bound_rat, Scalar.zero_rat, ← add_mul, beq_self_eq_true, Bool.not_true,
    Bool.false_eq_true, if_false]
  by_cases hback : seconds < 0
  · split_ifs <;> simp [not_le.2 hback]
  · have hseconds : 0 ≤ seconds := not_lt.1 hback
    have hlow : ¬ seconds * 10 ^ 9 < -2 ^ 63 := by
      rw [not_lt]
      exact le_trans (by norm_num) (mul_nonneg hseconds (by norm_num))
    -- what ends in time can be counted
    have hcount (hend : (clock + seconds) * 10 ^ 9 < 2 ^ 63) : seconds * 10 ^ 9 < 2 ^ 63 := by linarith
    by_cases hend : (clock + seconds) * 10 ^ 9 < 2 ^ 63
    · simp [hback, hseconds, hlow, hcount hend, hend]
    · split_ifs <;> simp [hend]

end PauseRule

/-! ## A thread whose speed has been set -/

theorem Manager.tickRate_setTickRate (m : Manager ℚ) (seconds : ℚ) :
    0 < (m.setTickRate seconds).tickRate ∧ (m.setTickRate seconds).tickRate ≤ 2 := by
  have hrate : (m.setTickRate seconds).tickRate = max 0.01 (min seconds 2) := by
    simp only [setTickRate, Scalar.greatest_rat, Scalar.least_rat]
    rfl
  rw [hrate]
  exact ⟨lt_max_of_lt_left (by norm_num), max_le (by norm_num) (min_le_right _ _)⟩

/-- **Set speeds.** Until the clock shows nine thousand million seconds, which is after 285 years, no pause is refused to a
thread whose speed has been set. -/
theorem Manager.falls_setTickRate_iff {g : Grammar ℚ (City.Kind ℚ) Unit} {p : Pacing ℚ} {clock : ℚ} (hclock : 0 ≤ clock)
    (hend : clock ≤ 9000000000) (hrule : p.rule = .system clock) (helapsed : 0 ≤ p.elapsed) (m : Manager ℚ) (seconds : ℚ) :
    let n := m.setTickRate seconds
    Falls g p n ↔ ∃ e v, tickAndPublish g (some n.tickRate) n = .error e v := by
  intro n
  have hrate : n.tickRate ≤ 2 := (m.tickRate_setTickRate seconds).2
  have htaken : p.refusal n.tickRate = none := by
    rw [Pacing.refusal, hrule, PauseRule.system_eq_none_iff hclock, Scalar.greatest_rat, Scalar.zero_rat]
    have hrest : max (n.tickRate - p.elapsed) 0 ≤ 2 := max_le (by linarith) (by norm_num)
    exact ⟨le_max_right _ _, by linarith⟩
  simp [Falls, htaken]

/-! ## A loop that ticks by itself -/

namespace Engine

variable {α κ σ : Type} [Scalar α] [SymbolKind κ] {g : Grammar α κ σ}

/-- a loop that has slept was allowed to -/
theorem tickOut_pauses {refused : Option PauseError} {ticks pauses : Nat} {w v : World α κ σ}
    (h : (tickOut refused ticks).run g w = .ok pauses v) : pauses = 0 ∨ refused = none := by
  cases refused with
  | none => exact Or.inr rfl
  | some e =>
    cases ticks with
    | zero => cases h
    | succ ticks =>
      unfold tickOut at h
      rw [Prog.run_bind] at h
      rcases hrun : (tick none).run g w with ⟨_ | _, u⟩ | ⟨f, u⟩ <;> rw [hrun] at h
      · cases h
        exact Or.inl rfl
      · cases h
      · cases h

/-- however the ticks end, delays count no longer -/
theorem run_eq (rule : PauseRule α) (realtime : Bool) (spare : Nat) {w w₁ : World α κ σ} {l : Loop α}
    (hstart : start.run g w = .ok () w₁) (hloop : w₁.desk.loop = some l) :
    ∃ ticks,
      (∀ pauses v, (tickOut (if realtime then rule l.config.tickRate else none) ticks).run g w₁ = .ok pauses v →
        (run rule realtime spare).run g w =
          .ok (if realtime then List.replicate pauses l.config.tickRate else []) { v with live := false }) ∧
      ∀ e v, (tickOut (if realtime then rule l.config.tickRate else none) ticks).run g w₁ = .error e v →
        (run rule realtime spare).run g w = .error e { v with live := false } := by
  unfold run
  rw [Prog.run_bind_ok hstart, Prog.run_bind_ok (run_loop hloop), Prog.run_bind, Prog.run_attempt]
  -- the stop comes after the ticks, whether they have failed or not
  apply Exists.intro
  constructor
  · intro pauses v h
    rw [h]
    rfl
  · intro e v h
    rw [h]
    rfl

/-- **A run.** It stops however it ends, and sleeps only as long as it may. -/
theorem run_paced (rule : PauseRule α) (realtime : Bool) (spare : Nat) {w w₁ : World α κ σ} {l : Loop α}
    (hstart : start.run g w = .ok () w₁) (hloop : w₁.desk.loop = some l) :
    (∀ slept v, (run rule realtime spare).run g w = .ok slept v → v.live = false ∧ ∀ x ∈ slept, rule x = none) ∧
      ∀ e v, (run rule realtime spare).run g w = .error e v → v.live = false := by
  obtain ⟨ticks, hok, herror⟩ := run_eq rule realtime spare hstart hloop
  rcases hticks : (tickOut (if realtime then rule l.config.tickRate else none) ticks).run g w₁ with ⟨pauses, u⟩ | ⟨f, u⟩
  · rw [hok pauses u hticks]
    constructor
    · intro slept v h
      cases h
      refine ⟨rfl, ?_⟩
      intro x hx
      cases realtime with
      | false => cases hx
      | true =>
        obtain ⟨hpauses, rfl⟩ := List.mem_replicate.1 hx
        exact (tickOut_pauses hticks).resolve_left hpauses
    · intro e v h
      cases h
  · rw [herror f u hticks]
    constructor
    · intro slept v h
      cases h
    · intro e v h
      cases h
      rfl

end Engine

end SceneGrammar

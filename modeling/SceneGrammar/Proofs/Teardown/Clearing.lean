/-
What is left when a scene is cleared.

The roots are destroyed in turn. A destruction goes on whoever objects, and reports the first objection at its end; the
turn of the roots does not go on after a report. So a root that comes later stays, with all that only it leads to, and so
do its registrations (`clear_thwarted`).

- `Reached.clear_stops`: if nobody objects, nothing is left. Else the clearing stops at the first root whose destruction
  reports an objection: what is reached from the roots up to this one is gone, and the rest is as it was. Appointments are
  forgotten in any case.
-/
import SceneGrammar.Proofs.Rooted

namespace SceneGrammar

namespace World

variable {α κ σ : Type} {w v u : World α κ σ} {e : Fault α}

/-- the roots up to `r` are gone, with all that they led to and the registrations of its shapes, and nothing else is;
somebody has objected -/
structure StopsAt (w v : World α κ σ) (pre : List NodeId) (r : NodeId) (e : Fault α) : Prop where
  root : ∃ post, w.roots = pre ++ r :: post
  objected : ∃ l ∈ w.listeners, ∃ x, l x = some e
  alive : ∀ m, v.isAlive m = true ↔ w.isAlive m = true ∧ ∀ k ∈ pre ++ [r], ¬ Reach w k m
  bound : ∀ p, p ∈ v.bound ↔ p ∈ w.bound ∧ ¬ ((∃ k ∈ pre ++ [r], Reach w k p.1) ∧ (w.shapeOn? p.1).isSome = true)

/-- an objection on record is that of a listener -/
theorem TornFrom.objection {roots : List NodeId} {ms : List (Moment α κ σ)} {c : List ShapeId}
    (h : TornFrom w v roots ms c) (ho : Objected ms e) : ∃ l ∈ w.listeners, ∃ x, l x = some e := by
  obtain ⟨m, hm, call, hcall, hanswer⟩ := ho
  obtain ⟨pre, post, heq⟩ := List.append_of_mem hm
  have hlisteners := (h.heard.found pre m post heq).listeners
  rcases List.mem_cons.1 hcall with rfl | hcall
  · simp [Call.answer] at hanswer
  · obtain ⟨i, -, rfl⟩ := List.mem_map.1 hcall
    obtain ⟨x, -, hx⟩ := Option.bind_eq_some_iff.1 hanswer
    obtain ⟨l, hl, hlx⟩ := Option.bind_eq_some_iff.1 hx
    refine ⟨l, ?_, x, hlx⟩
    rw [← hlisteners]
    rw [announce_eq] at hl
    exact List.mem_of_getElem? hl

theorem TornFrom.alive_iff {roots : List NodeId} {ms : List (Moment α κ σ)} {c : List ShapeId}
    (h : TornFrom w v roots ms c)
    (m : NodeId) : v.isAlive m = true ↔ w.isAlive m = true ∧ ∀ k ∈ roots, ¬ Reach w k m := by
  rw [h.torn.isAlive, h.mem_iff]
  simp

/-- a scene is cleared, or the work stops at a root -/
theorem LivingForest.clearScene_cases (h : LivingForest w) : (∃ d, (clearScene.after w).agenda = w.cancelAll d w.agenda) ∧
    ((∃ v, clearScene w = .ok () v ∧ v.registry = [] ∧ ∀ m, ¬ v.isAlive m = true) ∨
      ∃ pre r u e v, clearScene w = .error e v ∧ destroyAll pre w = .ok () u ∧ destroy r u = .error e v ∧
        StopsAt w v pre r e) := by
  rcases h.destroyedAll w.roots with ⟨ms, c, hr, hz⟩ | ⟨pre, r, post, u, e, ms, c, hroots, hpre, hlast, hr, ho, hz⟩
  · have hnone (m : NodeId) : ¬ ((destroyAll w.roots).after w).isAlive m = true := by
      intro hl
      obtain ⟨hlw, hfree⟩ := (hz.alive_iff m).1 hl
      obtain ⟨k, hk, hkm⟩ := h.toLinked.reach_root h.registered m hlw
      exact hfree k hk hkm
    refine ⟨⟨_, hz.torn.agenda⟩, .inl ⟨_, hr, List.eq_nil_iff_forall_not_mem.2 fun m hm => hnone m ?_, hnone⟩⟩
    exact ((h.tornFrom hz).registered m).1 hm
  · refine ⟨⟨_, hz.torn.agenda⟩, .inr ⟨pre, r, u, e, _, hr, hpre, hlast, ⟨post, hroots⟩, hz.objection ho, hz.alive_iff,
      fun p => ?_⟩⟩
    rw [hz.torn.bound, List.mem_filter, decide_eq_true_eq, hz.mem_iff]

/-! ## Appointments apart -/

theorem Reach.rebook {n m : NodeId} (h : Reach w n m) (a : Agenda α) : Reach (w.rebook a) n m := by
  induction h with
  | refl hl => exact .refl hl
  | step hl hs _ ih => exact .step hl hs ih

theorem reach_rebook (w : World α κ σ) (a : Agenda α) (n m : NodeId) : Reach (w.rebook a) n m ↔ Reach w n m :=
  ⟨fun h => h.rebook w.agenda, fun h => h.rebook a⟩

theorem StopsAt.of_rebook {a : Agenda α} {pre : List NodeId} {r : NodeId} (h : StopsAt (w.rebook a) v pre r e) :
    StopsAt w v pre r e where
  root := h.root
  objected := h.objected
  alive m := by
    rw [h.alive]
    simp only [reach_rebook]
    rfl
  bound p := by
    rw [h.bound]
    simp only [reach_rebook]
    rfl

theorem cancelAll_clear (w : World α κ σ) (d : List NodeId) (a : Agenda α) : w.cancelAll d a.clear = a.clear := by
  induction d with
  | nil => rfl
  | cons n d ih =>
    rw [cancelAll, List.foldl_cons]
    split_ifs <;> exact ih

end World

open World

variable {α κ σ : Type} [Scalar α] [SymbolKind κ]

/-- **Clearing.** In any world where nothing was hung anew, in the midst of rules or not, and whatever is on the lists of
shapes and in the agenda: the scene is cleared and nothing is left alive or registered, or a listener objects. Then the
clearing stops at the first root whose destruction reports it, with this objection: what is reached from the roots up to
it is gone, and all else stays. Appointments are forgotten, and the registrations of shapes are, too, unless it stops. -/
theorem World.Reached.clear_stops {w : World α κ σ} (h : Reached World.rooted w) :
    ((∃ v, clearScene w = .ok () v ∧ v.registry = [] ∧ ∀ m, ¬ v.isAlive m = true) ∨
      ∃ pre r u e v, clearScene w = .error e v ∧ destroyAll pre w = .ok () u ∧ destroy r u = .error e v ∧
        StopsAt w v pre r e) ∧
    (clear.after w).agenda.pending = [] ∧ (clear.after w).agenda.heap = #[] ∧
    ((∃ v, clear w = .ok () v ∧ v.registry = [] ∧ (∀ m, ¬ v.isAlive m = true) ∧ v.bound = []) ∨
      ∃ pre r u e v, clear w = .error e v ∧ destroyAll pre { w with agenda := w.agenda.clear } = .ok () u ∧
        destroy r u = .error e v ∧ StopsAt w v pre r e) := by
  have hg := h.livingForest
  have hbare : LivingForest (w.rebook w.agenda.clear) := hg.congr rfl rfl
  refine ⟨hg.clearScene_cases.2, ?_⟩
  obtain ⟨⟨d, hagenda⟩, hcases⟩ := hbare.clearScene_cases
  rw [show (w.rebook w.agenda.clear).agenda = w.agenda.clear from rfl, cancelAll_clear] at hagenda
  have hdef : clear w = sweep (w.rebook w.agenda.clear) := clear_eq w
  unfold sweep at hdef
  rcases hcases with ⟨v, hr, hreg, hnone⟩ | ⟨pre, r, u, e, v, hr, hpre, hlast, hstop⟩
  · rw [hr] at hdef
    rw [Act.after_ok hr] at hagenda
    rw [Act.after_ok hdef]
    exact ⟨congrArg Agenda.pending hagenda, congrArg Agenda.heap hagenda, .inl ⟨_, hdef, hreg, hnone, rfl⟩⟩
  · rw [hr] at hdef
    rw [Act.after_error hr] at hagenda
    rw [Act.after_error hdef]
    exact ⟨congrArg Agenda.pending hagenda, congrArg Agenda.heap hagenda,
      .inr ⟨pre, r, u, e, v, hdef, hpre, hlast, hstop.of_rebook⟩⟩

/-- a listener that objects to the end of the first root -/
def warden (x : Node Float) : Option (Fault Float) := if x.name = "home" then some .noChoice else none

/-- a lantern of the first root under the second, and a gardener that is waiting to expand -/
def lanternGuarded : Prog Float (City.Kind Float) Unit Unit :=
  lanternAbroad.bind fun _ => .perform (.listen [warden]) fun _ => .perform (.schedule 2 1) fun _ => .done ()

theorem reached_lanternGuarded :
    Reached World.rooted ((lanternGuarded.run idle).after (.fresh ⟨fun _ => 0, 0⟩ ())) := by
  have heeds : lanternGuarded.HeedsBy World.rooted idle (.fresh ⟨fun _ => 0, 0⟩ ()) :=
    Prog.heedsBy_perform (by decide +kernel) rfl <| Prog.heedsBy_perform (by decide +kernel) rfl <|
      Prog.heedsBy_perform (by decide +kernel) rfl <| Prog.heedsBy_perform (by decide +kernel) rfl <|
        Prog.heedsBy_perform (by decide +kernel) rfl <| Prog.heedsBy_perform (by decide +kernel) rfl rfl
  exact (Reached.start (pristine_fresh _ _)).run splits_rooted heeds

/-- the warden objects at the end of the first root, and the second one stays -/
theorem clear_stops_guarded :
    let w := (lanternGuarded.run idle).after (.fresh ⟨fun _ => 0, 0⟩ ())
    w.roots = [1, 2] ∧ w.agenda.pending = [(3, 0)] ∧ (clear.after w).agenda.pending = [] ∧
      ∃ pre r u e v, clear w = .error e v ∧ destroyAll pre { w with agenda := w.agenda.clear } = .ok () u ∧
        destroy r u = .error e v ∧ StopsAt w v pre r e ∧ v.isAlive 2 = true := by
  intro w
  obtain ⟨-, hpending, -, hcases⟩ := reached_lanternGuarded.clear_stops
  have hstays : (clear.after w).isAlive 2 = true := by decide +kernel
  refine ⟨by decide +kernel, by decide +kernel, hpending, ?_⟩
  rcases hcases with ⟨v, hr, -, hnone, -⟩ | ⟨pre, r, u, e, v, hr, hpre, hlast, hstop⟩
  · exact absurd (Act.after_ok hr ▸ hstays) (hnone 2)
  · exact ⟨pre, r, u, e, v, hr, hpre, hlast, hstop, Act.after_error hr ▸ hstays⟩

/-- one objection, and neither way of clearing clears all: the second root is left, and its shape in the registry -/
theorem clear_thwarted :
    let w := (lanternGuarded.run idle).after (.fresh ⟨fun _ => 0, 0⟩ ())
    Reached World.rooted w ∧ (clearScene.after w).liveNodes = [2] ∧ (clear.after w).liveNodes = [2] ∧
      (clear.after w).bound = [(2, 1)] :=
  ⟨reached_lanternGuarded, by decide +kernel, by decide +kernel, by decide +kernel⟩

end SceneGrammar

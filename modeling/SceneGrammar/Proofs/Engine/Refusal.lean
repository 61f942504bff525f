/-
Calls that are refused.

A delay or a step below zero is refused before anything else is looked at, so a call of `generate`, `schedule` or
`advance` that is refused for it leaves the world as it is, wherever in a run it stands (`perform_refused`).

A build does not look at the delay itself: the expansion refuses it, which the build asks for last. By then the source of
the trigger has started again, perhaps under another seed, or the log has been told of a seed that no source takes
(`Primed`). So a refused build changes nothing but the draws of one source (`refused_calls`), and leaves that as it is only
if it stands just where a build lets it start.

- `refused_calls`: what each of the four calls leaves behind when it is refused.
- `refused_build_rewinds`: a source that has drawn once loses its draw and its seed to a refused build.
-/
import SceneGrammar.Proofs.Engine.Ticks
import SceneGrammar.Proofs.Reachable

namespace SceneGrammar

variable {α κ σ β γ : Type}

/-! ## Sources that start again -/

namespace RandomSource

/-- a source that is told a seed, or to start again under its own -/
def rewound (r : RandomSource) (seed : Option Int) (e : Entropy) : RandomSource × Entropy :=
  match seed with
  | none => r.reset e
  | some x => r.reseed x e

theorem reset_seed_draws (r : RandomSource) (e : Entropy) : (r.reset e).1.seed = r.seed ∧ (r.reset e).1.draws = 0 := by
  unfold reset
  split_ifs
  · exact ⟨rfl, rfl⟩
  · exact ⟨rfl, rfl⟩

theorem rewound_seed (r : RandomSource) (seed : Option Int) (e : Entropy) :
    (r.rewound seed e).1.seed = seed.getD r.seed := by
  cases seed with
  | none => exact (reset_seed_draws r e).1
  | some x => exact (reset_seed_draws { r with seed := x } e).1

theorem rewound_draws (r : RandomSource) (seed : Option Int) (e : Entropy) : (r.rewound seed e).1.draws = 0 := by
  cases seed with
  | none => exact (reset_seed_draws r e).2
  | some x => exact (reset_seed_draws { r with seed := x } e).2

/-- what a start leaves as it is has drawn nothing and keeps its seed -/
theorem rewound_eq_self {r : RandomSource} {seed : Option Int} {e : Entropy} (h : (r.rewound seed e).1 = r) :
    r.draws = 0 ∧ seed.getD r.seed = r.seed := by
  have hdraws := rewound_draws r seed e
  have hseed := rewound_seed r seed e
  rw [h] at hdraws hseed
  exact ⟨hdraws, hseed.symm⟩

end RandomSource

/-! ## Operations that are refused -/

section

variable [Scalar α] [SymbolKind κ]

/-- the fault of an operation that is asked for a delay or a step below zero -/
def Op.refusal? : Op α κ σ → Option (Fault α)
  | .generate _ delay => if delay < Scalar.zero then some (.negativeDelay delay) else none
  | .schedule _ delay => if delay < Scalar.zero then some (.negativeDelay delay) else none
  | .advance dt => if dt < Scalar.zero then some (.negativeStep dt) else none
  | _ => none

/-- an operation that is refused does nothing, whatever the rules are -/
theorem World.perform_refused {o : Op α κ σ} {e : Fault α} (h : o.refusal? = some e) (spare : Nat)
    (expand : ShapeId → Act α κ σ Unit) (w : World α κ σ) : perform spare expand o w = .error e w := by
  cases o with
  | generate s delay =>
    simp only [Op.refusal?, Option.ite_none_right_eq_some, Option.some.injEq] at h
    obtain ⟨hd, rfl⟩ := h
    exact if_pos hd
  | schedule s delay =>
    simp only [Op.refusal?, Option.ite_none_right_eq_some, Option.some.injEq] at h
    obtain ⟨hd, rfl⟩ := h
    exact if_pos hd
  | advance dt =>
    simp only [Op.refusal?, Option.ite_none_right_eq_some, Option.some.injEq] at h
    obtain ⟨hd, rfl⟩ := h
    exact if_pos hd
  | _ => cases h

/-! ## Builds -/

theorem Prog.run_bind_error {g : Grammar α κ σ} {p : Prog α κ σ β} {f : β → Prog α κ σ γ} {w v : World α κ σ} {e : Fault α}
    (h : p.run g w = .error e v) : (p >>= f).run g w = .error e v := by
  rw [Prog.run_bind, h]

namespace World

/-- `v` is `w` when a build is about to ask for its expansion: the source of the trigger has started again, or there is
none, and a seed that it was to take has been entered in the log -/
structure Primed (t : Trigger) (seed : Option Int) (w v : World α κ σ) : Prop where
  rest : v = { w with sources := v.sources, entropy := v.entropy, warnings := v.warnings }
  sources : ∀ i : SourceId, v.sources[i]? =
    if t.source = some i then w.sources[i]?.map fun r => (r.rewound seed w.entropy).1 else w.sources[i]?
  log : v.warnings = w.warnings ∨
    t.source = none ∧ ∃ x name, seed = some x ∧ v.warnings = w.warnings.push (.seedIgnored x name)

omit [Scalar α] [SymbolKind κ] in
theorem reseed_rewound {w : World α κ σ} {i : SourceId} {r : RandomSource} (hr : w.sources[i]? = some r)
    (seed : Option Int) : reseed i seed w =
      .ok () (w.setSource i (r.rewound seed w.entropy).1 (r.rewound seed w.entropy).2) := by
  unfold reseed
  rw [hr]
  cases seed with
  | none => rfl
  | some x => rfl

omit [Scalar α] [SymbolKind κ] in
theorem primed_reseed (w : World α κ σ) {t : Trigger} {i : SourceId} (hi : t.source = some i) (seed : Option Int) :
    ∃ v, reseed i seed w = .ok () v ∧ Primed t seed w v := by
  cases hr : w.sources[i]? with
  | none =>
    have hsame : reseed i seed w = .ok () w := by rw [reseed, hr]
    refine ⟨w, hsame, rfl, fun j => ?_, Or.inl rfl⟩
    by_cases hj : t.source = some j
    · obtain rfl : i = j := Option.some.inj (hi.symm.trans hj)
      rw [if_pos hj, hr, Option.map_none]
    · rw [if_neg hj]
  | some r =>
    refine ⟨_, reseed_rewound hr seed, rfl, fun j => ?_, Or.inl rfl⟩
    by_cases hj : t.source = some j
    · obtain rfl : i = j := Option.some.inj (hi.symm.trans hj)
      rw [if_pos hj, hr, Option.map_some]
      exact Array.getElem?_setIfInBounds_self_of_lt (Array.getElem?_eq_some_iff.1 hr).1
    · have hne : i ≠ j := fun h => hj (h ▸ hi)
      rw [if_neg hj]
      exact Array.getElem?_setIfInBounds_ne hne

/-- what a build does before it asks for the expansion -/
theorem run_prime (g : Grammar α κ σ) (w : World α κ σ) {t : Trigger} {seed : Option Int}
    (hname : t.source = none → seed ≠ none → w.homeOf t.root ≠ none) :
    ∃ v, (Engine.prime t seed).run g w = .ok () v ∧ Primed t seed w v := by
  unfold Engine.prime
  cases hs : t.source with
  | some i =>
    obtain ⟨v, hv, hprimed⟩ := primed_reseed w hs seed
    refine ⟨v, ?_, hprimed⟩
    simp only [Prog.act, Prog.run, Prog.exec, perform, hv]
  | none =>
    cases seed with
    | none => exact ⟨w, rfl, rfl, fun _ => by simp [hs], Or.inl rfl⟩
    | some x =>
      obtain ⟨n, hn⟩ := Option.ne_none_iff_exists'.1 (hname hs (by simp))
      obtain ⟨name, hw⟩ : ∃ name, w.nameOf t.root = .ok name := by
        rw [nameOf, nodeOf_eq_ok_iff.2 hn]
        exact ⟨_, rfl⟩
      have hask : (Prog.ask fun w : World α κ σ => w.nameOf t.root).run g w = .ok name w := by
        simp only [Prog.run, Prog.ask, Prog.exec, hw]
      refine ⟨w.warn (.seedIgnored x name), Prog.run_bind_ok hask, rfl, fun _ => ?_, Or.inr ?_⟩
      · rw [hs, if_neg (by simp)]
        rfl
      · exact ⟨hs, x, name, rfl, rfl⟩

/-- a build that is refused has been refused by the expansion that it asked for -/
theorem run_build_refused (g : Grammar α κ σ) {w : World α κ σ} {i : Nat} {t : Trigger}
    (ht : w.desk.triggers[i]? = some t) {seed : Option Int}
    (hname : t.source = none → seed ≠ none → w.homeOf t.root ≠ none) {delay : α} (hd : delay < Scalar.zero) :
    ∃ v, (Engine.build i delay seed).run g w = .error (.negativeDelay delay) v ∧ Primed t seed w v := by
  obtain ⟨v, hv, hprimed⟩ := run_prime g w hname
  have hrefused : (Prog.act (.generate t.root delay)).run g v = .error (.negativeDelay delay) v := by
    have hperform := perform_refused (o := .generate t.root delay) (if_pos hd) g.spare (g.expandWithin g.nesting) v
    rw [Prog.run_act, hperform]
  refine ⟨v, ?_, hprimed⟩
  unfold Engine.build
  rw [Prog.run_bind_ok (run_trigger ht), Prog.run_bind_ok hv, Prog.run_bind_error hrefused]

omit [Scalar α] [SymbolKind κ] in
/-- a build has not touched the sources just if the one of the trigger stands where it lets it start -/
theorem Primed.sources_eq_iff {t : Trigger} {seed : Option Int} {w v : World α κ σ} (h : Primed t seed w v) :
    v.sources = w.sources ↔
      ∀ i r, t.source = some i → w.sources[i]? = some r → (r.rewound seed w.entropy).1 = r := by
  constructor
  · intro heq i r hi hr
    have hown := h.sources i
    rw [heq, if_pos hi, hr, Option.map_some] at hown
    exact (Option.some.inj hown).symm
  · intro hself
    refine Array.ext_getElem? fun i => ?_
    rw [h.sources i]
    by_cases hi : t.source = some i
    · rw [if_pos hi]
      cases hr : w.sources[i]? with
      | none => rfl
      | some r => rw [Option.map_some, hself i r hi hr]
    · rw [if_neg hi]

end World

/-- **Refused calls.** Let a delay be below zero. An expansion, an appointment or a step of the clock that is asked for with
it is refused and changes nothing at all. A build is refused, too; but of the sources the trigger's own has started again
by then, so that they are as before just if it stood where a build lets it start. That it does not if it has drawn since, or
if the build brings another seed. Everything else is as before: scene, shapes and their lists, agenda and clock, the count
of builds and all other sources; only the pool of keys and the log may differ. -/
theorem refused_calls {delay : α} (hd : delay < Scalar.zero) (g : Grammar α κ σ) (w : World α κ σ) :
    (∀ s, (Prog.act (.generate s delay)).run g w = .error (.negativeDelay delay) w) ∧
    (∀ s, (Prog.act (.schedule s delay)).run g w = .error (.negativeDelay delay) w) ∧
    (Prog.act (.advance delay)).run g w = .error (.negativeStep delay) w ∧
    ∀ i t seed, w.desk.triggers[i]? = some t → (t.source = none → seed ≠ none → w.homeOf t.root ≠ none) →
      ∃ v, (Engine.build i delay seed).run g w = .error (.negativeDelay delay) v ∧ World.Primed t seed w v ∧
        (v.sources = w.sources ↔
          ∀ k r, t.source = some k → w.sources[k]? = some r → (r.rewound seed w.entropy).1 = r) ∧
        ∀ k r, t.source = some k → w.sources[k]? = some r → 0 < r.draws ∨ seed.getD r.seed ≠ r.seed →
          v.sources ≠ w.sources := by
  have hact {o : Op α κ σ} {e : Fault α} (ho : o.refusal? = some e) : (Prog.act o).run g w = .error e w := by
    rw [Prog.run_act, World.perform_refused ho]
  refine ⟨fun s => hact (if_pos hd), fun s => hact (if_pos hd), hact (if_pos hd), fun i t seed ht hname => ?_⟩
  obtain ⟨v, hv, hprimed⟩ := World.run_build_refused g ht hname hd
  refine ⟨v, hv, hprimed, hprimed.sources_eq_iff, fun k r hk hr hmoved heq => ?_⟩
  obtain ⟨hdraws, hseed⟩ := RandomSource.rewound_eq_self (hprimed.sources_eq_iff.1 heq k r hk hr)
  exact hmoved.elim hdraws.not_gt fun h => h hseed

end

/-- a root with a source of its own that has drawn once, and a trigger -/
def wound : Prog Float (City.Kind Float) Unit Unit :=
  .perform (.newSource 7) fun i =>
    .perform (.createRoot (.of .roof) "root" none .rest (some i)) fun root =>
      .perform (.setDesk ⟨#[⟨root, some i, false, 0⟩], none⟩) fun _ =>
        .perform (.randomInt root 0 100) fun _ => .done ()

/-- the world of the wound source -/
def woundWorld : World Float (City.Kind Float) Unit := (wound.run sprouting).after (.fresh ⟨fun _ => 0, 0⟩ ())

theorem woundWorld_trigger : ∃ t, woundWorld.desk.triggers[0]? = some t ∧ t.source = some 1 := by
  have ht : (woundWorld.desk.triggers[0]?).map (·.source) = some (some 1) := by decide +kernel
  exact Option.map_eq_some_iff.1 ht

/-- a build after a delay of minus one is refused in the world of the wound source, and has touched the sources -/
theorem refused_calls_wound :
    (-1 : Float) < Scalar.zero ∧
      ∃ v, (Engine.build 0 (-1) none).run sprouting woundWorld = .error (.negativeDelay (-1)) v ∧
        v.sources ≠ woundWorld.sources := by
  have hd : (-1 : Float) < Scalar.zero := by decide +kernel
  obtain ⟨t, ht, hsource⟩ := woundWorld_trigger
  have hr : (woundWorld.sources[1]?).map (·.draws) = some 1 := by decide +kernel
  obtain ⟨r, hr, hdraws⟩ := Option.map_eq_some_iff.1 hr
  obtain ⟨v, hv, -, -, hmoved⟩ := (refused_calls hd sprouting woundWorld).2.2.2 0 t none ht (by simp)
  exact ⟨hd, v, hv, hmoved 1 r hsource hr (Or.inl (by omega))⟩

/-- **A refused build rewinds the source.** Nothing but runs of permitted operations leads to the world, and the build is
refused for its delay. The source has drawn once under seed 7 before, and not yet at all under seed 9 afterwards. -/
theorem refused_build_rewinds :
    Reachable woundWorld ∧
      ∃ v, (Engine.build 0 (-1) (some 9)).run sprouting woundWorld = .error (.negativeDelay (-1)) v ∧
        (woundWorld.sources.map fun r => (r.seed, r.draws)) = #[(0, 0), (7, 1)] ∧
        (v.sources.map fun r => (r.seed, r.draws)) = #[(0, 0), (9, 0)] ∧ v.sources ≠ woundWorld.sources := by
  have heeds : wound.Heeds sprouting (.fresh ⟨fun _ => 0, 0⟩ ()) := by
    refine Prog.heeds_perform (by decide +kernel) rfl <| Prog.heeds_perform (by decide +kernel) rfl <|
      Prog.heeds_perform (by decide +kernel) rfl <| Prog.heeds_perform (by decide +kernel) rfl ?_
    split
    · exact rfl
    · trivial
  obtain ⟨t, ht, hsource⟩ := woundWorld_trigger
  have hnamed : t.source = none → some (9 : Int) ≠ none → woundWorld.homeOf t.root ≠ none := by simp [hsource]
  obtain ⟨v, hv, -⟩ := World.run_build_refused sprouting ht hnamed (show (-1 : Float) < Scalar.zero by decide +kernel)
  have hbefore : (woundWorld.sources.map fun r => (r.seed, r.draws)) = #[(0, 0), (7, 1)] := by decide +kernel
  have hafter : (v.sources.map fun r => (r.seed, r.draws)) = #[(0, 0), (9, 0)] := by
    rw [← Act.after_error hv]
    decide +kernel
  refine ⟨.run _ _ (.start (World.pristine_fresh _ _)) heeds, v, hv, hbefore, hafter, fun heq => ?_⟩
  rw [heq, hbefore] at hafter
  exact absurd hafter (by decide)

end SceneGrammar

/-
A manager that is reset, and a new one.

`KeepsSetup c heights m`: whatever has happened to a manager and whatever has failed, it has its configuration and its root,
and its world has a single root. So nothing stops the teardown that a reset begins with, and the set-up after it starts from
the same world as the first one did, but for the keys to come. `InStep c heights m n`: two managers that stand still, and
whose worlds differ in nothing that can be seen.

- `reset_like_new`: if a configuration with a seed other than zero can be set up, a manager can be reset after any
  history; then it stands still, nothing waits, and it is in step with a new manager, now and after any further calls that
  ask for no seed of zero.
-/
import SceneGrammar.Proofs.Engine.Lockstep
import SceneGrammar.Proofs.Engine.Refinement
import SceneGrammar.Proofs.Engine.Requests
import SceneGrammar.Proofs.Teardown.Objections

namespace SceneGrammar.Manager

open World (SingleRoot SingleRootEq MuteEq Alike keptByEngine_itself keptByEngine_singleRootEq alike_itself)

variable {α : Type}

/-! ## Histories -/

/-- what is done to a manager, the speed of its thread included -/
inductive Deed (α : Type) where
  | move (d : Move α)
  | speed (seconds : α)

/-- a call without the thread that asks for no seed of zero -/
def Call.ByHand : Call α → Prop
  | .regenerate r => r.seed ≠ some 0
  | .step _ => True
  | _ => False

variable [Scalar α]

/-- what a deed does; what is refused changes nothing more -/
def undergo (g : Grammar α (City.Kind α) Unit) (m : Manager α) : Deed α → Manager α
  | .move d => m.play g d
  | .speed seconds => m.setTickRate seconds

theorem city_recipe (nesting spare : Nat) (kind : City.Kind α) (s : ShapeId) :
    (Catalogue.cityGrammar nesting spare : Grammar α (City.Kind α) Unit).rule kind s = (City.recipe kind).toProg s :=
  City.rule_eq s kind

/-! ## The set-up -/

section

variable {c : Config α} {heights : Option (HeightMap α)} {ok : Int → Prop} {nesting spare : Nat}

theorem singleRoot_staged (h : ok c.seed) (heights : Option (HeightMap α)) (log : Option (Ring (Event α)))
    (entropy : Entropy) : SingleRoot (rootData c heights) ok [] (staged c heights log entropy) where
  sound := sound_staged c heights log entropy
  home := rfl
  alive := rfl
  key s hs := by
    obtain rfl : s = 0 := Nat.lt_one_iff.1 hs
    rfl
  draws := by cases heights <;> rfl
  engine :=
    { source := ⟨_, rfl, h⟩
      trigger := ⟨_, rfl, rfl, rfl⟩
      loop := ⟨_, rfl, rfl, fun r hr => absurd hr List.not_mem_nil⟩
      quiet := rfl
      told := rfl }

/-- as long as no seed is zero, two cities go on differing in nothing that a scene heeds -/
theorem keptByEngine_city (heights : Option (HeightMap α)) : World.KeptByEngine (rootData c heights) (· ≠ 0) []
    (SingleRootEq (σ := Unit) (rootData c heights) (· ≠ 0) []) := keptByEngine_singleRootEq (by simp)

/-- a configuration that can be set up is that of a city, with a height map if it asks for one -/
theorem create_configured {g : Grammar α (City.Kind α) Unit} {entropy : Entropy} {m : Manager α}
    (h : create g c entropy = .ok m) : c.grammar = "city" ∧ ∃ heights, c.heights = .ok heights := by
  have hbuilt : ∃ root w, (Catalogue.build id c 0).run g (blank c entropy) = .ok root w := by
    unfold create at h
    cases hrun : (setUp c).run g (blank c entropy) with
    | ok root w =>
      obtain ⟨r, u, hu, -⟩ := Prog.run_bind_eq_ok hrun
      exact ⟨r, u, hu⟩
    | error e w =>
      rw [hrun] at h
      cases h
  obtain ⟨root, w, hw⟩ := hbuilt
  by_cases hgrammar : c.grammar = "city"
  · refine ⟨hgrammar, ?_⟩
    rw [run_build g hgrammar] at hw
    cases hh : c.heights with
    | ok heights => exact ⟨heights, rfl⟩
    | error e =>
      rw [hh] at hw
      cases hw
  · rw [run_build_unknown g hgrammar] at hw
    cases hw

/-- two set-ups end alike, whatever keys are to come -/
theorem setUp_singleRootEq (nesting spare : Nat) (hseed : c.seed ≠ 0) (hgrammar : c.grammar = "city")
    (hheights : c.heights = .ok heights)
    (entropy entropy' : Entropy) : Alike (SingleRootEq (rootData c heights) (· ≠ 0) [])
      ((setUp c).run (Catalogue.cityGrammar nesting spare) (blank c entropy))
      ((setUp c).run (Catalogue.cityGrammar nesting spare) (blank c entropy')) := by
  rw [run_setUp _ hgrammar hheights, run_setUp _ hgrammar hheights]
  have hstart := (keptByEngine_city heights).start (city_recipe nesting spare)
    ⟨singleRoot_staged hseed heights (some (.empty logCapacity)) entropy,
      (rfl : MuteEq _ (staged c heights (some (.empty logCapacity)) entropy'))⟩
  rcases hstart.cases with ⟨_, w, v, hw, hv, h⟩ | ⟨e, w, v, hw, hv, h⟩
  · rw [hw, hv]
    exact ⟨rfl, h⟩
  · rw [hw, hv]
    exact ⟨rfl, h⟩

/-- once a configuration has been set up, it can be set up again, whatever keys are to come -/
theorem setUp_again (hseed : c.seed ≠ 0) {entropy : Entropy} {m : Manager α}
    (h : create (Catalogue.cityGrammar nesting spare) c entropy = .ok m) (hheights : c.heights = .ok heights)
    (entropy' : Entropy) :
    ∃ w, (setUp c).run (Catalogue.cityGrammar nesting spare) (blank c entropy') = .ok (0 : Nat) w := by
  have hgrammar := (create_configured h).1
  unfold create at h
  rcases (setUp_singleRootEq nesting spare hseed hgrammar hheights entropy entropy').cases with
    ⟨root, w, v, hw, hv, -⟩ | ⟨e, w, v, hw, -⟩
  · refine ⟨v, ?_⟩
    rw [hv]
    rw [run_setUp _ hgrammar hheights] at hv
    cases hstart : Engine.start.run (Catalogue.cityGrammar nesting spare)
        (staged c heights (some (.empty logCapacity)) entropy') with
    | ok a u =>
      rw [hstart] at hv
      injection hv with hroot
      rw [← hroot]
    | error e u =>
      rw [hstart] at hv
      cases hv
  · rw [hw] at h
    cases h

end

/-! ## Two managers -/

/-- two managers that stand still, and whose worlds differ in nothing that can be seen -/
structure InStep (c : Config α) (heights : Option (HeightMap α)) (m n : Manager α) : Prop where
  worlds : SingleRootEq (rootData c heights) (· ≠ 0) [] m.world n.world
  root : n.root = m.root
  idle : m.running = false ∧ n.running = false
  snapshot : n.snapshot = m.snapshot

section

variable {c : Config α} {heights : Option (HeightMap α)} {m n : Manager α} {nesting spare : Nat}

theorem InStep.events (h : InStep c heights m n) : n.events = m.events := by
  rw [Manager.events, loop?, h.worlds.2.desk, Manager.events, loop?]

/-- what is published of two worlds that differ in nothing that can be seen -/
theorem inStep_publish (worlds : SingleRootEq (rootData c heights) (· ≠ 0) [] m.world n.world) (root : n.root = m.root)
    (idle : m.running = false ∧ n.running = false) : InStep c heights m.publish n.publish where
  worlds := worlds
  root := root
  idle := idle
  snapshot := by
    have hnode : n.rootNode = m.rootNode := by rw [rootNode, root, worlds.2.shape?, rootNode]
    have htick : n.tick = m.tick := by rw [tick, loop?, worlds.2.desk, tick, loop?]
    have hseed : n.seed = m.seed := by rw [seed, loop?, worlds.2.desk, worlds.2.sources, seed, loop?]
    show some (n.world.snapshot n.rootNode n.tick n.seed) = some (m.world.snapshot m.rootNode m.tick m.seed)
    rw [hnode, htick, hseed, worlds.2.snapshot]

/-- **A call.** Two managers in step stay in step. -/
theorem InStep.obey (h : InStep c heights m n) {call : Call α} (hcall : call.ByHand) :
    InStep c heights (m.obey (Catalogue.cityGrammar nesting spare) call) (n.obey (Catalogue.cityGrammar nesting spare) call) := by
  have hR := keptByEngine_city heights (c := c)
  cases call with
  | regenerate r =>
    have hr : r.Meets (· ≠ 0) := fun seed hs hz => hcall (hz ▸ hs)
    have hloop : n.loop? = m.loop? := congrArg Desk.loop h.worlds.2.desk
    unfold Manager.obey regenerate
    by_cases hback : r.delay < Scalar.zero
    · simpa only [if_pos hback] using h
    · simp only [if_neg hback, hloop]
      cases m.loop? with
      | none => exact h
      | some l =>
        have hrequest := hR.request (g := Catalogue.cityGrammar nesting spare) h.worlds hr
        exact { h with worlds := hrequest.2 }
  | step dt =>
    have hm : m.step (Catalogue.cityGrammar nesting spare) dt = tickAndPublish (Catalogue.cityGrammar nesting spare) dt m :=
      if_neg (by simp [h.idle.1])
    have hn : n.step (Catalogue.cityGrammar nesting spare) dt = tickAndPublish (Catalogue.cityGrammar nesting spare) dt n :=
      if_neg (by simp [h.idle.2])
    unfold Manager.obey
    simp only [hm, hn]
    unfold tickAndPublish
    rcases (hR.tick (city_recipe nesting spare) h.worlds dt).cases with ⟨more, w, v, hw, hv, h'⟩ | ⟨e, w, v, hw, hv, h'⟩
    · rw [hw, hv]
      exact inStep_publish (m := { m with world := w }) (n := { n with world := v }) h' h.root h.idle
    · rw [hw, hv]
      exact { h with worlds := h' }
  | start => exact hcall.elim
  | wake => exact hcall.elim
  | stop => exact hcall.elim

/-- so they do under any calls -/
theorem InStep.run (calls : List (Call α)) (hcalls : ∀ call ∈ calls, call.ByHand) (h : InStep c heights m n) :
    InStep c heights (calls.foldl (Manager.obey (Catalogue.cityGrammar nesting spare)) m)
      (calls.foldl (Manager.obey (Catalogue.cityGrammar nesting spare)) n) := by
  induction calls generalizing m n with
  | nil => exact h
  | cons call calls ih =>
    exact ih (fun q hq => hcalls q (List.mem_cons_of_mem call hq)) (h.obey (hcalls call List.mem_cons_self))

end

/-! ## One manager -/

/-- a manager keeps its configuration and its root, and its world has that root alone -/
structure KeepsSetup (c : Config α) (heights : Option (HeightMap α)) (m : Manager α) : Prop where
  config : m.config = c
  root : m.root = 0
  singleRoot : SingleRoot (rootData c heights) (fun _ => True) [] m.world

section

variable {c : Config α} {heights : Option (HeightMap α)} {m : Manager α} {nesting spare : Nat}

theorem KeepsSetup.of_world (h : KeepsSetup c heights m) {n : Manager α} (config : n.config = m.config)
    (root : n.root = m.root) (world : n.world = m.world) : KeepsSetup c heights n :=
  ⟨config.trans h.config, root.trans h.root, world ▸ h.singleRoot⟩

/-- a tick, whether it fails or not -/
theorem KeepsSetup.tick (nesting spare : Nat) (h : KeepsSetup c heights m) (dt : Option α) :
    SingleRoot (rootData c heights) (fun _ => True) []
      (((Engine.tick dt).run (Catalogue.cityGrammar nesting spare)).after m.world) :=
  alike_itself.1 (keptByEngine_itself.tick (city_recipe nesting spare) ⟨rfl, h.singleRoot⟩ dt)

theorem KeepsSetup.tickAndPublish (nesting spare : Nat) (h : KeepsSetup c heights m) (dt : Option α) :
    (∀ more n, Manager.tickAndPublish (Catalogue.cityGrammar nesting spare) dt m = .ok more n → KeepsSetup c heights n) ∧
      ∀ e n, Manager.tickAndPublish (Catalogue.cityGrammar nesting spare) dt m = .error e n → KeepsSetup c heights n := by
  have htick := h.tick nesting spare dt
  unfold Manager.tickAndPublish
  cases hrun : (Engine.tick dt).run (Catalogue.cityGrammar nesting spare) m.world with
  | ok more w =>
    rw [Act.after_ok hrun] at htick
    refine ⟨fun b n hn => ?_, fun e n hn => by cases hn⟩
    cases hn
    exact ⟨h.config, h.root, htick⟩
  | error e w =>
    rw [Act.after_error hrun] at htick
    refine ⟨fun b n hn => (by cases hn), fun f n hn => ?_⟩
    cases hn
    exact ⟨h.config, h.root, htick⟩

theorem KeepsSetup.turn (h : KeepsSetup c heights m) (p : Pacing α) :
    KeepsSetup c heights (m.turn (Catalogue.cityGrammar nesting spare) p) := by
  obtain ⟨hok, herror⟩ := h.tickAndPublish nesting spare (some m.tickRate)
  unfold Manager.turn
  cases hrun : Manager.tickAndPublish (Catalogue.cityGrammar nesting spare) (some m.tickRate) m with
  | ok more n =>
    cases more with
    | false => exact (hok _ n hrun).of_world rfl rfl rfl
    | true =>
      simp only
      cases p.refusal n.tickRate <;> exact (hok _ n hrun).of_world rfl rfl rfl
  | error e n => exact (herror e n hrun).of_world rfl rfl rfl

theorem KeepsSetup.wake (h : KeepsSetup c heights m) (p : Pacing α) :
    KeepsSetup c heights (m.wake (Catalogue.cityGrammar nesting spare) p) := by
  unfold Manager.wake
  cases m.thread with
  | parked => exact h.turn p
  | absent => exact h
  | ended => exact h

theorem KeepsSetup.launch (h : KeepsSetup c heights m) : KeepsSetup c heights m.launch := by
  unfold Manager.launch
  split_ifs
  · exact h
  · exact h.of_world rfl rfl rfl

/-- **A call.** -/
theorem KeepsSetup.obey (h : KeepsSetup c heights m) (call : Call α) :
    KeepsSetup c heights (m.obey (Catalogue.cityGrammar nesting spare) call) := by
  cases call with
  | regenerate r =>
    unfold Manager.obey regenerate
    by_cases hback : r.delay < Scalar.zero
    · simpa only [if_pos hback] using h
    · simp only [if_neg hback]
      cases m.loop? with
      | none => exact h
      | some l =>
        have hrequest := keptByEngine_itself.request (g := Catalogue.cityGrammar nesting spare) ⟨rfl, h.singleRoot⟩
          (show r.Meets fun _ => True from fun _ _ => trivial)
        exact ⟨h.config, h.root, hrequest.2.2⟩
  | step dt =>
    obtain ⟨hok, herror⟩ := h.tickAndPublish nesting spare dt
    unfold Manager.obey step
    by_cases hr : m.running = true
    · simpa only [if_pos hr] using h
    · simp only [if_neg hr]
      cases hrun : Manager.tickAndPublish (Catalogue.cityGrammar nesting spare) dt m with
      | ok more n => exact hok more n hrun
      | error e n => exact herror e n hrun
  | start p =>
    show KeepsSetup c heights (m.start _ _)
    cases hr : m.running with
    | true =>
      rw [(start_of_running hr p).1]
      exact h
    | false =>
      rw [start_eq hr]
      exact h.launch.wake p
  | wake p => exact h.wake p
  | stop => exact h.of_world rfl rfl rfl

/-- **A reset.** It does not fail, leaves a manager that stands still and has nothing to do, and one that is in step with a
new one. -/
theorem KeepsSetup.reset (h : KeepsSetup c heights m) (hseed : c.seed ≠ 0) (hheights : c.heights = .ok heights)
    {entropy : Entropy}
    {m₀ : Manager α} (h₀ : create (Catalogue.cityGrammar nesting spare) c entropy = .ok m₀) (entropy' : Entropy) :
    ∃ m' n, m.reset (Catalogue.cityGrammar nesting spare) = .ok () m' ∧
      create (Catalogue.cityGrammar nesting spare) c entropy' = .ok n ∧ KeepsSetup c heights m' ∧ InStep c heights m' n ∧
      m'.thread = .absent ∧ m'.world.queue = [] ∧ m'.tickRate = m.tickRate := by
  obtain ⟨v, hv⟩ := h.singleRoot.sound.clear_quiet h.singleRoot.engine.quiet
  obtain ⟨w, hw⟩ := setUp_again hseed h₀ hheights v.entropy
  obtain ⟨u, hu⟩ := setUp_again hseed h₀ hheights entropy'
  have hsame := setUp_singleRootEq nesting spare hseed (create_configured h₀).1 hheights v.entropy entropy'
  rw [hw, hu] at hsame
  have hqueue := setUp_queues (city_keepsDesk nesting spare nesting) hw
  let m' : Manager α := { m.stop with world := w, root := (0 : Nat) }
  let n : Manager α :=
    { config := c, world := u, root := (0 : Nat), snapshot := none, running := false, thread := .absent, tickRate := c.tickRate }
  refine ⟨m'.publish, n.publish, ?_, ?_, ⟨h.config, rfl, ?_⟩, inStep_publish hsame.2 rfl ⟨rfl, rfl⟩, rfl,
    hqueue.queue_eq, rfl⟩
  · have hclear : World.clear m.stop.world = .ok () v := hv
    have hset : (setUp m.stop.config).run (Catalogue.cityGrammar nesting spare) (blank m.stop.config v.entropy) =
        .ok (0 : Nat) w := by
      rw [show m.stop.config = c from h.config]
      exact hw
    simp only [Manager.reset, hclear, hset]
    rfl
  · simp only [create, hu]
    rfl
  · exact hsame.2.1.mono fun _ _ => trivial

/-- **A deed.** Whatever is done to a manager, it keeps its set-up. -/
theorem KeepsSetup.undergo (h : KeepsSetup c heights m) (hseed : c.seed ≠ 0) (hheights : c.heights = .ok heights)
    {entropy : Entropy}
    {m₀ : Manager α} (h₀ : create (Catalogue.cityGrammar nesting spare) c entropy = .ok m₀) (d : Deed α) :
    KeepsSetup c heights (m.undergo (Catalogue.cityGrammar nesting spare) d) := by
  match d with
  | .speed seconds => exact h.of_world rfl rfl rfl
  | .move (.call call) => exact h.obey call
  | .move .launch => exact h.launch
  | .move .reset =>
    obtain ⟨m', n, hm', -, hkeeps, -⟩ := h.reset hseed hheights h₀ entropy
    simp only [Manager.undergo, play, hm']
    exact hkeeps

/-- whatever is done to it, one deed after the other -/
theorem KeepsSetup.run (h : KeepsSetup c heights m) (hseed : c.seed ≠ 0) (hheights : c.heights = .ok heights)
    {entropy : Entropy}
    {m₀ : Manager α} (h₀ : create (Catalogue.cityGrammar nesting spare) c entropy = .ok m₀) (history : List (Deed α)) :
    KeepsSetup c heights (history.foldl (Manager.undergo (Catalogue.cityGrammar nesting spare)) m) := by
  induction history generalizing m with
  | nil => exact h
  | cons d history ih => exact ih (h.undergo hseed hheights h₀ d)

/-- a new manager keeps its set-up -/
theorem create_keepsSetup (hseed : c.seed ≠ 0) (hheights : c.heights = .ok heights) {entropy : Entropy}
    (h : create (Catalogue.cityGrammar nesting spare) c entropy = .ok m) : KeepsSetup c heights m := by
  obtain ⟨w, hw⟩ := setUp_again hseed h hheights entropy
  have hsame := setUp_singleRootEq nesting spare hseed (create_configured h).1 hheights entropy entropy
  rw [hw] at hsame
  simp only [create, hw, Except.ok.injEq] at h
  exact h ▸ ⟨rfl, rfl, hsame.2.1.mono fun _ _ => trivial⟩

end

/-- **Resets.** Once a configuration with a seed other than zero has been set up, whatever is done to the manager, by its
thread, too, and whatever fails of it, the manager can be reset. Then it stands still, no request waits, and it keeps its
speed; and it shows and tells what a new manager does, at once and after any calls that ask for no seed of zero. -/
theorem reset_like_new {nesting spare : Nat} {config : Config α} (hseed : config.seed ≠ 0) {entropy : Entropy}
    {m₀ : Manager α} (h : create (Catalogue.cityGrammar nesting spare) config entropy = .ok m₀) (history : List (Deed α))
    (entropy' : Entropy) :
    let g := Catalogue.cityGrammar nesting spare
    let m := history.foldl (undergo g) m₀
    ∃ m' n, m.reset g = .ok () m' ∧ create g config entropy' = .ok n ∧
      m'.running = false ∧ m'.thread = .absent ∧ m'.world.queue = [] ∧ m'.tickRate = m.tickRate ∧
      ∀ calls : List (Call α), (∀ call ∈ calls, call.ByHand) →
        (calls.foldl (obey g) m').snapshot = (calls.foldl (obey g) n).snapshot ∧
        (calls.foldl (obey g) m').events = (calls.foldl (obey g) n).events := by
  intro g m
  obtain ⟨heights, hheights⟩ := (create_configured h).2
  have hm : KeepsSetup config heights m := (create_keepsSetup hseed hheights h).run hseed hheights h history
  obtain ⟨m', n, hreset, hnew, -, hstep, hthread, hqueue, hrate⟩ := hm.reset hseed hheights h entropy'
  refine ⟨m', n, hreset, hnew, hstep.idle.1, hthread, hqueue, hrate, fun calls hcalls => ?_⟩
  have hrun : InStep config heights (calls.foldl (obey g) m') (calls.foldl (obey g) n) := hstep.run calls hcalls
  exact ⟨hrun.snapshot.symm, hrun.events.symm⟩

/-- the thread of the barren city's manager has died of a build that fails; a reset makes the manager as good as new -/
theorem reset_like_new_barren :
    let g := Catalogue.cityGrammar 10 0
    ∃ m₀ m' n, create g barren ⟨fun _ => 0, 0⟩ = .ok m₀ ∧ (doomed.foldl (play g) m₀).running = true ∧
      (doomed.foldl (play g) m₀).thread = .ended ∧ (doomed.foldl (play g) m₀).reset g = .ok () m' ∧
      create g barren ⟨fun _ => 1, 0⟩ = .ok n ∧ m'.running = false ∧ m'.snapshot = n.snapshot ∧ m'.events = n.events ∧
      ∀ dt, (m'.obey g (.step dt)).snapshot = (n.obey g (.step dt)).snapshot := by
  intro g
  obtain ⟨m₀, h₀⟩ : ∃ m, create g barren ⟨fun _ => 0, 0⟩ = .ok m :=
    create_of_flagAfter doomed (by rw [flagAfter_doomed]; rfl)
  have hdoomed := (flagAfter_eq h₀ doomed).symm.trans flagAfter_doomed
  simp only [Option.some.injEq, Prod.mk.injEq] at hdoomed
  obtain ⟨m', n, hreset, hnew, hidle, -, -, -, hlike⟩ :=
    reset_like_new (by decide) h₀ (doomed.map .move) ⟨fun _ => 1, 0⟩
  rw [List.foldl_map] at hreset
  obtain ⟨hsnapshot, hevents⟩ := hlike [] (by simp)
  refine ⟨m₀, m', n, h₀, hdoomed.1, hdoomed.2, hreset, hnew, hidle, hsnapshot, hevents, fun dt => ?_⟩
  exact (hlike [.step dt] (by simp [Call.ByHand])).1

end SceneGrammar.Manager

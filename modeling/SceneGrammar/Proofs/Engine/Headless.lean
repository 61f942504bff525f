/-
A generation without a server.

It starts a loop, makes its requests and ticks until nothing waits. `run_generate` follows it to its end: it prints what
stands under the root when the machine has settled.

- `generate_settles`: over the rationals, whatever is asked for but a seed of zero and a delay that goes back, it ends after
  the ticks that its delay takes, and one at least, whatever its budget is; it warns once if the budget is spent before,
  and otherwise not at all; and it prints what a single build without a delay prints.
-/
import SceneGrammar.Config
import SceneGrammar.Proofs.Engine.Settling
import SceneGrammar.Proofs.Growth.Outline
import SceneGrammar.Proofs.Relief.Levels

namespace SceneGrammar

variable {α : Type} [Scalar α]

/-! ## What is printed -/

namespace World

section

variable {κ σ : Type} [SymbolKind κ] {S : RootData α κ} {recipe : κ → Recipe α κ Unit} {depth : Nat} {m m' : Machine α}
  {w v : World α κ σ}

omit [Scalar α] in
/-- the printed tree shows nothing but nodes and shapes -/
theorem outline_congr (w v : World α κ σ) (hn : v.nodes = w.nodes) (hs : v.shapes = w.shapes) (n : NodeId) (levels : Int) :
    v.outline n levels = w.outline n levels := by
  have hnode (k : NodeId) : v.node? k = w.node? k := node?_congr hn k
  have hshape (s : ShapeId) : v.shape? s = w.shape? s := by rw [shape?, hs, shape?]
  have hat (depth level : Nat) (k : NodeId) : v.outlineAt depth level k = w.outlineAt depth level k := by
    have hlabel (k : NodeId) : v.label k = w.label k := by
      simp only [label, shapeOn?, nodeName, typeName, generatedBy, hnode, hshape]
    induction depth generalizing level k with
    | zero => rw [outlineAt, outlineAt, hlabel]
    | succ depth ih =>
      have hchildren : v.children k = w.children k := by rw [World.children, hnode, World.children]
      rw [outlineAt, outlineAt, hlabel, hchildren]
      exact congrArg _ (List.flatMap_congr fun c _ => ih (level + 1) c)
  rw [outline, outline, hat]

/-- a root under which nothing grows is printed alone -/
theorem Tracks.outline_none (t : Tracks S recipe depth m w) (hc : m.content = none) (levels : Int) :
    w.outline S.node levels = (Subtree.bare : Subtree α κ).outline S.trunk.name S.kind levels := by
  have hbare : w.generatedBy S.shape = [] := by
    have hshows := t.content
    rwa [hc] at hshows
  obtain ⟨x, hx, hkind, -⟩ := t.shape
  have hnode := t.node
  rw [hbare, S.trunk_bare] at hnode
  have hlabel : w.label S.node = (Subtree.bare : Subtree α κ).label S.trunk.name S.kind none := by
    have hshape : w.shapeOn? S.node = some S.shape := by rw [shapeOn?, hnode, Option.bind_some, S.trunk_shape]
    simp only [label, hshape, nodeName, hnode, typeName, hx, hkind, hbare, Option.map_some, Option.getD_some]
    rfl
  have hchildren : w.children S.node = [] := by rw [World.children, hnode, Option.map_some, S.trunk_children]; rfl
  rw [outline, Subtree.outline]
  cases levels.toNat with
  | zero => rw [outlineAt, Subtree.outlineAt, hlabel]
  | succ k => rw [outlineAt, Subtree.outlineAt, hlabel, hchildren]; rfl

/-- two worlds that show the tree of one seed at a root print the same lines -/
theorem Shows.outline_eq {seed : Int} (h : Shows S recipe depth w (some seed)) (k : Shows S recipe depth v (some seed))
    (levels : Int) : w.outline S.node levels = v.outline S.node levels := by
  obtain ⟨F, G, P, ⟨hF, hFt, hlone, hP⟩, hG, hGt, hlone', hQ⟩ := h.share k
  have hw := hP.outline hlone levels
  have hv := hQ.outline hlone' levels
  rw [hF, hFt] at hw
  rw [hG, hGt] at hv
  exact hw.trans hv.symm

/-- **One outline.** Two worlds in which a root has the same content print the same lines. -/
theorem Tracks.outline_eq (t : Tracks S recipe depth m w) (u : Tracks S recipe depth m' v) (hc : m.content = m'.content)
    (levels : Int) : w.outline S.node levels = v.outline S.node levels := by
  have ht := t.content
  have hu := u.content
  cases hcontent : m.content with
  | none => rw [t.outline_none hcontent, u.outline_none (hc ▸ hcontent)]
  | some seed =>
    rw [hcontent] at ht
    rw [← hc, hcontent] at hu
    exact ht.outline_eq hu levels

end

end World

namespace Command

open World

variable {c : Config α} {heights : Option (HeightMap α)} {nesting : Nat}

/-! ## A run -/

section

variable [ExactScalar α]

/-- the start of a loop that builds nothing by itself -/
theorem start_followsWithLog (hc : c.Sane nesting) (spare : Nat) (hidle : c.buildOnStart = false)
    (heights : Option (HeightMap α)) (entropy : Entropy) :
    ∃ v, Engine.start.run (Catalogue.cityGrammar nesting spare) (Manager.staged c heights none entropy) = .ok () v ∧
      FollowsWithLog (Manager.rootData c heights) c nesting [] (.idle c.seed) v := by
  obtain ⟨v, hv, hfollows⟩ := Follows.start (Manager.completes hc spare heights)
    (Manager.staged_follows hc.seed heights none entropy nesting) hc.delay
  have hstaged : SingleRoot (Manager.rootData c heights) (fun _ => True) [] (Manager.staged c heights none entropy) :=
    Manager.singleRoot_staged trivial heights none entropy
  have hkeep := alike_itself.1 (keptByEngine_itself.start (Manager.city_recipe nesting spare) ⟨rfl, hstaged⟩)
  rw [Act.after_ok hv] at hkeep
  rw [if_neg (by simp [hidle])] at hfollows
  exact ⟨v, hv, hfollows, hkeep⟩

/-- **A run.** It ends when the machine has settled, and prints what then stands under the root. -/
theorem run_generate (hc : c.Sane nesting) (spare : Nat) (hidle : c.buildOnStart = false)
    (hdelay : ¬ c.regenerateDelay < Scalar.zero) {budget : Int} (hbudget : c.maxTicks = some budget)
    (hheights : c.heights = .ok heights) {builds : Int} {n : Nat} {m : Machine α}
    (hm : Machine.Settles c.tickRate n
      { Machine.idle c.seed with queue := List.replicate builds.toNat ⟨c.regenerateDelay, none⟩ } m)
    {patience : Nat} (hn : n ≤ patience) (depth : Int) (entropy : Entropy) :
    ∃ v, (generate c builds depth patience).run (Catalogue.cityGrammar nesting spare) (blank c entropy) =
        .ok (v.outline 1 depth) { v with live := false } ∧
      FollowsWithLog (Manager.rootData c heights) c nesting (overspent budget 0 n) m v := by
  have hbuild := Manager.run_build (Catalogue.cityGrammar nesting spare) hc.grammar entropy
  rw [hheights] at hbuild
  obtain ⟨w₁, hw₁, h₁⟩ := start_followsWithLog hc spare hidle heights entropy
  obtain ⟨w₂, hw₂, h₂⟩ := h₁.requests (g := Catalogue.cityGrammar nesting spare)
    (show Request.Fair ⟨c.regenerateDelay, none⟩ from ⟨hdelay, by simp⟩) builds.toNat
  obtain ⟨w₃, hw₃, h₃⟩ := h₂.settle (Manager.completes hc spare heights) hc.tickRate hbudget hm hn
  refine ⟨w₃, ?_, h₃⟩
  -- before the loop starts, the world is that of the configured root
  have hstage : Manager.staged c heights none entropy = { Manager.ground c heights entropy with
      desk := ⟨#[⟨0, some 1, false, 0⟩], some (.fresh c 0 none)⟩ } := by
    rw [Manager.staged, Manager.deskOf, hidle]
  rw [hstage] at hw₁
  have hattempt : (Prog.attempt (settle budget patience) Prog.done : Prog α (City.Kind α) Unit _).run
      (Catalogue.cityGrammar nesting spare) w₂ = .ok (.ok ()) w₃ := by
    rw [Prog.run_attempt, hw₃]
    rfl
  have hroot : ((w₃.shape? (0 : Nat)).bind (·.node)).getD 0 = 1 := by
    have hhome : (w₃.shape? (0 : Nat)).bind (·.node) = some 1 := h₃.follows.tracks.home
    rw [hhome]
    rfl
  have hprint : ({ w₃ with live := false } : World α (City.Kind α) Unit).outline
      (((w₃.shape? (0 : Nat)).bind (·.node)).getD 0) depth = w₃.outline 1 depth := by
    rw [hroot]
    exact outline_congr w₃ { w₃ with live := false } rfl rfl 1 depth
  unfold generate
  show Prog.run _ _ (Manager.blank c entropy) = _
  rw [Prog.run_bind_ok hbuild, Prog.run_bind_ok (Manager.run_makeTrigger ..)]
  show Prog.run _ (Engine.start >>= _) _ = _
  rw [Prog.run_bind_ok hw₁, Prog.run_bind_ok hw₂, hbudget, Option.getD_some, Prog.run_bind_ok hattempt]
  exact congrArg (fun lines => EStateM.Result.ok lines { w₃ with live := false }) hprint

end

/-! ## The city over the rationals -/

/-- the map of a city is one of those that have a height everywhere -/
theorem heights_ok {c : Config ℚ} (hplan : c.reliefPlan = { Relief.Plan.standard with seed := c.seed })
    (hwidth : c.mapWidth = 64) (hheight : c.mapHeight = 64) : ∃ heights, c.heights = .ok heights := by
  have hcovers : ({ Relief.Plan.standard with seed := c.seed } : Relief.Plan ℚ).clamped.Covers 64 :=
    { divisor := show 0 < (Relief.Plan.standard : Relief.Plan ℚ).clamped.divisor by decide +kernel
      finer := show 1 ≤ (Relief.Plan.standard : Relief.Plan ℚ).clamped.lacunarity by decide +kernel
      near := by
        show ((64 : Int) : ℚ) / 2 / (Relief.Plan.standard : Relief.Plan ℚ).clamped.divisor *
          (Relief.Plan.standard : Relief.Plan ℚ).clamped.lacunarity ^ 4 + (Relief.Plan.reach + max |(0.0 : ℚ)| |(0.0 : ℚ)|) <
            Relief.farthest
        decide +kernel }
  obtain ⟨m, hm⟩ := Relief.noiseMap_ok (show (0 : Int) < 64 by decide) (show (0 : Int) < 64 by decide) (by decide)
    (hcovers.staysOnLattice le_rfl le_rfl)
  unfold Config.heights
  rw [hplan, hwidth, hheight, hm]
  cases c.useRelief
  · exact ⟨none, rfl⟩
  · exact ⟨some m, rfl⟩

section

variable (seed : Int) (useRelief : Bool) (level : String) (delay : ℚ) (builds ticks : Int)

/-- what a generation of a city is told on the command line -/
def cityConfig : Config ℚ := (Config.asked "city" seed useRelief level).onRequest delay ticks

theorem sane_cityConfig {seed : Int} (hseed : seed ≠ 0) {nesting : Nat} (hnesting : 10 ≤ nesting) :
    (cityConfig seed useRelief level delay ticks).Sane nesting where
  grammar := rfl
  seed := hseed
  floors := show City.Drawable 6 from ⟨by decide, by decide +kernel⟩
  deep := le_trans (show Rounding.toBits 53 6 + 4 ≤ 10 by decide +kernel) hnesting
  delay h := absurd h Bool.false_ne_true
  tickRate := show ¬ (0.05 : ℚ) < Scalar.zero by decide +kernel
  heights := heights_ok rfl rfl rfl

/-- the ticks of a generation: those that its delay takes, and one at least -/
def ticksTaken : Nat := if 1 ≤ builds then max 1 ⌈20 * delay⌉₊ else 1

/-- what all requests of a generation come to -/
theorem settles_builds (hdelay : 0 ≤ delay) : ∃ m : Machine ℚ,
    Machine.Settles (cityConfig seed useRelief level delay ticks).tickRate (ticksTaken delay builds)
      { Machine.idle seed with queue := List.replicate builds.toNat ⟨delay, none⟩ } m ∧
      m.content = if 1 ≤ builds then some seed else none := by
  have hrate : (cityConfig seed useRelief level delay ticks).tickRate = 1 / 20 :=
    show (0.05 : ℚ) = 1 / 20 by decide +kernel
  rw [hrate, ticksTaken]
  by_cases hbuilds : 1 ≤ builds
  · obtain ⟨n, hn⟩ : ∃ n, builds.toNat = n + 1 := ⟨builds.toNat - 1, by omega⟩
    obtain ⟨m, hm, hcontent⟩ := Machine.settles_requests seed delay (show (0 : ℚ) < 1 / 20 by norm_num) hdelay n
    have hticks : Machine.ticksFor (1 / 20) delay = max 1 ⌈20 * delay⌉₊ := by
      rw [Machine.ticksFor, div_div_eq_mul_div, div_one, mul_comm]
    rw [if_pos hbuilds, if_pos hbuilds, hn, ← hticks]
    exact ⟨m, hm, hcontent⟩
  · have hnone : builds.toNat = 0 := by omega
    rw [if_neg hbuilds, if_neg hbuilds, hnone]
    exact ⟨_, Machine.settles_idle seed (1 / 20), rfl⟩

/-- **The headless command.** For every seed but zero and every delay that does not go back, whatever else it is told, a
generation of a city ends after as many ticks as its delay takes, one at least, and after one if nothing is to be built.
It warns once if its budget is spent before the last tick, and never otherwise. It prints the outline of its root as it
stands in the end. And that is what any other generation from the seed prints to the same depth, with a height map if and
only if it has one, and with anything to be built if and only if it has: one that builds once without a delay, for
example. -/
theorem generate_settles {nesting : Nat} (hnesting : 10 ≤ nesting) (spare : Nat) {seed : Int} (hseed : seed ≠ 0)
    (useRelief : Bool) {delay : ℚ} (hdelay : 0 ≤ delay) (builds ticks depth : Int) (level : String) (entropy : Entropy)
    {patience : Nat} (hpatience : ticksTaken delay builds ≤ patience) :
    let g := Catalogue.cityGrammar nesting spare
    let c := cityConfig seed useRelief level delay ticks
    ∃ lines v, (generate c builds depth patience).run g (blank c entropy) = .ok lines v ∧
      (∃ l, v.desk.loop = some l ∧ l.tick = ticksTaken delay builds) ∧
      v.told = (if 1 ≤ ticks ∧ ticks < ticksTaken delay builds then [.budgetSpent ticks 1] else []) ∧
      (∃ n, v.homeOf 0 = some n ∧ lines = v.outline n depth) ∧
      ∀ (delay' : ℚ) (builds' ticks' : Int) (level' : String) (entropy' : Entropy) (patience' : Nat), 0 ≤ delay' →
        (1 ≤ builds' ↔ 1 ≤ builds) → ticksTaken delay' builds' ≤ patience' →
        let c' := cityConfig seed useRelief level' delay' ticks'
        ∃ v', (generate c' builds' depth patience').run g (blank c' entropy') = .ok lines v' := by
  intro g c
  have hzero {d : ℚ} (hd : 0 ≤ d) : ¬ d < Scalar.zero := by
    rw [show (Scalar.zero : ℚ) = 0 from Int.cast_zero]
    exact not_lt.2 hd
  have hc : c.Sane nesting := sane_cityConfig useRelief level delay ticks hseed hnesting
  obtain ⟨heights, hheights⟩ := hc.heights
  obtain ⟨m, hm, hcontent⟩ := settles_builds seed useRelief level delay builds ticks hdelay
  obtain ⟨v, hv, h⟩ := run_generate hc spare rfl (hzero hdelay) rfl hheights hm hpatience depth entropy
  obtain ⟨l, hl, -, -, htick, -⟩ := h.follows.loop
  refine ⟨_, _, hv, ⟨l, hl, htick.trans (hm.tick.trans (Nat.zero_add _))⟩, ?_, ?_, ?_⟩
  · refine (h.singleRoot.engine.told : v.told = _).trans (if_congr ?_ rfl rfl)
    push_cast
    omega
  · exact ⟨1, h.follows.tracks.home, outline_congr { v with live := false } v rfl rfl 1 depth⟩
  · intro delay' builds' ticks' level' entropy' patience' hdelay' hbuilds hpatience' c'
    -- the other generation is of the same root
    have hc' : c'.Sane nesting := sane_cityConfig useRelief level' delay' ticks' hseed hnesting
    obtain ⟨m', hm', hcontent'⟩ := settles_builds seed useRelief level' delay' builds' ticks' hdelay'
    obtain ⟨v', hv', h'⟩ := run_generate hc' spare rfl (hzero hdelay') rfl (show c'.heights = .ok heights from hheights)
      hm' hpatience' depth entropy'
    have hsame : m'.content = m.content := hcontent'.trans ((if_congr hbuilds rfl rfl).trans hcontent.symm)
    have hlines : v'.outline 1 depth = v.outline 1 depth :=
      Tracks.outline_eq h'.follows.tracks h.follows.tracks hsame depth
    exact ⟨_, hlines ▸ hv'⟩

/-- two builds after two seconds: the budget of twenty ticks is spent half way -/
theorem generate_settles_late :
    let g := Catalogue.cityGrammar 10 0
    let c := cityConfig 3 false "WARNING" 2 20
    ∃ lines v, (generate c 2 1 40).run g (blank c ⟨fun _ => 0, 0⟩) = .ok lines v ∧
      (∃ l, v.desk.loop = some l ∧ l.tick = 40) ∧ v.told = [.budgetSpent 20 1] ∧
      (∃ n, v.homeOf 0 = some n ∧ lines = v.outline n 1) ∧
      let c' := cityConfig 3 false "INFO" 0 0
      ∃ v', (generate c' 1 1 1).run g (blank c' ⟨fun _ => 1, 0⟩) = .ok lines v' := by
  have hlate : ticksTaken 2 2 = 40 := by
    have hceil : ⌈(20 * 2 : ℚ)⌉₊ = 40 := by
      rw [show (20 * 2 : ℚ) = ((40 : Nat) : ℚ) by norm_num, Nat.ceil_natCast]
    rw [ticksTaken, if_pos (by decide), hceil]
    rfl
  have hone : ticksTaken 0 1 = 1 := by simp [ticksTaken]
  obtain ⟨lines, v, hv, htick, htold, houtline, hsame⟩ := generate_settles le_rfl 0 (show (3 : Int) ≠ 0 by decide) false
    (show (0 : ℚ) ≤ 2 by norm_num) 2 20 1 "WARNING" ⟨fun _ => 0, 0⟩ hlate.le
  rw [hlate] at htick htold
  exact ⟨lines, v, hv, htick, htold, houtline, hsame 0 1 0 "INFO" ⟨fun _ => 1, 0⟩ 1 le_rfl (by decide) hone.le⟩

end

end Command

end SceneGrammar

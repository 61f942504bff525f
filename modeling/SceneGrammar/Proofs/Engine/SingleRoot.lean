/-
A world with one root, which draws from a source of its own.

`SingleRoot S ok log w`: the root `S` lives, all symbols have its key, and a trigger and a loop stand around it;
nobody listens, and nothing but troubles of teardowns and `log` has been told. Seeds in force and seeds asked for pass `ok`.
Whatever is drawn then comes from the root's source (`SingleRoot.sourceOf`).

`KeptByEngine S ok log R` says of a relation of two such worlds that all changes an engine makes keep it. Two relations are
so: equality, which says that a single root stays one (`keptByEngine_itself`); and, as long as no seed is zero, to differ in
nothing that a scene heeds, since no draw then touches the keys to come (`keptByEngine_singleRootEq`).
-/
import SceneGrammar.Proofs.Descent
import SceneGrammar.Proofs.Engine.Ticks
import SceneGrammar.Proofs.Growth.Congruence

namespace SceneGrammar

variable {α κ σ β : Type}

/-! ## Draws -/

namespace RandomSource

@[simp] theorem reset_seed (r : RandomSource) (e : Entropy) : (r.reset e).1.seed = r.seed := by
  unfold reset
  split_ifs <;> rfl

@[simp] theorem next_seed (r : RandomSource) (e : Entropy) : (r.next e).2.1.seed = r.seed := by
  unfold next
  cases r.key with
  | none => exact reset_seed r e
  | some key => rfl

theorem reset_keys {r : RandomSource} (h : r.seed ≠ 0) (e e' : Entropy) : r.reset e' = ((r.reset e).1, e') := by
  simp only [reset, if_neg h]

theorem next_keys {r : RandomSource} (h : r.seed ≠ 0) (e e' : Entropy) :
    r.next e' = ((r.next e).1, (r.next e).2.1, e') := by
  unfold next
  cases r.key with
  | none => simp only [reset, if_neg h]
  | some key => rfl

/-- what a source answers to something, the source afterwards, and the keys that are left -/
abbrev Answer (α β : Type) : Type := Except (Fault α) β × RandomSource × Entropy

/-- something is done to a source that keeps its seed within `ok`; it takes no key unless that allows a seed of zero -/
structure Draw (ok : Int → Prop) (f : RandomSource → Entropy → Answer α β) : Prop where
  seed : ∀ r e, ok r.seed → ok (f r e).2.1.seed
  keys : ¬ ok 0 → ∀ r e e', ok r.seed → f r e' = ((f r e).1, (f r e).2.1, e')

/-- an integer of a range -/
def integer (low high : Int) (r : RandomSource) (e : Entropy) : Answer α Int :=
  ((r.nextInt low high e).1.mapError .range, (r.nextInt low high e).2)

/-- a fraction -/
def fractional (r : RandomSource) (e : Entropy) : Answer α Nat := (.ok (r.next e).1, (r.next e).2)

/-- another start, under another seed if one is given -/
def restart (seed : Option Int) (r : RandomSource) (e : Entropy) : Answer α Unit :=
  (.ok (), { r with seed := seed.getD r.seed }.reset e)

section

variable {ok : Int → Prop}

theorem ne_of_ok (h : ¬ ok 0) {seed : Int} (hs : ok seed) : seed ≠ 0 := fun hz => h (hz ▸ hs)

theorem draw_integer (low high : Int) : Draw ok (integer low high : RandomSource → Entropy → Answer α Int) where
  seed r e h := by
    unfold integer nextInt
    split_ifs
    · exact h
    · simpa using h
  keys h0 r e e' h := by
    unfold integer nextInt
    split_ifs
    · rfl
    · simp only [next_keys (ne_of_ok h0 h) e e']

theorem draw_fractional : Draw ok (fractional : RandomSource → Entropy → Answer α Nat) where
  seed r e h := by simpa [fractional] using h
  keys h0 r e e' h := by simp only [fractional, next_keys (ne_of_ok h0 h) e e']

theorem draw_restart {seed : Option Int} (hs : ∀ x, seed = some x → ok x) :
    Draw ok (restart seed : RandomSource → Entropy → Answer α Unit) := by
  have hseed (r : RandomSource) (h : ok r.seed) : ok (seed.getD r.seed) := by
    cases seed with
    | none => exact h
    | some x => exact hs x rfl
  refine ⟨fun r e h => ?_, fun h0 r e e' h => ?_⟩
  · simpa [restart] using hseed r h
  · have hne : ({ r with seed := seed.getD r.seed } : RandomSource).seed ≠ 0 := ne_of_ok h0 (hseed r h)
    simp only [restart, reset_keys hne e e']

end

end RandomSource

/-- a seed that is asked for is within `ok` -/
def Request.Meets (ok : Int → Prop) (r : Request α) : Prop := ∀ seed, r.seed = some seed → ok seed

open RandomSource

namespace World

/-- the end of an act that a source has answered -/
def answered (i : SourceId) (w : World α κ σ) : Answer α β → EStateM.Result (Fault α) (World α κ σ) β
  | (.ok x, r, e) => .ok x (w.setSource i r e)
  | (.error x, r, e) => .error x (w.setSource i r e)

section

variable {w : World α κ σ} {i : SourceId} {r : RandomSource}

theorem randomInt_eq [SymbolKind κ] {s : ShapeId} (hs : w.sourceOf s = .ok i) (hr : w.sources[i]? = some r)
    (low high : Int) : randomInt s low high w = answered i w (integer low high r w.entropy) := by
  simp only [randomInt, hs, hr, integer]
  rcases r.nextInt low high w.entropy with ⟨x | x, r', e⟩ <;> rfl

theorem randomFraction_eq [SymbolKind κ] {s : ShapeId} (hs : w.sourceOf s = .ok i) (hr : w.sources[i]? = some r) :
    randomFraction s w = answered i w (fractional r w.entropy) := by
  simp only [randomFraction, hs, hr]
  rfl

theorem reseed_answered (hr : w.sources[i]? = some r) (seed : Option Int) :
    reseed i seed w = answered i w (restart seed r w.entropy) := by
  simp only [reseed, hr]
  cases seed <;> rfl

end

/-! ## The invariant -/

/-- what stands around a root -/
structure RootEngine (S : RootData α κ) (ok : Int → Prop) (log : List Warning) (x : Surroundings α σ) : Prop where
  source : ∃ r, x.sources[S.source]? = some r ∧ ok r.seed
  trigger : ∃ t, x.desk.triggers[S.trigger]? = some t ∧ t.root = S.shape ∧ t.source = some S.source
  loop : ∃ l, x.desk.loop = some l ∧ l.trigger = S.trigger ∧ ∀ r ∈ l.requests, r.Meets ok
  quiet : x.listeners = []
  told : x.told = log

/-- a world with one root, which draws from a source of its own -/
structure SingleRoot (S : RootData α κ) (ok : Int → Prop) (log : List Warning) (w : World α κ σ) : Prop where
  sound : w.Sound
  home : w.homeOf S.shape = some S.node
  alive : w.isAlive S.node = true
  key : ∀ s < w.shapes.size, w.rootKeyAt s = some S.node
  draws : firstSource? (w.componentsOf S.shape) = some S.source
  engine : RootEngine S ok log w.surroundings

section

variable {S : RootData α κ} {ok : Int → Prop} {log : List Warning} {w v : World α κ σ}

theorem SingleRoot.source (h : SingleRoot S ok log w) : ∃ r, w.sources[S.source]? = some r ∧ ok r.seed := h.engine.source

theorem SingleRoot.shapeAlive (h : SingleRoot S ok log w) : w.shapeAlive S.shape = true :=
  shapeAlive_iff.2 ⟨S.node, h.home, h.alive⟩

theorem SingleRoot.mono {ok' : Int → Prop} (h : SingleRoot S ok log w) (hok : ∀ seed, ok seed → ok' seed) :
    SingleRoot S ok' log w :=
  { h with
    engine :=
      { h.engine with
        source := by
          obtain ⟨r, hr, hseed⟩ := h.source
          exact ⟨r, hr, hok _ hseed⟩
        loop := by
          obtain ⟨l, hl, htrigger, hseeds⟩ := h.engine.loop
          exact ⟨l, hl, htrigger, fun r hr seed hs => hok seed (hseeds r hr seed hs)⟩ } }

/-- a living symbol draws from the root's source -/
theorem SingleRoot.sourceOf [SymbolKind κ] (h : SingleRoot S ok log w) {s : ShapeId} (hs : w.shapeAlive s = true) :
    w.sourceOf s = .ok S.source := by
  obtain ⟨n, hn, -⟩ := shapeAlive_iff.1 hs
  have hsource := (h.sound.resolves h.home h.alive (h.key s (lt_size_of_homeOf hn))).2.2.2
  rwa [sourceAt, h.draws] at hsource

/-- the scene changes, and the root and what stands around it stay -/
theorem SingleRoot.moved (h : SingleRoot S ok log w) (sound : v.Sound) (alive : v.isAlive S.node = true)
    (badge : ∀ s < w.shapes.size, v.badge s = w.badge s)
    (new : ∀ s, w.shapes.size ≤ s → s < v.shapes.size → v.rootKeyAt s = some S.node)
    (surroundings : v.surroundings = w.surroundings) : SingleRoot S ok log v where
  sound := sound
  home := (homeOf_of_badge (badge _ (lt_size_of_homeOf h.home))).trans h.home
  alive := alive
  key s hs := by
    by_cases hold : s < w.shapes.size
    · exact (rootKeyAt_of_badge (badge s hold)).trans (h.key s hold)
    · exact new s (not_lt.1 hold) hs
  draws := by
    rw [componentsOf_of_badge (badge _ (lt_size_of_homeOf h.home))]
    exact h.draws
  engine := surroundings ▸ h.engine

/-- no symbol comes -/
theorem SingleRoot.grown (h : SingleRoot S ok log w) (sound : v.Sound) (g : Grown w v)
    (size : v.shapes.size = w.shapes.size) (surroundings : v.surroundings = w.surroundings) : SingleRoot S ok log v :=
  h.moved sound (g.alive _ h.alive) g.badge (fun _ hle hlt => absurd (size ▸ hlt) (not_lt.2 hle)) surroundings

/-- the surroundings change, and the scene stays -/
theorem SingleRoot.withEngine (h : SingleRoot S ok log w) {sources : Array RandomSource} {entropy : Entropy} {live : Bool}
    {desk : Desk α} (f : RootEngine S ok log ({ w with sources, entropy, live, desk } : World α κ σ).surroundings) :
    SingleRoot S ok log { w with sources, entropy, live, desk } where
  sound := h.sound.elsewhere
  home := h.home
  alive := h.alive
  key := h.key
  draws := h.draws
  engine := f

/-! ## Changes of the scene -/

theorem SingleRoot.mark (h : SingleRoot S ok log w) (s : ShapeId) : SingleRoot S ok log (w.markExpanded s) :=
  h.grown ((markExpanded_steps w s).sound h.sound) (grown_markExpanded w s) (by simp [markExpanded, World.note, modifyShape])
    rfl

theorem SingleRoot.finish (h : SingleRoot S ok log w) (e : Entry) : SingleRoot S ok log (w.note e) :=
  h.grown (h.sound.note e) (grown_note w e) rfl rfl

theorem SingleRoot.agenda (h : SingleRoot S ok log w) {a : Agenda α} (ha : Sound { w with agenda := a }) :
    SingleRoot S ok log { w with agenda := a } :=
  h.grown ha (.of_nodes rfl rfl fun _ => rfl) rfl rfl

theorem SingleRoot.spawn [Scalar α] [SymbolKind κ] (h : SingleRoot S ok log w) {s : ShapeId} (hs : w.shapeAlive s = true)
    (template : TemplateRef α) (pose : Pose α) :
    SingleRoot S ok log ((World.spawn s template none pose).after w) := by
  obtain ⟨hg, hsize⟩ := spawn_grown hs (rfl : w.knows none = true) template pose
  exact h.grown ((spawn_steps hs rfl template pose).sound h.sound) hg hsize (spawn_secluded s template none pose w)

variable [SymbolKind κ]

theorem SingleRoot.place (h : SingleRoot S ok log w) {creator : ShapeId} {parent : Option NodeId}
    (hc : w.shapeAlive creator = true) (hk : w.knows parent = true) (offer : KindOffer κ) (name : String) (pose : Pose α) :
    SingleRoot S ok log ((placeSymbol creator offer name parent pose).after w) := by
  have hsound := (placeSymbol_steps hc hk offer name pose).sound h.sound
  have hg := placeSymbol_grown hc hk offer name pose
  refine h.moved hsound (hg.alive _ h.alive) hg.badge (fun s hle hlt => ?_) (placeSymbol_secluded creator offer name parent pose w)
  cases hr : placeSymbol creator offer name parent pose w with
  | ok t v =>
    -- the new symbol has the key of its creator
    rw [Act.after_ok hr] at hlt ⊢
    have p := placeSymbol_placed hc hk hr
    obtain ⟨own, hown, -⟩ := shapeAlive_iff.1 hc
    obtain rfl : s = t := by
      rw [p.last.2] at hlt
      exact (le_antisymm (Nat.le_of_lt_succ hlt) hle).trans p.last.1.symm
    rw [p.key own hown, h.key creator (lt_size_of_homeOf hown)]
    rfl
  | error e v =>
    rcases placeSymbol_cases creator offer name parent pose w with ⟨f, hf⟩ | ⟨_, _, _, _, _, _, _, hf⟩
    · rw [Act.after_error hf] at hlt
      exact absurd hlt (not_lt.2 hle)
    · rw [hr] at hf
      cases hf

theorem SingleRoot.delete (h : SingleRoot S ok log w) (s : ShapeId) :
    SingleRoot S ok log ((deleteGenerated s).after w) := by
  obtain ⟨v, d, c, hv, hf, -⟩ := deleteGenerated_killsFrom h.sound s
  -- whatever a symbol has generated is younger than the root
  have hroot : S.node ∉ d := by
    refine hf.notMem_of_lt h.sound.toTame fun g hg => ?_
    have hs : s < w.shapes.size := by
      by_contra hs
      simp [generatedBy, shape?_eq_none_iff.2 (not_lt.1 hs)] at hg
    obtain ⟨n, hn⟩ := h.sound.housed s hs
    exact (h.sound.key_le s n S.node hn (h.key s hs)).trans_lt (h.sound.newer s n hn g hg)
  have hsecluded := deleteGenerated_secluded s w
  rw [Act.after_ok hv] at hsecluded ⊢
  refine h.moved (h.sound.kills hf.toKills) ((hf.torn.isAlive _).2 ⟨h.alive, hroot⟩) (fun t _ => hf.torn.badge t)
    (fun t hle hlt => ?_) hsecluded
  exact absurd (hf.torn.sizes.2 ▸ hlt) (not_lt.2 hle)

/-! ## Changes of the surroundings -/

omit [SymbolKind κ]

theorem SingleRoot.relive (h : SingleRoot S ok log w) (live : Bool) : SingleRoot S ok log { w with live } :=
  h.withEngine ⟨h.engine.source, h.engine.trigger, h.engine.loop, h.engine.quiet, h.engine.told⟩

theorem SingleRoot.redesk (h : SingleRoot S ok log w) {desk : Desk α}
    (trigger : ∃ t, desk.triggers[S.trigger]? = some t ∧ t.root = S.shape ∧ t.source = some S.source)
    (loop : ∃ l, desk.loop = some l ∧ l.trigger = S.trigger ∧ ∀ r ∈ l.requests, r.Meets ok) :
    SingleRoot S ok log { w with desk } :=
  h.withEngine ⟨h.engine.source, trigger, loop, h.engine.quiet, h.engine.told⟩

theorem SingleRoot.setSource (h : SingleRoot S ok log w) {r : RandomSource} (hr : ok r.seed) (e : Entropy) :
    SingleRoot S ok log (w.setSource S.source r e) := by
  obtain ⟨r₀, hr₀, -⟩ := h.engine.source
  have hlt : S.source < w.sources.size := (Array.getElem?_eq_some_iff.1 hr₀).1
  have hsource : (w.sources.setIfInBounds S.source r)[S.source]? = some r := by
    rw [Array.getElem?_setIfInBounds_self, if_pos hlt]
  exact h.withEngine ⟨⟨r, hsource, hr⟩, h.engine.trigger, h.engine.loop, h.engine.quiet, h.engine.told⟩

/-- a warning of the budget -/
theorem SingleRoot.warn (h : SingleRoot S ok log w) (ticks : Int) (pending : Nat) :
    SingleRoot S ok (log ++ [.budgetSpent ticks pending]) (w.warn (.budgetSpent ticks pending)) where
  sound := h.sound.elsewhere
  home := h.home
  alive := h.alive
  key := h.key
  draws := h.draws
  engine :=
    { source := h.engine.source
      trigger := h.engine.trigger
      loop := h.engine.loop
      quiet := h.engine.quiet
      told := by
        have htold : w.told = log := h.engine.told
        show (w.warn _).told = _
        rw [← htold]
        simp [World.told, World.warn] }

theorem SingleRoot.answered (h : SingleRoot S ok log w) {f : RandomSource → Entropy → Answer α β} (hf : Draw ok f)
    {r : RandomSource} (hr : w.sources[S.source]? = some r) (e : Entropy) :
    SingleRoot S ok log (Act.after (World.answered S.source · (f r e)) w) := by
  obtain ⟨r₀, hr₀, hok⟩ := h.source
  obtain rfl : r₀ = r := Option.some.inj (hr₀.symm.trans hr)
  have hset := h.setSource (hf.seed r₀ e hok) (f r₀ e).2.2
  unfold Act.after
  generalize f r₀ e = a at hset ⊢
  rcases a with ⟨x | x, r, e⟩ <;> exact hset

/-! ## Relations that last -/

/-- two worlds of a single root that differ in listeners, log and keys to come alone -/
def SingleRootEq (S : RootData α κ) (ok : Int → Prop) (log : List Warning) (w v : World α κ σ) : Prop :=
  SingleRoot S ok log w ∧ MuteEq w v

variable {R : World α κ σ → World α κ σ → Prop}

variable [Scalar α] [SymbolKind κ]

/-- a relation of worlds of a single root that whatever an engine does keeps -/
structure KeptByEngine (S : RootData α κ) (ok : Int → Prop) (log : List Warning)
    (R : World α κ σ → World α κ σ → Prop) : Prop
    extends KeptByOperations R where
  singleRoot : ∀ {w v}, R w v → SingleRoot S ok log w
  terminal : ∀ {w v} s template pose, R w v → w.shapeAlive s = true →
    Alike R (World.spawn s template none pose w) (World.spawn s template none pose v)
  draw : ∀ {w v} {β : Type} {f : RandomSource → Entropy → Answer α β} {r}, R w v → Draw ok f →
    w.sources[S.source]? = some r →
    Alike R (answered S.source w (f r w.entropy)) (answered S.source v (f r v.entropy))
  relive : ∀ {w v} live, R w v → R { w with live } { v with live }
  redesk : ∀ {w v} desk, R w v → SingleRoot S ok log { w with desk } → R { w with desk } { v with desk }

theorem KeptByEngine.reseed (hR : KeptByEngine S ok log R) (h : R w v) {seed : Option Int}
    (hs : ∀ x, seed = some x → ok x) :
    Alike R (reseed S.source seed w) (reseed S.source seed v) := by
  obtain ⟨r, hr, -⟩ := (hR.singleRoot h).source
  rw [reseed_answered hr, reseed_answered ((hR.muteEq h).sources ▸ hr)]
  exact hR.draw h (draw_restart hs) hr

/-- what an engine keeps, whatever a recipe does keeps -/
theorem KeptByEngine.keptByRecipes (hR : KeptByEngine S ok log R) : KeptByRecipes R where
  toKeptByCreation := hR.toKeptByCreation
  integer s low high h hs := by
    obtain ⟨r, hr, -⟩ := (hR.singleRoot h).source
    have hi := (hR.singleRoot h).sourceOf hs
    rw [randomInt_eq hi hr, randomInt_eq (((hR.muteEq h).sourceOf s).trans hi) ((hR.muteEq h).sources ▸ hr)]
    exact hR.draw h (draw_integer low high) hr
  fraction s h hs := by
    obtain ⟨r, hr, -⟩ := (hR.singleRoot h).source
    have hi := (hR.singleRoot h).sourceOf hs
    rw [randomFraction_eq hi hr, randomFraction_eq (((hR.muteEq h).sourceOf s).trans hi) ((hR.muteEq h).sources ▸ hr)]
    exact hR.draw h draw_fractional hr
  terminal := hR.terminal

/-! ## The two relations -/

/-- a single root stays one -/
theorem keptByEngine_itself : KeptByEngine S ok log (Itself (SingleRoot (α := α) (κ := κ) (σ := σ) S ok log)) where
  toKeptByOperations := keptByOperations_itself (fun _ h => h.sound) (fun _ s h => h.mark s) (fun _ s h => h.finish _)
    (fun _ _ h ha => h.agenda ha) (fun _ offer name _ pose _ h hc hk => h.place hc hk offer name pose) fun s _ h => h.delete s
  singleRoot h := h.2
  terminal s template pose h hs := by
    rw [h.1]
    exact alike_itself.2 (h.2.spawn hs template pose)
  draw h hf hr := by
    rw [h.1]
    exact alike_itself.2 (h.2.answered hf hr _)
  relive live h := ⟨h.1 ▸ rfl, h.2.relive live⟩
  redesk desk h hd := ⟨h.1 ▸ rfl, hd⟩

/-- as long as no seed is zero, two such worlds go on differing in nothing that a scene heeds -/
theorem keptByEngine_singleRootEq (h0 : ¬ ok 0) :
    KeptByEngine S ok log (SingleRootEq (α := α) (κ := κ) (σ := σ) S ok log) where
  sound h := h.1.sound
  muteEq h := h.2
  mark s h := ⟨h.1.mark s, h.2.map (f := fun w => w.markExpanded s) fun _ => rfl⟩
  finish s h := ⟨h.1.finish _, h.2.map (f := fun w => w.note (.finished s)) fun _ => rfl⟩
  place creator offer name parent pose h hc hk :=
    (placeSymbol_muteEq creator offer name parent pose h.2).and (h.1.place hc hk offer name pose)
  agenda a h ha := ⟨h.1.agenda ha, h.2.map (f := fun w => { w with agenda := a }) fun _ => rfl⟩
  delete s h := (deleteGenerated_muteEq s h.2).and (h.1.delete s)
  singleRoot h := h.1
  terminal s template pose h hs := (spawn_muteEq s template none pose h.2).and (h.1.spawn hs template pose)
  draw {w v _ f r} h hf hr := by
    obtain ⟨r₀, hr₀, hok⟩ := h.1.source
    obtain rfl : r₀ = r := Option.some.inj (hr₀.symm.trans hr)
    have hset (r' : RandomSource) : MuteEq (w.setSource S.source r' w.entropy) (v.setSource S.source r' v.entropy) :=
      congrArg (fun u : World α κ σ => u.setSource S.source r' ⟨fun _ => 0, 0⟩) h.2
    refine Alike.and (a := fun u => World.answered S.source u (f r₀ w.entropy)) ?_ (h.1.answered hf hr _)
    rw [hf.keys h0 r₀ w.entropy v.entropy hok, hf.keys h0 r₀ w.entropy w.entropy hok]
    rcases (f r₀ w.entropy).1 with x | x <;> exact ⟨rfl, hset _⟩
  relive live h := ⟨h.1.relive live, h.2.map (f := fun w => { w with live }) fun _ => rfl⟩
  redesk desk h hd := ⟨hd, h.2.map (f := fun w => { w with desk }) fun _ => rfl⟩

end

end World

end SceneGrammar

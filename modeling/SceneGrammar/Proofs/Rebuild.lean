/-
A fixed seed rebuilds the same tree, whatever happened before.

`TriggerReady w t s i kind`: the trigger `t` is set up for the living start symbol `s` of this kind, whose random source is
`i`. `TriggerReady.build` says where a build leads: the content of `s` is deleted, its source starts again, and the rule
runs on a bare subtree. So nothing of the past is left but the templates, the eagerness and the height map of the root.

- `rebuild_same`: two builds under one seed, in any two reachable worlds, end alike and leave the same subtrees, node for
  node, and the same number of draws; only ids differ.
-/
import SceneGrammar.Binary64
import SceneGrammar.City
import SceneGrammar.Engine.Tick
import SceneGrammar.Proofs.Growth.Faces
import SceneGrammar.Proofs.Reachable

namespace SceneGrammar

/-- zero is equal to itself and not below itself -/
class LawfulZero (α : Type) [Scalar α] : Prop where
  beq_zero : ((Scalar.zero : α) == Scalar.zero) = true
  not_lt_zero : ¬ (Scalar.zero : α) < Scalar.zero

variable {α κ σ β γ : Type}

/-! ## Programs in sequence -/

theorem Prog.exec_bind [Scalar α] [SymbolKind κ] (spare : Nat) (expand : ShapeId → Act α κ σ Unit)
    (p : Prog α κ σ β) (f : β → Prog α κ σ γ) (w : World α κ σ) :
    (p.bind f).exec spare expand w = match p.exec spare expand w with
      | .ok x v => (f x).exec spare expand v
      | .error e v => .error e v := by
  induction p generalizing w with
  | done b => rfl
  | fail e => rfl
  | look g next ih => exact ih (g w) f w
  | perform o next ih =>
    simp only [Prog.bind, Prog.exec]
    cases World.perform spare expand o w with
    | error e v => rfl
    | ok x v => exact ih x f v
  | attempt body next _ ihn =>
    simp only [Prog.bind, Prog.exec]
    cases body.exec spare expand w with
    | error e v => exact ihn _ f v
    | ok x v => exact ihn _ f v

namespace World

/-- a trigger is set up for a living start symbol that draws from the trigger's source -/
structure TriggerReady (w : World α κ σ) (t : Nat) (s : ShapeId) (i : SourceId) (kind : κ) : Prop where
  trigger : ∃ x, w.desk.triggers[t]? = some x ∧ x.root = s ∧ x.source = some i
  shape : ∃ x, w.shape? s = some x ∧ x.kind = kind ∧ firstSource? x.components = some i
  start : ∃ n, w.homeOf s = some n ∧ w.rootKeyAt s = some n ∧ w.isAlive n = true
  known : i < w.sources.size

theorem Torn.shape_some {w v : World α κ σ} {d : List NodeId} {c : List ShapeId} (h : Torn w v d c) {s : ShapeId}
    {x : Shape α κ} (hx : w.shape? s = some x) : ∃ y, v.shape? s = some y ∧ y.kind = x.kind ∧ y.node = x.node ∧
      y.rootKey = x.rootKey ∧ y.components = x.components := by
  refine ⟨_, (h.shape s).trans (congrArg _ hx), ?_⟩
  by_cases hs : s ∈ c <;> simp [hs]

/-- a draw starts again -/
theorem Sound.setSource {w : World α κ σ} (h : Sound w) (i : SourceId) (r : RandomSource) (e : Entropy) :
    Sound (w.setSource i r e) := h.elsewhere

/-! ## Where a build leads -/

/-- a source is told a seed, or to start again under its own -/
theorem reseed_eq {w : World α κ σ} {i : SourceId} {r : RandomSource} (hr : w.sources[i]? = some r) {seed : Int} (hseed : seed ≠ 0)
    (told : Option Int) (htold : told.getD r.seed = seed) :
    reseed i told w = .ok () (w.setSource i ⟨seed, some (RandomSource.keyOf seed), 0⟩ w.entropy) := by
  unfold reseed
  rw [hr]
  cases told with
  | none =>
    obtain rfl : r.seed = seed := htold
    simp only [RandomSource.reset, if_neg hseed]
  | some x =>
    obtain rfl : x = seed := htold
    simp only [RandomSource.reseed, RandomSource.reset, if_neg hseed]

theorem TriggerReady.shapeAlive {w : World α κ σ} {t : Nat} {s : ShapeId} {i : SourceId} {kind : κ}
    (p : TriggerReady w t s i kind) : w.shapeAlive s = true := by
  obtain ⟨n, hn, -, hl⟩ := p.start
  exact shapeAlive_iff.2 ⟨n, hn, hl⟩

section

variable [Scalar α] [SymbolKind κ] {w : World α κ σ} {t : Nat} {s : ShapeId} {i : SourceId} {kind : κ}

/-- a build starts the source again and asks for an expansion; if that does not fail, the build is counted -/
theorem TriggerReady.build_eq (p : TriggerReady w t s i kind) (g : Grammar α κ σ) {r : RandomSource}
    (hr : w.sources[i]? = some r) {seed : Int} (hseed : seed ≠ 0) (told : Option Int)
    (htold : told.getD r.seed = seed) (delay : α) :
    (Engine.build t delay told).run g w =
      match generate (g.expandWithin g.nesting) s delay
          (w.setSource i ⟨seed, some (RandomSource.keyOf seed), 0⟩ w.entropy) with
      | .ok _ v => .ok () { v with desk := v.desk.mapTrigger t fun x => { x with builds := x.builds + 1 } }
      | .error e v => .error e v := by
  obtain ⟨x, hx, hroot, hsource⟩ := p.trigger
  have hprime : (Engine.prime x told).exec g.spare (g.expandWithin g.nesting) w =
      .ok () (w.setSource i ⟨seed, some (RandomSource.keyOf seed), 0⟩ w.entropy) := by
    unfold Engine.prime
    rw [hsource]
    simp only [Prog.act, Prog.exec, perform, reseed_eq hr hseed told htold]
  unfold Prog.run Engine.build Engine.trigger
  show (Prog.bind _ _).exec _ _ _ = _
  rw [Prog.exec_bind]
  simp only [Prog.ask, Prog.exec, hx]
  show (Prog.bind _ _).exec _ _ _ = _
  rw [Prog.exec_bind, hprime]
  show (Prog.bind _ _).exec _ _ _ = _
  rw [Prog.exec_bind, hroot]
  simp only [Prog.act, Prog.exec, perform]
  cases generate (g.expandWithin g.nesting) s delay
    (w.setSource i ⟨seed, some (RandomSource.keyOf seed), 0⟩ w.entropy) with
  | error e v => rfl
  | ok _ v => rfl

/-- what the subtree of a build is grown in -/
def growthContext (w : World α κ σ) (s : ShapeId) (kind : κ) (seed : Int) : GrowthContext α κ :=
  { kind, templates := w.templates, eager := w.eager, relief := firstRelief? (w.componentsOf s)
    key := RandomSource.keyOf seed }

/-- `v` is `w` without what the shape `s` has generated, and without the appointment of its node `n`, which is now `trunk` -/
structure Cleared (w v : World α κ σ) (s : ShapeId) (n : NodeId) (trunk : Node α) (dead : List NodeId) : Prop where
  node : (w.node? n).map (fun x => { x with children := x.children.filter (· ∉ dead) }) = some trunk
  hit : ∀ k ∈ w.generatedBy s, w.isAlive k = true → k ∈ dead
  agenda : v.agenda = ((w.cancelAll dead w.agenda).cancel n).2
  desk : v.desk = w.desk
  live : v.live = w.live

/-- a build deletes what the root has generated, drops its appointment, and starts its source again -/
theorem TriggerReady.build_cleared (p : TriggerReady w t s i kind) (h : Sound w) (g : Grammar α κ σ) {n : NodeId}
    (hn : w.homeOf s = some n) {r : RandomSource} (hr : w.sources[i]? = some r) {seed : Int} (hseed : seed ≠ 0)
    (told : Option Int) (htold : told.getD r.seed = seed) {delay : α} (hdelay : ¬ delay < Scalar.zero) :
    ∃ v trunk dead, Sound v ∧ Unexpanded v (w.growthContext s kind seed) s n trunk i seed ∧ Cleared w v s n trunk dead ∧
      (Engine.build t delay told).run g w =
        match (if delay == Scalar.zero || !v.live then runExpansion (g.expandWithin g.nesting) s v
          else schedule s delay v) with
        | .ok _ u => .ok () { u with desk := u.desk.mapTrigger t fun x => { x with builds := x.builds + 1 } }
        | .error e u => .error e u := by
  obtain ⟨x, hx, hkind, hi⟩ := p.shape
  obtain ⟨k, hk, hroot, hl⟩ := p.start
  obtain rfl : n = k := Option.some.inj (hn.symm.trans hk)
  have hxn : x.node = some n := by simpa [homeOf, hx] using hn
  have hxr : x.rootKey = some n := by simpa [rootKeyAt, hx] using hroot
  rw [p.build_eq g hr hseed told htold]
  generalize hw : w.setSource i ⟨seed, some (RandomSource.keyOf seed), 0⟩ w.entropy = v
  have hv : Sound v := hw ▸ h.setSource i _ _
  have hsv : v.shapeAlive s = true := hw ▸ p.shapeAlive
  obtain ⟨u, d, c, m, hf, hnil, hm, hgen⟩ :=
    @generate_eq α κ σ _ _ (g.expandWithin g.nesting) v hv s hsv delay hdelay
  obtain rfl : n = m := Option.some.inj (hn.symm.trans (by rw [← hm, ← hw]; rfl))
  obtain ⟨y, hy, hyk, hyn, hyr, hyc⟩ := hf.torn.shape_some (x := x) (by rw [← hw]; exact hx)
  have hsur : u.surroundings = v.surroundings := hf.torn.surroundings
  simp only [surroundings, Surroundings.mk.injEq] at hsur
  have hlu : u.isAlive n = true := by
    refine (hf.torn.isAlive n).2 ⟨by rw [← hw]; exact hl, ?_⟩
    exact hf.notMem_of_lt hv.toTame fun b hb => hv.newer s n hm b hb
  obtain ⟨trunk, htrunk, halive⟩ := isAlive_iff.1 hlu
  have hsound : Sound { u with agenda := (u.agenda.cancel n).2 } := (hv.kills hf.toKills).cancel n
  have hcleared : Cleared w { u with agenda := (u.agenda.cancel n).2 } s n trunk d := by
    have hn' : n ∉ d := fun hc => ((hf.torn.isAlive n).1 hlu).2 hc
    subst hw
    refine ⟨?_, fun k hk hlk => hf.hit k hk hlk, ?_, hsur.2.2.2.2.2.2.2.1, hsur.2.2.2.2.2.1⟩
    · have hnode := hf.torn.node n
      rw [htrunk] at hnode
      rw [hnode]
      simp only [if_neg hn']
      rfl
    · show (u.agenda.cancel n).2 = _
      rw [hf.torn.agenda]
      rfl
  refine ⟨_, trunk, d, hsound, ?_, hcleared, by rw [hgen]⟩
  refine ⟨⟨y, hy, hyk.trans hkind, hyn.trans hxn, hyr.trans hxr, hyc ▸ hi, ?_⟩, htrunk, halive, hnil, ?_, ?_, ?_⟩
  · rw [hyc, growthContext, componentsOf, hx]
    rfl
  · show u.sources[i]? = _
    rw [hsur.1, ← hw]
    simp [setSource, p.known, growthContext]
  · show u.templates = _
    rw [hsur.2.2.2.1, ← hw]
    rfl
  · show u.eager = _
    rw [hsur.2.2.2.2.1, ← hw]
    rfl

/-- **One build.** A build without delay does what the recipes do to a bare subtree. -/
theorem TriggerReady.build_grows [LawfulZero α] (p : TriggerReady w t s i kind) (h : Sound w) {g : Grammar α κ σ}
    {recipe : κ → Recipe α κ Unit} (hg : ∀ k q, g.rule k q = (recipe k).toProg q) {r : RandomSource}
    (hr : w.sources[i]? = some r) {seed : Int} (hseed : seed ≠ 0) (told : Option Int)
    (htold : told.getD r.seed = seed) :
    ∃ F : Placement α, F.rootShape = s ∧ F.source = i ∧
      Agrees F (w.growthContext s kind seed) Eq 0 ((Engine.build t Scalar.zero told).run g w)
        (Recipe.growWithin (w.growthContext s kind seed) recipe g.nesting none .bare) := by
  obtain ⟨n, hn, -⟩ := p.start
  obtain ⟨v, trunk, dead, hv, hf, -, hbuild⟩ := p.build_cleared h g hn hr hseed told htold LawfulZero.not_lt_zero
  simp only [LawfulZero.beq_zero, Bool.true_or, if_true] at hbuild
  rw [hbuild]
  rcases (hf.grows hg hv g.nesting).cases with ⟨a, z, b, Q, ha, hb, rfl, hQ, hle⟩ | ⟨e, z, Q, ha, hb, hQ, hle⟩
  · simp only [ha, hb]
    exact ⟨{ v.placement s n trunk i seed with live := z.live, agenda := z.agenda, desk := _ }, rfl, rfl, rfl, hQ.reset
      z.live z.agenda _, hle⟩
  · simp only [ha, hb]
    exact ⟨v.placement s n trunk i seed, rfl, rfl, rfl, hQ, hle⟩

end

end World

/-! ## Two builds -/

/-- two worlds show the same under two roots, and their sources have drawn as often -/
structure SameSubtrees (w : World α κ σ) (s : ShapeId) (i : SourceId) (v : World α κ σ) (r : ShapeId) (j : SourceId) :
    Prop where
  subtrees : w.subtrees s = v.subtrees r
  draws : ∃ k, (w.sources[i]?).map (·.draws) = some k ∧ (v.sources[j]?).map (·.draws) = some k

/-- two acts end with the same fault or both without one, and leave the same subtrees and draws -/
def SameEnd (s : ShapeId) (i : SourceId) (r : ShapeId) (j : SourceId) :
    EStateM.Result (Fault α) (World α κ σ) Unit → EStateM.Result (Fault α) (World α κ σ) Unit → Prop
  | .ok _ w, .ok _ v => SameSubtrees w s i v r j
  | .error e w, .error f v => e = f ∧ SameSubtrees w s i v r j
  | _, _ => False

theorem World.Represents.sameSubtrees {F G : Placement α} {ctx ctx' : GrowthContext α κ} {w v : World α κ σ}
    {P : Subtree α κ} (h : World.Represents F ctx w P) (k : World.Represents G ctx' v P) :
    SameSubtrees w F.rootShape F.source v G.rootShape G.source where
  subtrees := h.subtrees.trans k.subtrees.symm
  draws := by
    exact ⟨P.draws, by rw [h.source]; rfl, by rw [k.source]; rfl⟩

section

variable [Scalar α] [SymbolKind κ]

/-- **The same tree.** Let the rules of a grammar be recipes, and take any two reachable worlds with the same templates
and eagerness in which a trigger stands ready for a living root of the same kind whose source is the trigger's. If no
rule asks for the height map, or the roots carry the same, then builds under one seed other than zero end with the same
fault or both without one, and either way the same subtrees hang from the lists of the roots, face for face in walk
order, and the sources have drawn as often. -/
theorem rebuild_same [LawfulZero α] {g : Grammar α κ σ} {recipe : κ → Recipe α κ Unit}
    (hg : ∀ kind s, g.rule kind s = (recipe kind).toProg s) {w v : World α κ σ} (hw : Reachable w)
    (hv : Reachable v) {t u : Nat} {s r : ShapeId} {i j : SourceId} {kind : κ} (pw : w.TriggerReady t s i kind)
    (pv : v.TriggerReady u r j kind) (htemplates : w.templates = v.templates) (heager : w.eager = v.eager)
    (hrelief : (∀ k, (recipe k).Blind) ∨
      World.firstRelief? (w.componentsOf s) = World.firstRelief? (v.componentsOf r))
    {seed : Int} (hseed : seed ≠ 0) :
    SameEnd s i r j ((Engine.build t Scalar.zero (some seed)).run g w)
      ((Engine.build u Scalar.zero (some seed)).run g v) := by
  obtain ⟨x, hx⟩ : ∃ x, w.sources[i]? = some x := ⟨_, Array.getElem?_eq_getElem pw.known⟩
  obtain ⟨y, hy⟩ : ∃ y, v.sources[j]? = some y := ⟨_, Array.getElem?_eq_getElem pv.known⟩
  obtain ⟨F, rfl, rfl, hF⟩ := pw.build_grows hw.sound hg hx hseed (some seed) rfl
  obtain ⟨G, rfl, rfl, hG⟩ := pv.build_grows hv.sound hg hy hseed (some seed) rfl
  -- both builds do the same to a bare subtree
  have hgrow : Recipe.growWithin (w.growthContext F.rootShape kind seed) recipe g.nesting =
      Recipe.growWithin (v.growthContext G.rootShape kind seed) recipe g.nesting := by
    rcases hrelief with hblind | hsame
    · rw [← Recipe.growWithin_blind hblind (v.growthContext G.rootShape kind seed)
        (World.firstRelief? (w.componentsOf F.rootShape))]
      simp only [World.growthContext, htemplates, heager]
    · simp only [World.growthContext, htemplates, heager, hsame]
  rw [hgrow] at hF
  rcases hF.cases with ⟨a, w', b, P, ha, hb, -, hP, -⟩ | ⟨e, w', P, ha, hb, hP, -⟩
  · rcases hG.cases with ⟨c, v', d, Q, hc, hd, -, hQ, -⟩ | ⟨f, v', Q, hc, hd, hQ, -⟩
    · rw [hb] at hd
      obtain ⟨-, rfl⟩ := EStateM.Result.ok.inj hd
      rw [ha, hc]
      exact hP.sameSubtrees hQ
    · rw [hb] at hd
      exact absurd hd (by simp)
  · rcases hG.cases with ⟨c, v', d, Q, hc, hd, -, hQ, -⟩ | ⟨f, v', Q, hc, hd, hQ, -⟩
    · rw [hb] at hd
      exact absurd hd (by simp)
    · rw [hb] at hd
      obtain ⟨rfl, rfl⟩ := EStateM.Result.error.inj hd
      rw [ha, hc]
      exact ⟨rfl, hP.sameSubtrees hQ⟩

end

instance : LawfulZero Float := ⟨by decide, by decide⟩

/-- a roof grows a bud with a drawn number of leaves to come, and a bud a leaf -/
def sprout : City.Kind Float → Recipe Float (City.Kind Float) Unit
  | .roof => .integer 0 3 fun n => .symbol (.of (.building n)) "bud" .rest (.done ())
  | .building _ => .terminal (.inline (.plain "leaf" "")) .rest (.done ())
  | _ => .fail .noChoice

/-- the grammar of sprouts -/
def sprouting : Grammar Float (City.Kind Float) Unit :=
  { rule := fun kind s => (sprout kind).toProg s, nesting := 3, spare := 0 }

/-- a root with a source of its own and a trigger -/
def orderly : Prog Float (City.Kind Float) Unit Unit :=
  .perform (.newSource 7) fun i =>
    .perform (.createRoot (.of .roof) "root" none .rest (some i)) fun root =>
      .perform (.setDesk ⟨#[⟨root, some i, false, 0⟩], none⟩) .done

/-- the same after another root was made, with another seed, and with litter on the list of the root -/
def untidy : Prog Float (City.Kind Float) Unit Unit :=
  .perform (.createRoot (.of .roof) "other" none .rest none) fun _ =>
    .perform (.newSource 3) fun i =>
      .perform (.createRoot (.of .roof) "root" none .rest (some i)) fun root =>
        .perform (.createNode "litter" none .rest) fun n =>
          .perform (.track root n) fun _ => .perform (.setDesk ⟨#[⟨root, some i, false, 4⟩], none⟩) .done

/-- a build in a world where the root has litter on its list ends as in an orderly one -/
theorem rebuild_same_after_disorder :
    let w := (orderly.run sprouting).after (.fresh ⟨fun _ => 0, 0⟩ ())
    let v := (untidy.run sprouting).after (.fresh ⟨fun _ => 0, 0⟩ ())
    (w.liveNodes = [1] ∧ v.liveNodes = [1, 2, 3]) ∧ (5 : Int) ≠ 0 ∧
      SameEnd 0 1 1 1 ((Engine.build 0 Scalar.zero (some 5)).run sprouting w)
        ((Engine.build 0 Scalar.zero (some 5)).run sprouting v) := by
  intro w v
  have hw : orderly.Heeds sprouting (.fresh ⟨fun _ => 0, 0⟩ ()) :=
    Prog.heeds_perform (by decide +kernel) rfl <| Prog.heeds_perform (by decide +kernel) rfl <|
      Prog.heeds_perform (by decide +kernel) rfl rfl
  have hv : untidy.Heeds sprouting (.fresh ⟨fun _ => 0, 0⟩ ()) :=
    Prog.heeds_perform (by decide +kernel) rfl <| Prog.heeds_perform (by decide +kernel) rfl <|
      Prog.heeds_perform (by decide +kernel) rfl <| Prog.heeds_perform (by decide +kernel) rfl <|
        Prog.heeds_perform (by decide +kernel) rfl <| Prog.heeds_perform (by decide +kernel) rfl rfl
  have pw : w.TriggerReady 0 0 1 .roof :=
    { trigger := ⟨⟨0, some 1, false, 0⟩, by with_unfolding_all rfl, rfl, rfl⟩
      shape := ⟨⟨.roof, some 1, some 1, none, [.source 1], .uninitialized⟩, by with_unfolding_all rfl, rfl, rfl⟩
      start := ⟨1, by decide +kernel, by decide +kernel, by decide +kernel⟩
      known := by decide +kernel }
  have pv : v.TriggerReady 0 1 1 .roof :=
    { trigger := ⟨⟨1, some 1, false, 4⟩, by with_unfolding_all rfl, rfl, rfl⟩
      shape := ⟨⟨.roof, some 2, some 2, some [3], [.source 1], .uninitialized⟩, by with_unfolding_all rfl, rfl, rfl⟩
      start := ⟨2, by decide +kernel, by decide +kernel, by decide +kernel⟩
      known := by decide +kernel }
  have hblind (kind : City.Kind Float) : (sprout kind).Blind := by
    cases kind <;> simp [sprout, Recipe.Blind]
  refine ⟨⟨by decide +kernel, by decide +kernel⟩, by decide, ?_⟩
  exact rebuild_same (fun _ _ => rfl) (.run _ _ (.start (World.pristine_fresh _ _)) hw)
    (.run _ _ (.start (World.pristine_fresh _ _)) hv) pw pv (by with_unfolding_all rfl) (by decide +kernel)
    (.inl hblind) (by decide)

end SceneGrammar

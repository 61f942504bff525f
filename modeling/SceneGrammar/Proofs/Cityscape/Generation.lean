/-
The generation of a city.

`CityRoot put w plan s root`: in an eager world that has a city's templates, the living start symbol `s` of a city with
this plan stands on the node `root`. `Plan.Feasible` says which plans can be carried out at all: the floors of a building
can be drawn and nested, quarter turns have angles, and it is decided which lots are under water.

- `Reachable.generate_city`: whatever has happened before, a generation without delay then ends without a fault, and the
  list of the root shows one thing for each lot that is not under water, in order: a park or a block, down to the facades
  and roofs of all buildings. Over exact arithmetic the stacks of every building stand on top of one another.
- `city_unfinished`: with more floors than a draw can be scaled to, the first block of a city stays without buildings.
-/
import SceneGrammar.Proofs.Cityscape.Heights
import SceneGrammar.Proofs.Cityscape.Rules
import SceneGrammar.Proofs.Descent
import SceneGrammar.Proofs.Engine.Setup

namespace SceneGrammar

variable {α κ σ : Type}

/-! ## Plans -/

namespace City

variable [Scalar α]

/-- a plan that can be carried out on a height map, where rules may nest to a depth -/
structure Plan.Feasible (plan : Plan α) (relief : Option (HeightMap α)) (nesting : Nat) : Prop where
  floors : Drawable plan.maxFloors
  deep : plan.maxFloors.toNat + 4 ≤ nesting
  turning : World.Turning α
  water : ∀ x y : Nat, x < plan.blocksX.toNat → y < plan.blocksY.toNat → ∃ wet, isWater plan relief x y = .ok wet

/-- exact arithmetic decides about all lots, and has all quarter turns -/
theorem Plan.feasible_of_exact [ExactScalar α] {plan : Plan α} (hfloors : Drawable plan.maxFloors) {nesting : Nat}
    (hdeep : plan.maxFloors.toNat + 4 ≤ nesting) (relief : Option (HeightMap α)) : plan.Feasible relief nesting where
  floors := hfloors
  deep := hdeep
  turning _ h0 h4 := ExactScalar.turns h0 h4
  water _ _ hx hy := isWater_decided plan relief hx hy

end City

/-- the doubles have all quarter turns -/
theorem turning_float : World.Turning Float := by
  intro n h0 h4
  have hangle (a : Float) (h : (a * Binary64.radiansPerDegree * 0.5).isInf = false) : ∃ q, Scalar.halfAngle a = .ok q :=
    ⟨_, by show Binary64.halfAngle a = _; rw [Binary64.halfAngle, h]; rfl⟩
  have hquarter : ∀ k : Fin 4,
      (Scalar.ofInt 90 * Scalar.ofInt (k : Int) * Binary64.radiansPerDegree * 0.5 : Float).isInf = false := by
    decide +kernel
  obtain ⟨p, hp⟩ := hangle Scalar.zero (by decide +kernel)
  obtain ⟨k, rfl⟩ := Int.eq_ofNat_of_zero_le h0
  obtain ⟨q, hq⟩ := hangle _ (hquarter ⟨k, Int.ofNat_lt.1 h4⟩)
  unfold Quaternion.ofEuler
  rw [hp, hq]
  exact ⟨_, rfl⟩

instance [Scalar α] [ExactScalar α] : LawfulZero α := ⟨ExactScalar.beq_zero, ExactScalar.lt_irrefl _⟩

/-! ## Roots of cities -/

namespace World

section

variable [Scalar α] {put : City.Kind α → κ} {w v : World α κ σ} {plan : City.Plan α} {s : ShapeId} {root : NodeId}

/-- the living start symbol of a city, in an eager world that has the templates of a city -/
structure CityRoot (put : City.Kind α → κ) (w : World α κ σ) (plan : City.Plan α) (s : ShapeId) (root : NodeId) :
    Prop where
  kind : (w.shape? s).map (·.kind) = some (put (.city plan))
  home : w.homeOf s = some root
  key : w.rootKeyAt s = some root
  alive : w.isAlive root = true
  eager : w.eager = true
  library : Supplied w.templates

theorem CityRoot.host (h : CityRoot put w plan s root) : Host w.templates w s root := ⟨h.home, h.alive, h.eager, rfl⟩

variable [SymbolKind κ]

theorem CityRoot.reliefOf (h : CityRoot put w plan s root) (hs : Sound w) :
    w.reliefOf s = .ok (firstRelief? (w.componentsOf s)) := by
  have hself : w.rootOf s = .ok s := (hs.resolves h.home h.alive h.key).2.2.1
  rw [World.reliefOf, hself]
  rfl

/-- the rule of a city's root puts up its lots and takes what they take -/
theorem CityRoot.expands {g : Grammar α κ σ} (hg : ∀ kind s, g.rule (put kind) s = City.rule put kind s)
    (hs : Sound w) (hroot : CityRoot put w plan s root)
    (hplan : plan.Feasible (firstRelief? (w.componentsOf s)) g.nesting) :
    ∃ v lots, g.expandWithin g.nesting s w = .ok () v ∧
      Gains s root w v (lots.map City.Lot.node) (.total City.Lot.bill lots) ∧
      List.Forall₂ (v.LotOn put plan root) (City.dryLots plan (firstRelief? (w.componentsOf s))) lots := by
  obtain ⟨hfloors, hdeep, hturning, hwater⟩ := hplan
  obtain ⟨depth, hdepth⟩ : ∃ depth, g.nesting = depth + 1 := ⟨g.nesting - 1, by omega⟩
  obtain ⟨x, hx, hkind⟩ := Option.map_eq_some_iff.1 hroot.kind
  obtain ⟨_, v, hrun, lots, hgains, hlots⟩ := hroot.host.city hg hroot.library hturning hfloors rfl
    (show plan.maxFloors.toNat + 3 ≤ depth by omega) (hroot.reliefOf hs) hwater
  refine ⟨v, lots, ?_, hgains, hlots⟩
  rw [hdepth]
  simp only [Grammar.expandWithin, hx, hkind, hg]
  exact hrun

end

end World

open World City

section

variable [Scalar α]

theorem rule_cityGrammar (nesting spare : Nat) (kind : City.Kind α) (s : ShapeId) :
    (Catalogue.cityGrammar nesting spare : Grammar α (City.Kind α) Unit).rule (id kind) s = City.rule id kind s := rfl

/-- a library that the templates of a city have been merged into -/
theorem supplied_merge (l : TemplateLibrary α) : Supplied (l.merge City.templates) := by
  intro id hid
  have hnodup : (City.templates : TemplateLibrary α).order.Nodup := by
    rw [order_templates]
    decide
  obtain ⟨t, ht⟩ := find?_of_mem_order hid
  rw [TemplateLibrary.find?_merge l hnodup, ht, Option.some_or]

theorem reachable_ground (c : Config α) (heights : Option (HeightMap α)) (entropy : Entropy) :
    Reachable (Manager.ground c heights entropy) := by
  have hstart : Reachable { (World.fresh entropy () : World α (City.Kind α) Unit) with
      eager := c.eager, templates := City.library, sources := #[.ofSeed 0, .ofSeed c.seed] } :=
    .start (by constructor <;> rfl)
  let g : Grammar α (City.Kind α) Unit := Catalogue.cityGrammar 0 0
  have hrun : (Prog.act (.createRoot (.of (.city (.ofConfig c))) "City" none .rest (some 1))).run g
      { (World.fresh entropy () : World α (City.Kind α) Unit) with
        eager := c.eager, templates := City.library, sources := #[.ofSeed 0, .ofSeed c.seed] } =
      .ok (0 : Nat) (Manager.ground c none entropy) := (Prog.run_act _ _).trans (Manager.run_createRoot ..)
  have hroot := hstart.run g _
    (Prog.heeds_act (o := .createRoot (.of (.city (.ofConfig c))) "City" none .rest (some 1)) rfl rfl)
  rw [Act.after_ok hrun] at hroot
  have hset := hroot.run g _ (Prog.heeds_act (o := .setComponents 0 (Manager.belongings heights)) rfl rfl)
  rw [Act.after_ok (Prog.run_act _ _)] at hset
  rw [Manager.ground, ← Manager.founded_components]
  exact hset

/-- a configured root stands ready in an eager world -/
theorem cityRoot_ground {c : Config α} (heager : c.eager = true) (heights : Option (HeightMap α)) (entropy : Entropy) :
    CityRoot id (Manager.ground c heights entropy) (.ofConfig c) 0 1 where
  kind := rfl
  home := rfl
  key := rfl
  alive := rfl
  eager := heager
  library := by
    show Supplied City.library
    unfold City.library
    exact supplied_merge .empty

/-- its root stands upright -/
theorem uprightToRoot_ground (c : Config α) (heights : Option (HeightMap α)) (entropy : Entropy) :
    (Manager.ground c heights entropy).UprightToRoot 1 := by
  have hroot : (Manager.ground c heights entropy).node? 1 = some Manager.trunk := rfl
  refine .intro hroot Quaternion.upright_identity ?_ ?_ <;>
  · rintro p ⟨⟩

end

namespace World

/-! ## Before the rule runs -/

section

variable {w u v : World α κ σ} {s : ShapeId} {n : NodeId}

/-- `u` is `w` without what the shape `s` on the living node `n` has generated; the rest of the shape, and where `n` and
older nodes stand, is as it was -/
structure Bared (w u : World α κ σ) (s : ShapeId) (n : NodeId) : Prop where
  sound : Sound u
  bare : u.generatedBy s = []
  alive : u.isAlive n = true
  standing : ∀ m, u.isAlive m = true ↔ w.isAlive m = true ∧ ¬ ∃ k ∈ w.generatedBy s, Reach w k m
  kind : (u.shape? s).map (·.kind) = (w.shape? s).map (·.kind)
  badge : u.badge s = w.badge s
  surroundings : u.surroundings = w.surroundings
  unmoved : Unmoved n w u

/-- a generation without delay runs the rule of the shape once it has been bared -/
theorem generate_bared [Scalar α] [LawfulZero α] [SymbolKind κ] (expand : ShapeId → Act α κ σ Unit) (h : Sound w)
    (hs : w.homeOf s = some n) (hl : w.isAlive n = true) :
    ∃ u, Bared w u s n ∧ generate expand s Scalar.zero w = match expand s u with
      | .ok _ v => .ok () (v.note (.finished s))
      | .error e v => .error e v := by
  obtain ⟨v, dead, cleaned, k, hf, hbare, hk, hgen⟩ :=
    @generate_eq α κ σ _ _ expand w h s (shapeAlive_iff.2 ⟨n, hs, hl⟩) Scalar.zero LawfulZero.not_lt_zero
  obtain rfl : n = k := Option.some.inj (hs.symm.trans hk)
  simp only [LawfulZero.beq_zero, Bool.true_or, if_true] at hgen
  have hsafe : ∀ m ≤ n, m ∉ dead := fun m hm =>
    hf.notMem_of_lt h.toTame fun b hb => hm.trans_lt (h.newer s n hs b hb)
  have hshape : ({ v with agenda := (v.agenda.cancel n).2 }.markExpanded s).shape? s =
      (v.shape? s).map fun x => { x with state := .expanded } := (shape?_modifyShape _ _ _ _).trans (if_pos rfl)
  refine ⟨_, ⟨(markExpanded_steps _ s).sound ((h.kills hf.toKills).cancel n), ?_,
    (hf.torn.isAlive n).2 ⟨hl, hsafe n le_rfl⟩, fun m => ?_, ?_, ?_, hf.torn.surroundings, fun m hm x hx => ?_⟩, hgen⟩
  · refine Eq.trans ?_ hbare
    rw [generatedBy, hshape, generatedBy]
    cases v.shape? s <;> rfl
  · exact (hf.torn.isAlive m).trans (and_congr_right fun _ => not_congr (hf.mem_dead_iff m))
  · rw [hshape, hf.torn.shape, Option.map_map, Option.map_map]
    refine congrArg (Option.map · (w.shape? s)) (funext fun x => ?_)
    by_cases hc : s ∈ cleaned <;> simp [hc]
  · refine Eq.trans ?_ (hf.torn.badge s)
    rw [World.badge, hshape, World.badge]
    cases v.shape? s <;> rfl
  · refine ⟨_, (hf.torn.node m).trans (congrArg _ hx), ?_, rfl⟩
    simp [hsafe m hm]

theorem CityRoot.bared [Scalar α] {put : City.Kind α → κ} {plan : City.Plan α} (h : CityRoot put w plan s n)
    (hb : Bared w u s n) : CityRoot put u plan s n where
  kind := hb.kind.trans h.kind
  home := (homeOf_of_badge hb.badge).trans h.home
  key := (rootKeyAt_of_badge hb.badge).trans h.key
  alive := hb.alive
  eager := (congrArg Surroundings.eager hb.surroundings).trans h.eager
  library := by
    rw [show u.templates = w.templates from congrArg Surroundings.templates hb.surroundings]
    exact h.library

end

end World

/-! ## The generation -/

section

variable [Scalar α] [LawfulZero α] [SymbolKind κ] {put : City.Kind α → κ} {w : World α κ σ} {plan : City.Plan α}
  {s : ShapeId} {root : NodeId}

/-- **A city.** Let the rules of a grammar be those of a city, and let the start symbol of a city stand ready in a
reachable world, with a plan that can be carried out. Then a generation without delay ends without a fault. The list of
the root shows one thing for each lot that is not under water, column by column: a park, or a block with one to four
buildings on the first slots, each of one floor at least and no more than there may be, with a facade for each floor and
one roof on top. And if sums and products are exact, and the root is turned about the vertical only, the stacks of each
building stand three units above one another, and the roof on the last, however the building is turned. -/
theorem Reachable.generate_city {g : Grammar α κ σ}
    (hg : ∀ kind s, g.rule (put kind) s = City.rule put kind s) (h : Reachable w) (hroot : CityRoot put w plan s root)
    (hplan : plan.Feasible (firstRelief? (w.componentsOf s)) g.nesting) :
    ∃ v lots, (Prog.act (.generate s Scalar.zero)).run g w = .ok () v ∧
      v.CityOn put plan (firstRelief? (w.componentsOf s)) s root lots ∧
      (RingScalar α → w.UprightToRoot root → ∀ lot ∈ lots, ∀ house ∈ lot.houses, v.Level house) := by
  obtain ⟨hfloors, hdeep, hturning, hwater⟩ := hplan
  obtain ⟨depth, hdepth⟩ : ∃ depth, g.nesting = depth + 1 := ⟨g.nesting - 1, by omega⟩
  obtain ⟨u, hu, hgen⟩ := generate_bared (g.expandWithin g.nesting) h.sound hroot.home hroot.alive
  have huroot := hroot.bared hu
  obtain ⟨x, hx, hkind⟩ := Option.map_eq_some_iff.1 huroot.kind
  have hrelief := huroot.reliefOf hu.sound
  rw [componentsOf_of_badge hu.badge] at hrelief
  -- the rule runs on the bared root
  obtain ⟨_, v, hrun, lots, hgains, hlots⟩ := huroot.host.city hg huroot.library hturning hfloors rfl
    (show plan.maxFloors.toNat + 3 ≤ depth by omega) hrelief hwater
  have hexpand : g.expandWithin g.nesting s u = .ok () v := by
    rw [hdepth]
    simp only [Grammar.expandWithin, hx, hkind, hg]
    exact hrun
  have hcity : (v.note (.finished s)).CityOn put plan (firstRelief? (w.componentsOf s)) s root lots := by
    refine ⟨?_, hlots.imp fun place lot hlot => hlot.upheld le_rfl ⟨fun _ _ _ hx => hx, fun _ _ _ hx _ _ => hx⟩⟩
    refine (hgains.generatedBy (lt_size_of_homeOf huroot.home)).trans ?_
    rw [hu.bare, List.nil_append]
  refine ⟨v.note (.finished s), lots, ?_, hcity, fun _ hupright => ?_⟩
  · rw [Prog.run_act]
    show generate _ s Scalar.zero w = _
    rw [hgen, hexpand]
  · exact hcity.level ((hupright.unmoved hu.unmoved).unmoved hgains.unmoved)

end

variable [Scalar α]

/-- **The standard city** with its sixteen lots, over the reals and over the doubles. -/
theorem generate_city_standard :
    (let w : World ℝ (City.Kind ℝ) Unit := Manager.ground .standard none ⟨fun _ => 0, 0⟩
      ∃ v lots, (Prog.act (.generate 0 Scalar.zero)).run (Catalogue.cityGrammar 10 0) w = .ok () v ∧
        v.CityOn id (.ofConfig .standard) none 0 1 lots ∧ lots.length = 16 ∧
        ∀ lot ∈ lots, ∀ house ∈ lot.houses, v.Level house) ∧
    (let w : World Float (City.Kind Float) Unit := Manager.ground .standard none ⟨fun _ => 0, 0⟩
      ∃ v lots, (Prog.act (.generate 0 Scalar.zero)).run (Catalogue.cityGrammar 10 0) w = .ok () v ∧
        v.CityOn id (.ofConfig .standard) none 0 1 lots ∧ lots.length = 16) := by
  have hfloors : Drawable 6 := ⟨by decide, by decide +kernel⟩
  have hdeep : Int.toNat 6 + 4 ≤ 10 := by decide
  constructor
  · have hplan : (City.Plan.ofConfig .standard : City.Plan ℝ).Feasible none 10 :=
      City.Plan.feasible_of_exact hfloors hdeep none
    obtain ⟨v, lots, hrun, hcity, hlevel⟩ := Reachable.generate_city (rule_cityGrammar 10 0)
      (reachable_ground .standard none _) (cityRoot_ground rfl none _) hplan
    refine ⟨v, lots, hrun, hcity, ?_, hlevel inferInstance (uprightToRoot_ground _ _ _)⟩
    rw [← hcity.lots.length_eq]
    rfl
  · have hplan : (City.Plan.ofConfig .standard : City.Plan Float).Feasible none 10 :=
      ⟨hfloors, hdeep, turning_float, fun _ _ _ _ => ⟨false, rfl⟩⟩
    obtain ⟨v, lots, hrun, hcity, -⟩ := Reachable.generate_city (rule_cityGrammar 10 0)
      (reachable_ground .standard none _) (cityRoot_ground rfl none _) hplan
    refine ⟨v, lots, hrun, hcity, ?_⟩
    rw [← hcity.lots.length_eq]
    rfl

/-! ## A city that is not finished -/

/-- the node 2 is all there is on the list of the root; it is no terminal, and has no children -/
def bareBlock (w : World α (City.Kind α) Unit) : Bool :=
  w.generatedBy 0 == [2] && (w.node? 2).any fun x => x.children.isEmpty && x.template.isNone

/-- on a lot there is a terminal, or a block with buildings -/
theorem not_cityOn_of_bareBlock {w : World α (City.Kind α) Unit} (h : bareBlock w = true) (plan : City.Plan α)
    (relief : Option (HeightMap α)) (lots : List Lot) : ¬ w.CityOn id plan relief 0 1 lots := by
  rintro ⟨hlist, hlots⟩
  rw [bareBlock, Bool.and_eq_true, Option.any_eq_true] at h
  obtain ⟨hone, x, hx, hbare⟩ := h
  simp only [Bool.and_eq_true, List.isEmpty_iff, Option.isNone_iff_eq_none] at hbare
  obtain ⟨lot, rfl, hnode⟩ := List.map_eq_singleton_iff.1 (hlist.symm.trans (eq_of_beq hone))
  obtain ⟨place, hlot⟩ := exists_of_forall₂ hlots lot (List.mem_singleton_self lot)
  cases lot with
  | park n =>
    obtain rfl : n = 2 := hnode
    obtain ⟨⟨_, _, _, _, _⟩, ht⟩ := hlot
    have hcopy := ht.copy
    rw [Copied, hx] at hcopy
    have htemplate := congrArg Node.template (Option.some.inj hcopy.1)
    rw [hbare.2] at htemplate
    cases htemplate
  | block n houses =>
    obtain rfl : n = 2 := hnode
    obtain ⟨⟨-, s, key, hn, -⟩, ⟨hcount, -⟩, -⟩ := hlot
    rw [hx] at hn
    have hchildren := congrArg Node.children (Option.some.inj hn)
    rw [hbare.1] at hchildren
    rw [List.map_eq_nil_iff.1 hchildren.symm] at hcount
    exact absurd hcount (by decide)

/-- a run ends because a range is too wide, and leaves a block without buildings -/
def breaksOff (r : EStateM.Result (Fault α) (World α (City.Kind α) Unit) Unit) : Bool :=
  match r with
  | .error (.range .tooWide) w => bareBlock w
  | _ => false

omit [Scalar α] in
theorem exists_of_breaksOff {r : EStateM.Result (Fault α) (World α (City.Kind α) Unit) Unit} (h : breaksOff r = true) :
    ∃ w, r = .error (.range .tooWide) w ∧ bareBlock w = true := by
  unfold breaksOff at h
  split at h
  · exact ⟨_, rfl, h⟩
  · cases h

/-- one block, whose buildings may have more floors than a draw can be scaled to -/
def skyward : Config ℚ :=
  { Config.standard with blocksX := 1, blocksY := 1, emptyLotChance := 0, maxFloors := Nat.pow 2 1024 }

/-- **An unfinished city.** Buildings may have one floor at least, and yet a generation ends with a fault, and leaves a
block without buildings. -/
theorem city_unfinished :
    let w := Manager.ground skyward none ⟨fun _ => 0, 0⟩
    Reachable w ∧ CityRoot id w (.ofConfig skyward) 0 1 ∧ 1 ≤ (City.Plan.ofConfig skyward).maxFloors ∧
      ∃ v, (Prog.act (.generate 0 Scalar.zero)).run (Catalogue.cityGrammar 5000 100000) w = .error (.range .tooWide) v ∧
        ∀ lots, ¬ v.CityOn id (.ofConfig skyward) none 0 1 lots := by
  intro w
  have hend : breaksOff ((Prog.act (.generate 0 Scalar.zero)).run (Catalogue.cityGrammar 5000 100000) w) = true := by
    decide +kernel
  obtain ⟨v, hv, hbare⟩ := exists_of_breaksOff hend
  exact ⟨reachable_ground _ _ _, cityRoot_ground rfl _ _, by decide +kernel, v, hv, not_cityOn_of_bareBlock hbare _ _⟩

end SceneGrammar

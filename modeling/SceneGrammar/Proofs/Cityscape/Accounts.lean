/-
What a city costs.

Each symbol of a city draws a number of times that its place in the city tells: the root once for each lot that is not
under water, a block once for the number of its buildings and twice for each of them, a stack once and a roof once. And
each is one node, to which the templates add theirs. A generation draws on from where the source stands
(`CityRoot.generate_accounts`). A build starts the source again and takes away what the city was before, so that in the
end the source has counted the draws, and the registry the nodes, of this one city.

- `Reachable.build_city_accounts`: a build ends without a fault, and leaves a city and its exact account.
- `skyward_unaccounted`: a build that breaks off has drawn for buildings that are not there.
-/
import SceneGrammar.Proofs.Cityscape.Generation

namespace SceneGrammar

open World City

variable {α κ σ : Type}

/-- of a city's lots each is drawn for once, to tell a block from a park -/
theorem City.Lot.total_bill (lots : List Lot) :
    Bill.total Lot.bill lots = ⟨lots.length + (lots.map Lot.draws).sum, (lots.map Lot.size).sum⟩ := by
  ext
  · simp [Bill.total, Lot.bill, List.sum_map_add]
  · simp [Bill.total, Lot.bill]

namespace World

variable {w u v : World α κ σ} {s : ShapeId} {n : NodeId} {i : SourceId}

/-- a scene with one living node -/
theorem Sound.nodeCount_eq_one (h : Sound w) (hone : ∀ m, w.isAlive m = true ↔ m = n) : w.nodeCount = 1 := by
  have hperm : w.registry.Perm [n] := by
    refine (List.perm_ext_iff_of_nodup h.registry_nodup (List.nodup_singleton n)).2 fun m => ?_
    rw [h.registered, hone, List.mem_singleton]
  exact hperm.length_eq

/-- a start symbol draws from its own source, also when it has been bared -/
theorem Bared.drawsFrom (hb : Bared w u s n) (hn : w.homeOf s = some n) (hkey : w.rootKeyAt s = some n)
    (hi : firstSource? (w.componentsOf s) = some i) : u.DrawsFrom s i := by
  refine ⟨n, s, (rootKeyAt_of_badge hb.badge).trans hkey, le_size_of_isAlive hb.alive, ?_, ?_⟩
  · have hon := hb.sound.on_home s n ((homeOf_of_badge hb.badge).trans hn)
    exact (registered?_eq_some_iff hb.sound.bound_nodup).2 ((hb.sound.mem_bound n s).2 ⟨hb.alive, hon⟩)
  · rw [componentsOf_of_badge hb.badge]
    exact hi

/-- what is reached does not depend on the sources -/
theorem Reach.setSource {k m : NodeId} (h : w.Reach k m) (i : SourceId) (r : RandomSource) (e : Entropy) :
    (w.setSource i r e).Reach k m := by
  induction h with
  | refl hl => exact .refl hl
  | step hl hs _ ih => exact .step hl hs ih

/-- where all but a root hangs on what it has generated, nothing but the root is left once it has been bared -/
theorem Bared.nodeCount_eq_one (hb : Bared w u s n)
    (hsole : ∀ m, w.isAlive m = true → m = n ∨ ∃ k ∈ w.generatedBy s, w.Reach k m) : u.nodeCount = 1 := by
  refine hb.sound.nodeCount_eq_one fun m => ⟨fun hm => ?_, fun hm => hm ▸ hb.alive⟩
  obtain ⟨hlm, hnot⟩ := (hb.standing m).1 hm
  exact (hsole m hlm).resolve_right hnot

end World

section

variable [Scalar α] [LawfulZero α] [SymbolKind κ] {put : City.Kind α → κ} {w : World α κ σ} {plan : City.Plan α}
  {s : ShapeId} {root : NodeId} {t : Nat} {i : SourceId}

/-- a generation goes on with the source where it stands -/
theorem World.CityRoot.generate_accounts {g : Grammar α κ σ}
    (hg : ∀ kind s, g.rule (put kind) s = City.rule put kind s) (hs : Sound w) (hroot : CityRoot put w plan s root)
    (hplan : plan.Feasible (firstRelief? (w.componentsOf s)) g.nesting) (hi : firstSource? (w.componentsOf s) = some i)
    {seed : Int} {key : UInt64} {d : Nat} (hr : w.sources[i]? = some ⟨seed, some key, d⟩) :
    ∃ v lots, generate (g.expandWithin g.nesting) s Scalar.zero w = .ok () v ∧
      v.CityOn put plan (firstRelief? (w.componentsOf s)) s root lots ∧
      v.sources[i]? = some ⟨seed, some key, d + (lots.length + (lots.map Lot.draws).sum)⟩ ∧
      ((∀ m, w.isAlive m = true → m = root ∨ ∃ k ∈ w.generatedBy s, w.Reach k m) →
        v.nodeCount = 1 + (lots.map Lot.size).sum) := by
  obtain ⟨u, hu, hgen⟩ := generate_bared (g.expandWithin g.nesting) hs hroot.home hroot.alive
  have huroot := hroot.bared hu
  have hbare : u.componentsOf s = w.componentsOf s := componentsOf_of_badge hu.badge
  have hsources : u.sources = w.sources := congrArg Surroundings.sources hu.surroundings
  obtain ⟨v, lots, hrun, hgains, hlots⟩ := huroot.expands hg hu.sound (by rw [hbare]; exact hplan)
  rw [hbare] at hlots
  rw [Lot.total_bill] at hgains
  refine ⟨_, lots, by rw [hgen, hrun], ⟨?_, ?_⟩, ?_, fun hsole => ?_⟩
  · refine (hgains.generatedBy (lt_size_of_homeOf huroot.home)).trans ?_
    rw [hu.bare, List.nil_append]
  · exact hlots.imp fun place lot hlot => hlot.upheld le_rfl ⟨fun _ _ _ hx => hx, fun _ _ _ hx _ _ => hx⟩
  · exact hgains.draws i seed key d (hu.drawsFrom hroot.home hroot.key hi) (hsources ▸ hr)
  · refine hgains.count.trans ?_
    rw [hu.nodeCount_eq_one hsole]

/-- **The account of a city.** Let the rules of a grammar be those of a city, and let a trigger stand ready in a reachable
world for a living start symbol of a city, with a plan that can be carried out. Then a build without delay, under a seed
other than zero, ends without a fault and leaves a city, and its source has drawn once for each lot that is not under
water, once for each block, and for each building as often as it has floors and three times more. If all that lived but
the root hung on what this had generated, the nodes that live are the root, four for each park, one for each block, and
for each building six for each of its floors and three more, or four if there is a garden on its roof. -/
theorem Reachable.build_city_accounts {g : Grammar α κ σ} (hg : ∀ kind s, g.rule (put kind) s = City.rule put kind s)
    (h : Reachable w) (p : w.TriggerReady t s i (put (.city plan))) (hroot : CityRoot put w plan s root)
    (hplan : plan.Feasible (firstRelief? (w.componentsOf s)) g.nesting) {r : RandomSource} (hr : w.sources[i]? = some r)
    {seed : Int} (hseed : seed ≠ 0) (told : Option Int) (htold : told.getD r.seed = seed) :
    ∃ v lots, (Engine.build t Scalar.zero told).run g w = .ok () v ∧
      v.CityOn put plan (firstRelief? (w.componentsOf s)) s root lots ∧
      (v.sources[i]?).map (·.draws) =
        some ((dryLots plan (firstRelief? (w.componentsOf s))).length + (lots.map Lot.draws).sum) ∧
      ((∀ m, w.isAlive m = true → m = root ∨ ∃ k ∈ w.generatedBy s, w.Reach k m) →
        v.nodeCount = 1 + (lots.map Lot.size).sum) := by
  rw [p.build_eq g hr hseed told htold]
  generalize hw : w.setSource i ⟨seed, some (RandomSource.keyOf seed), 0⟩ w.entropy = w'
  -- the start symbol stands as before, and its source starts again
  have hroot' : CityRoot put w' plan s root := by
    subst hw
    exact ⟨hroot.kind, hroot.home, hroot.key, hroot.alive, hroot.eager, hroot.library⟩
  have hs' : Sound w' := hw ▸ h.sound.setSource i _ _
  have hcomponents : w'.componentsOf s = w.componentsOf s := by rw [← hw]; rfl
  have hi : firstSource? (w'.componentsOf s) = some i := by
    obtain ⟨x, hx, -, hi⟩ := p.shape
    rw [hcomponents, componentsOf, hx]
    exact hi
  have hstart : w'.sources[i]? = some ⟨seed, some (RandomSource.keyOf seed), 0⟩ := by
    rw [← hw]
    exact Array.getElem?_setIfInBounds_self_of_lt p.known
  obtain ⟨v, lots, hgen, hcity, hdraws, hcount⟩ :=
    hroot'.generate_accounts hg hs' (by rw [hcomponents]; exact hplan) hi hstart
  rw [hcomponents] at hcity
  refine ⟨{ v with desk := v.desk.mapTrigger t fun x => { x with builds := x.builds + 1 } }, lots, by rw [hgen],
    ⟨hcity.list, hcity.lots.imp fun place lot hlot => ?_⟩, ?_, fun hsole => hcount ?_⟩
  · exact hlot.upheld le_rfl ⟨fun _ _ _ hx => hx, fun _ _ _ hx _ _ => hx⟩
  · refine (congrArg _ hdraws).trans ?_
    rw [Option.map_some, Nat.zero_add, hcity.lots.length_eq]
  · subst hw
    intro m hm
    rcases hsole m hm with rfl | ⟨k, hk, hreach⟩
    · exact .inl rfl
    · exact .inr ⟨k, hk, hreach.setSource _ _ _⟩

end

section

variable [Scalar α]

theorem reachable_staged (c : Config α) (heights : Option (HeightMap α)) (log : Option (Ring (Event α)))
    (entropy : Entropy) : Reachable (Manager.staged c heights log entropy) := by
  let g : Grammar α (City.Kind α) Unit := Catalogue.cityGrammar 0 0
  have hset := (reachable_ground c heights entropy).run g _
    (Prog.heeds_act (o := .setDesk (Manager.deskOf c log)) rfl rfl)
  rw [Act.after_ok (Prog.run_act _ _)] at hset
  exact hset

/-- the trigger of a configured root stands ready -/
theorem triggerReady_staged (c : Config α) (heights : Option (HeightMap α)) (log : Option (Ring (Event α)))
    (entropy : Entropy) : (Manager.staged c heights log entropy).TriggerReady 0 0 1 (.city (.ofConfig c)) where
  trigger := ⟨_, rfl, rfl, rfl⟩
  shape := ⟨_, rfl, rfl, by cases heights <;> rfl⟩
  start := ⟨1, rfl, rfl, rfl⟩
  known := Nat.lt_succ_self 1

theorem cityRoot_staged {c : Config α} (heager : c.eager = true) (heights : Option (HeightMap α))
    (log : Option (Ring (Event α))) (entropy : Entropy) :
    CityRoot id (Manager.staged c heights log entropy) (.ofConfig c) 0 1 :=
  have h := cityRoot_ground heager heights entropy
  ⟨h.kind, h.home, h.key, h.alive, h.eager, h.library⟩

/-- nothing lives beside a configured root -/
theorem eq_one_of_isAlive_staged {c : Config α} {heights : Option (HeightMap α)} {log : Option (Ring (Event α))}
    {entropy : Entropy} {m : NodeId} (hm : (Manager.staged c heights log entropy).isAlive m = true) : m = 1 := by
  obtain ⟨x, hx, -⟩ := isAlive_iff.1 hm
  obtain ⟨hpos, hle⟩ := le_size_of_node? hx
  exact Nat.le_antisymm hle hpos

end

/-- **The standard city**, built from the doubles under the seed 7. -/
theorem build_standard_city :
    let w : World Float (City.Kind Float) Unit := Manager.staged .standard none none ⟨fun _ => 0, 0⟩
    (7 : Int) ≠ 0 ∧ ∃ v lots, (Engine.build 0 Scalar.zero (some 7)).run (Catalogue.cityGrammar 10 0) w = .ok () v ∧
      v.CityOn id (.ofConfig .standard) none 0 1 lots ∧
      (v.sources[1]?).map (·.draws) = some (16 + (lots.map Lot.draws).sum) ∧
      v.nodeCount = 1 + (lots.map Lot.size).sum := by
  intro w
  have hplan : (City.Plan.ofConfig .standard : City.Plan Float).Feasible none 10 :=
    ⟨⟨by decide, by decide +kernel⟩, by decide, turning_float, fun _ _ _ _ => ⟨false, rfl⟩⟩
  have hseed : (7 : Int) ≠ 0 := by decide
  obtain ⟨v, lots, hrun, hcity, hdraws, hcount⟩ := Reachable.build_city_accounts (rule_cityGrammar 10 0)
    (reachable_staged .standard none none ⟨fun _ => 0, 0⟩) (triggerReady_staged _ _ _ _)
      (cityRoot_staged rfl none none _) hplan
    (show w.sources[1]? = some (.ofSeed Config.standard.seed) from rfl) hseed (some 7) rfl
  exact ⟨hseed, v, lots, hrun, hcity, hdraws, hcount fun m hm => .inl (eq_one_of_isAlive_staged hm)⟩

/-! ## A city that is not finished -/

/-- a run ends because a range is too wide, and leaves a block without buildings for which four draws have been made -/
def overdraws (r : EStateM.Result (Fault α) (World α (City.Kind α) Unit) Unit) : Bool :=
  match r with
  | .error (.range .tooWide) w => bareBlock w && (w.sources[1]?).map (·.draws) == some 4
  | _ => false

theorem exists_of_overdraws {r : EStateM.Result (Fault α) (World α (City.Kind α) Unit) Unit} (h : overdraws r = true) :
    ∃ w, r = .error (.range .tooWide) w ∧ bareBlock w = true ∧ (w.sources[1]?).map (·.draws) = some 4 := by
  unfold overdraws at h
  split at h
  · rw [Bool.and_eq_true, beq_iff_eq] at h
    exact ⟨_, rfl, h⟩
  · cases h

/-- **Draws for nothing.** Buildings may have one floor at least, and yet a build ends with a fault. By then a block
without buildings stands on the only lot, and the source has drawn more often than for it. -/
theorem skyward_unaccounted :
    let w := Manager.staged skyward none none ⟨fun _ => 0, 0⟩
    Reachable w ∧ w.TriggerReady 0 0 1 (.city (.ofConfig skyward)) ∧ CityRoot id w (.ofConfig skyward) 0 1 ∧
      1 ≤ (City.Plan.ofConfig skyward).maxFloors ∧
      ∃ v, (Engine.build 0 Scalar.zero (some 7)).run (Catalogue.cityGrammar 5000 100000) w = .error (.range .tooWide) v ∧
        bareBlock v = true ∧ (v.sources[1]?).map (·.draws) ≠
          some ((dryLots (.ofConfig skyward) none).length + ([Lot.block 2 []].map Lot.draws).sum) := by
  intro w
  have hend : overdraws ((Engine.build 0 Scalar.zero (some 7)).run (Catalogue.cityGrammar 5000 100000) w) = true := by
    decide +kernel
  obtain ⟨v, hv, hbare, hdraws⟩ := exists_of_overdraws hend
  refine ⟨reachable_staged _ _ _ _, triggerReady_staged _ _ _ _, cityRoot_staged rfl _ _ _, by decide +kernel, v, hv,
    hbare, ?_⟩
  rw [hdraws]
  decide +kernel

end SceneGrammar

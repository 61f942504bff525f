/-
Setting an engine up.

`Manager.setUp` makes one root in an empty world, with a source and perhaps a height map, puts a trigger and a loop around
it and starts the loop. `Config.Sane` says which configurations it can do that with; `Manager.setUp_follows`: it then does,
and leaves a world that follows the machine that has just been set up.
-/
import SceneGrammar.Proofs.Engine.Ticks
import SceneGrammar.Proofs.Growth.CityRecipe

namespace SceneGrammar

variable {α : Type}

/-! ## Libraries -/

namespace TemplateLibrary

/-- after a registration the id stands for the template, and every other id for what it stood for -/
theorem find?_register_eq (l : TemplateLibrary α) (t : Template α) (id : String) :
    (l.register t).find? id = if t.id = id then some t else l.find? id := by
  unfold register
  by_cases hc : l.contains t.id = true
  · have hmap : find? ⟨l.entries.map fun u => if u.id == t.id then t else u⟩ id =
        (l.entries.find? fun u => (if u.id == t.id then t else u).id == id).map fun u => if u.id == t.id then t else u :=
      List.find?_map ..
    rw [if_pos hc, hmap]
    split_ifs with h
    · subst h
      have hsame : (fun u : Template α => (if u.id == t.id then t else u).id == t.id) = (·.id == t.id) := by
        funext u
        split_ifs with hu <;> simp [hu]
      obtain ⟨u, hu⟩ := Option.isSome_iff_exists.1 (List.find?_isSome.2 (List.any_eq_true.1 hc))
      rw [hsame, hu, Option.map_some, if_pos (List.find?_some hu)]
    · have hother : (fun u : Template α => (if u.id == t.id then t else u).id == id) = (·.id == id) := by
        funext u
        split_ifs with hu
        · rw [eq_of_beq hu]
        · rfl
      rw [hother]
      cases hu : l.entries.find? (·.id == id) with
      | none => exact hu.symm
      | some u =>
        have hid := List.find?_some hu
        have hne : ¬ (u.id == t.id) = true := fun ht => h ((eq_of_beq ht).symm.trans (eq_of_beq hid))
        rw [Option.map_some, if_neg hne]
        exact hu.symm
  · rw [if_neg hc]
    show List.find? _ (_ ++ [t]) = _
    rw [List.find?_append]
    split_ifs with h
    · subst h
      have hnone : l.entries.find? (·.id == t.id) = none := List.find?_eq_none.2 fun u hu hid =>
        hc (List.any_eq_true.2 ⟨u, hu, hid⟩)
      simp [hnone]
    · simp [h, find?]

/-- the ids of a library stand for its templates wherever it is merged into -/
theorem find?_merge (l : TemplateLibrary α) {m : TemplateLibrary α} (hm : m.order.Nodup) (id : String) :
    (l.merge m).find? id = (m.find? id).or (l.find? id) := by
  obtain ⟨ts⟩ := m
  show (ts.foldl register l).find? id = (ts.find? _).or _
  induction ts generalizing l with
  | nil => rfl
  | cons t ts ih =>
    obtain ⟨ht, hts⟩ := List.nodup_cons.1 hm
    rw [List.foldl_cons, ih (l.register t) hts, find?_register_eq]
    by_cases h : t.id = id
    · subst h
      have hnone : ts.find? (·.id == t.id) = none := List.find?_eq_none.2 fun u hu hid =>
        ht (List.mem_map.2 ⟨u, hu, eq_of_beq hid⟩)
      simp [hnone]
    · simp [h]

theorem find?_register_self (l : TemplateLibrary α) (t : Template α) : ((l.register t).find? t.id).isSome = true := by
  rw [find?_register_eq, if_pos rfl]
  rfl

theorem find?_register {l : TemplateLibrary α} {id : String} (h : (l.find? id).isSome = true) (t : Template α) :
    ((l.register t).find? id).isSome = true := by
  rw [find?_register_eq]
  split_ifs
  · rfl
  · exact h

/-- whatever is registered is found -/
theorem find?_registered (ts : List (Template α)) (l : TemplateLibrary α) {id : String}
    (h : (l.find? id).isSome = true ∨ ∃ t ∈ ts, t.id = id) : ((ts.foldl register l).find? id).isSome = true := by
  induction ts generalizing l with
  | nil => exact h.resolve_right (by simp)
  | cons t ts ih =>
    apply ih
    rcases h with h | ⟨u, hu, rfl⟩
    · exact Or.inl (find?_register h t)
    · rcases List.mem_cons.1 hu with rfl | hu
      · exact Or.inl (find?_register_self l u)
      · exact Or.inr ⟨u, hu, rfl⟩

end TemplateLibrary

variable [Scalar α]

namespace City

/-- the library of a city's world -/
@[irreducible] def library : TemplateLibrary α := (templates : TemplateLibrary α).entries.foldl .register .empty

theorem stocked_library : Stocked (library : TemplateLibrary α) := by
  intro t ht
  unfold library
  exact TemplateLibrary.find?_registered _ _ (Or.inr ⟨t, ht, rfl⟩)

end City

/-! ## Configurations -/

namespace Config

/-- the height map that a configuration asks for, if it asks for one -/
def heights (c : Config α) : Except ReliefError (Option (HeightMap α)) :=
  if c.useRelief then (Relief.noiseMap c.reliefPlan c.mapWidth c.mapHeight).map some else .ok none

/-- a configuration of a city that an engine can be set up and run with, where rules may nest to a depth -/
structure Sane (c : Config α) (nesting : Nat) : Prop where
  grammar : c.grammar = "city"
  seed : c.seed ≠ 0
  floors : City.Drawable c.maxFloors
  deep : Rounding.toBits 53 c.maxFloors.toNat + 4 ≤ nesting
  delay : c.buildOnStart = true → ¬ c.regenerateDelay < Scalar.zero
  tickRate : ¬ c.tickRate < Scalar.zero
  heights : ∃ m, c.heights = .ok m

end Config

namespace Manager

/-- the node of the root -/
def trunk : Node α :=
  { id := 1, name := "City", kind := .symbol, parent := none, children := [], pose := .rest, template := none
    shape := some 0, alive := true }

/-- the components of the root -/
def belongings (heights : Option (HeightMap α)) : List (Component α) :=
  .source 1 :: (heights.map (Component.relief 0)).toList

/-- the root and what belongs to it -/
def rootData (c : Config α) (heights : Option (HeightMap α)) : RootData α (City.Kind α) where
  shape := 0
  node := 1
  trunk := trunk
  source := 1
  trigger := 0
  kind := .city (.ofConfig c)
  templates := City.library
  eager := c.eager
  relief := heights
  trunk_id := rfl
  trunk_parent := rfl
  trunk_children := rfl
  trunk_shape := rfl
  trunk_alive := rfl

/-- a city's root grows under every seed -/
theorem completes [ExactScalar α] {c : Config α} {nesting : Nat} (h : c.Sane nesting) (spare : Nat)
    (heights : Option (HeightMap α)) :
    (rootData c heights).Completes (Catalogue.cityGrammar nesting spare : Grammar α (City.Kind α) Unit) City.recipe where
  rule kind s := City.rule_eq s kind
  grows seed _ := by
    have hviable : ((rootData c heights).growthContext seed).kind.Viable := h.floors
    exact City.grows_root City.stocked_library hviable h.deep .bare

/-! ## The world of a root -/

/-- a world with a root and nothing else -/
def founded (kind : City.Kind α) (eager : Bool) (entropy : Entropy) (l : TemplateLibrary α)
    (sources : Array RandomSource) (components : List (Component α)) : World α (City.Kind α) Unit :=
  { (World.fresh entropy () : World α (City.Kind α) Unit) with
    eager, sources, templates := l
    nodes := #[trunk], registry := [1], created := 1, bound := [(1, 0)]
    shapes := #[{ kind, node := some 1, rootKey := some 1, generated := none, components, state := .uninitialized }] }

section

variable (g : Grammar α (City.Kind α) Unit) (kind : City.Kind α) (eager : Bool) (entropy : Entropy)
  (l : TemplateLibrary α) (sources : Array RandomSource) (components : List (Component α))

theorem run_createRoot : World.createRoot (.of kind) "City" none .rest (some 1)
    { (World.fresh entropy () : World α (City.Kind α) Unit) with eager, templates := l, sources } =
      .ok (0 : Nat) (founded kind eager entropy l sources [.source 1]) := by
  with_unfolding_all rfl

theorem founded_components : (founded kind eager entropy l sources [.source 1]).modifyShape 0
    (fun x => { x with components }) = founded kind eager entropy l sources components := by
  with_unfolding_all rfl

theorem sound_founded : (founded kind eager entropy l sources components).Sound := by
  have hfresh : World.Pristine
      { (World.fresh entropy () : World α (City.Kind α) Unit) with eager, templates := l, sources } := by
    constructor <;> rfl
  have hnone (w : World α (City.Kind α) Unit) : w.knows none = true := rfl
  have hroot := (World.createRoot_steps (hnone _) (.of kind) "City" .rest (some 1)).sound hfresh.sound
  rw [Act.after_ok (run_createRoot kind eager entropy l sources)] at hroot
  rw [← founded_components]
  exact hroot.modifyShape (f := fun x => { x with components }) (fun _ => rfl) (fun _ => rfl) (fun _ => rfl) 0

theorem run_attach (c : Component α) : (Catalogue.attachComponent 0 c).run g
    (founded kind eager entropy l sources components) =
      .ok () (founded kind eager entropy l sources (components ++ [c])) := by
  with_unfolding_all rfl

theorem run_register (ts : List (Template α)) (w : World α (City.Kind α) Unit) :
    (ts.forM fun t => Prog.act (.register t)).run g w =
      .ok () { w with templates := ts.foldl .register w.templates } := by
  induction ts generalizing w with
  | nil => rfl
  | cons t ts ih =>
    show (Prog.act (.register t) >>= fun _ => ts.forM fun t => Prog.act (.register t)).run g w = _
    rw [Prog.run_bind_ok rfl]
    exact ih _

end

/-- the world of the configured root -/
def ground (c : Config α) (heights : Option (HeightMap α)) (entropy : Entropy) : World α (City.Kind α) Unit :=
  founded (.city (.ofConfig c)) c.eager entropy City.library #[.ofSeed 0, .ofSeed c.seed] (belongings heights)

/-- the configured root is made, unless it has no height map to go with it -/
theorem run_build (g : Grammar α (City.Kind α) Unit) {c : Config α} (hgrammar : c.grammar = "city") (entropy : Entropy) :
    (Catalogue.build id c 0).run g (blank c entropy) =
      match c.heights with
      | .ok heights => .ok (0 : Nat) (ground c heights entropy)
      | .error e => .error (.relief e) (ground c none entropy) := by
  have hknown : (!Catalogue.known.contains c.grammar) = false := by rw [hgrammar]; decide
  have hlibrary : (City.templates : TemplateLibrary α).entries.foldl .register (blank c entropy).templates =
      City.library := by
    unfold City.library
    rfl
  have hregister := run_register g (City.templates : TemplateLibrary α).entries (blank c entropy)
  rw [hlibrary] at hregister
  have hroot : (Prog.act (.createRoot (.of (id (.city (.ofConfig c)))) "City" none .rest (some 1)) :
      Prog α (City.Kind α) Unit ShapeId).run g { (World.fresh entropy () : World α (City.Kind α) Unit) with
        eager := c.eager, templates := City.library, sources := #[.ofSeed 0, .ofSeed c.seed] } =
      .ok (0 : Nat) (ground c none entropy) := by
    simp only [Prog.run, Prog.act, Prog.exec, World.perform, id, run_createRoot]
    rfl
  unfold Catalogue.build
  rw [hknown]
  show Prog.run g (_ >>= fun _ => _) _ = _
  rw [Prog.run_bind_ok hregister]
  show Prog.run g (_ >>= fun _ => _) _ = _
  rw [Prog.run_bind_ok (b := (1 : Nat)) (v := { (World.fresh entropy () : World α (City.Kind α) Unit) with
        eager := c.eager, templates := City.library, sources := #[.ofSeed 0, .ofSeed c.seed] }) rfl,
    Prog.run_bind_ok hroot]
  unfold Config.heights
  by_cases huse : c.useRelief = true
  · rw [if_pos huse, if_pos huse]
    cases Relief.noiseMap c.reliefPlan c.mapWidth c.mapHeight with
    | error e => rfl
    | ok m =>
      show Prog.run g (Catalogue.attachComponent 0 (.relief 0 m) >>= fun _ => Pure.pure 0) _ = _
      rw [ground, Prog.run_bind_ok (run_attach ..)]
      rfl
  · rw [if_neg huse, if_neg huse]
    rfl

/-- no other grammar is known -/
theorem run_build_unknown (g : Grammar α (City.Kind α) Unit) {c : Config α} (hgrammar : c.grammar ≠ "city") (entropy : Entropy) :
    (Catalogue.build id c 0).run g (blank c entropy) =
      .error (.unknownGrammar c.grammar Catalogue.known) (blank c entropy) := by
  have hknown : (!Catalogue.known.contains c.grammar) = true := by simpa [Catalogue.known] using hgrammar
  unfold Catalogue.build
  rw [hknown]
  rfl

/-- a trigger for the root, and a loop around it -/
def deskOf (c : Config α) (log : Option (Ring (Event α))) : Desk α :=
  ⟨#[⟨0, some 1, c.buildOnStart, 0⟩], some (.fresh c 0 log)⟩

/-- the world of the configured root, before the loop starts -/
def staged (c : Config α) (heights : Option (HeightMap α)) (log : Option (Ring (Event α))) (entropy : Entropy) :
    World α (City.Kind α) Unit := { ground c heights entropy with desk := deskOf c log }

theorem sound_staged (c : Config α) (heights : Option (HeightMap α)) (log : Option (Ring (Event α))) (entropy : Entropy) :
    (staged c heights log entropy).Sound := World.Sound.elsewhere (sound_founded ..)

/-- the world of the root follows the machine to which nothing has happened -/
theorem staged_follows {c : Config α} (hseed : c.seed ≠ 0) (heights : Option (HeightMap α))
    (log : Option (Ring (Event α))) (entropy : Entropy) (nesting : Nat) :
    World.Follows (rootData c heights) c City.recipe nesting (.idle c.seed)
      { staged c heights log entropy with live := true } where
  tracks :=
    { sound := (sound_staged c heights log entropy).elsewhere
      shape := ⟨_, rfl, rfl, rfl, rfl, rfl, by cases heights <;> rfl⟩
      node := rfl
      templates := rfl
      eager := rfl
      live := rfl
      trigger := ⟨_, rfl, rfl, rfl⟩
      now := rfl
      order := Heap.isHeap_empty
      source := ⟨_, rfl, rfl⟩
      nonzero := hseed
      told := by simp [Machine.idle]
      due := rfl
      content := rfl }
  loop := ⟨_, rfl, rfl, rfl, rfl, rfl⟩
  fair := fun r hr => absurd hr List.not_mem_nil

theorem run_makeTrigger (g : Grammar α (City.Kind α) Unit) (c : Config α) (heights : Option (HeightMap α))
    (entropy : Entropy) (b : Bool) : (Engine.makeTrigger 0 none b).run g (ground c heights entropy) =
      .ok (0 : Nat) { ground c heights entropy with desk := ⟨#[⟨0, some 1, b, 0⟩], none⟩ } := by
  with_unfolding_all rfl

/-- the set-up makes the root and starts the loop -/
theorem run_setUp (g : Grammar α (City.Kind α) Unit) {c : Config α} (hgrammar : c.grammar = "city")
    {heights : Option (HeightMap α)} (hheights : c.heights = .ok heights) (entropy : Entropy) :
    (setUp c).run g (blank c entropy) =
      match Engine.start.run g (staged c heights (some (.empty logCapacity)) entropy) with
      | .ok _ w => .ok (0 : Nat) w
      | .error e w => .error e w := by
  have hbuild := run_build g hgrammar entropy
  rw [hheights] at hbuild
  unfold setUp
  rw [Prog.run_bind_ok hbuild, Prog.run_bind_ok (run_makeTrigger ..)]
  show Prog.run g (Engine.start >>= fun _ => Pure.pure (0 : Nat)) (staged c heights (some (.empty logCapacity)) entropy) = _
  rw [Prog.run_bind]
  cases Engine.start.run g (staged c heights (some (.empty logCapacity)) entropy) <;> rfl

/-- **The set-up.** It ends without a fault, and its world follows the machine that has just been set up. -/
theorem setUp_follows [ExactScalar α] {c : Config α} {nesting : Nat} (h : c.Sane nesting) (spare : Nat)
    {heights : Option (HeightMap α)} (hheights : c.heights = .ok heights) (entropy : Entropy) :
    ∃ w, (setUp c).run (Catalogue.cityGrammar nesting spare) (blank c entropy) = .ok (0 : Nat) w ∧
      World.Follows (rootData c heights) c City.recipe nesting (.start c) w := by
  obtain ⟨w, hw, hfw⟩ := World.Follows.start (completes h spare heights)
    (staged_follows h.seed heights (some (.empty logCapacity)) entropy nesting) h.delay
  refine ⟨w, ?_, hfw⟩
  rw [run_setUp _ h.grammar hheights, hw]

end Manager

end SceneGrammar

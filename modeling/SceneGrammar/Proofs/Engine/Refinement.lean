/-
The engine refines the machine.

`Manager.InState`: a manager's world follows the machine, and its snapshot is of a world in the same state. Every call keeps
that (`InState.obey`), so every run of calls does (`InState.follow`).

- `engine_refines`: an engine with a sane configuration is set up, and whatever is called, by the caller and by the pauses
  of the thread in any order, its snapshot shows the machine: tick, seed, whether an expansion is planned, and under the
  root nothing or the tree of the machine's seed.
- `engines_astray`: engines that are not sane, by their floors, their delay, their height map or their tick rate, and do not
  show it.
-/
import SceneGrammar.Proofs.Engine.Setup

namespace SceneGrammar

variable {α κ σ : Type} [Scalar α]

/-! ## What a snapshot shows -/

namespace World

section

variable [SymbolKind κ] {S : RootData α κ} {recipe : κ → Recipe α κ Unit} {depth : Nat} {m : Machine α} {w v : World α κ σ}

/-- a root under which nothing grows shows nothing -/
theorem Tracks.content_none (t : Tracks S recipe depth m w) (hc : m.content = none) (tick seed : Int) :
    (w.snapshot S.node tick seed).content = [] := by
  have hbare := t.content
  rw [hc] at hbare
  have hnil : w.generatedBy S.shape = [] := hbare
  have hnode := t.node
  rw [hnil, S.trunk_bare] at hnode
  have hsuccessors : w.successors S.node = [] := by
    have hshape : w.shapeOn? S.node = some S.shape := by rw [shapeOn?, hnode, Option.bind_some, S.trunk_shape]
    have hgenerated : w.generatedAt S.node = [] := by rw [generatedAt, hshape]; exact hnil
    have hchildren : w.children S.node = [] := by rw [World.children, hnode, Option.map_some, S.trunk_children]; rfl
    rw [World.successors, hchildren, hgenerated]
    rfl
  exact content_nil hnode S.trunk_alive S.trunk_id hsuccessors tick seed

omit [SymbolKind κ] in
/-- what is shown of a seed stands under the root, which is a lone one -/
theorem Shows.stands {seed : Int} (h : Shows S recipe depth w (some seed)) :
    ∃ (F : Placement α) (P : Subtree α κ), F.root = S.node ∧ F.trunk = S.trunk ∧ F.Lone ∧
      Represents F (S.growthContext seed) w P ∧
      Recipe.growWithin (S.growthContext seed) recipe depth none .bare = .ok () P := by
  obtain ⟨F, P, hroot, hshape, htrunk, hP, hgrow⟩ := h
  refine ⟨F, P, hroot, htrunk, ⟨?_, ?_, ?_, ?_⟩, hP, hgrow⟩
  · rw [htrunk, hroot, S.trunk_id]
  · rw [htrunk, S.trunk_parent]
  · rw [htrunk, S.trunk_children]
  · rw [htrunk, hshape, S.trunk_shape]

omit [SymbolKind κ] in
/-- two worlds that show the tree of one seed at a root hold one subtree under it -/
theorem Shows.share {seed : Int} (h : Shows S recipe depth w (some seed)) (k : Shows S recipe depth v (some seed)) :
    ∃ (F G : Placement α) (P : Subtree α κ), (F.root = S.node ∧ F.trunk = S.trunk ∧ F.Lone ∧
      Represents F (S.growthContext seed) w P) ∧
      G.root = S.node ∧ G.trunk = S.trunk ∧ G.Lone ∧ Represents G (S.growthContext seed) v P := by
  obtain ⟨F, P, hF, hFt, hlone, hP, hgrow⟩ := h.stands
  obtain ⟨G, Q, hG, hGt, hlone', hQ, hgrow'⟩ := k.stands
  obtain rfl : P = Q := by
    rw [hgrow] at hgrow'
    exact (EStateM.Result.ok.inj hgrow').2
  exact ⟨F, G, P, ⟨hF, hFt, hlone, hP⟩, hG, hGt, hlone', hQ⟩

/-- two worlds that show the tree of one seed at a root show the same content -/
theorem Shows.content_eq {seed : Int} (h : Shows S recipe depth w (some seed)) (k : Shows S recipe depth v (some seed))
    (tick tick' told told' : Int) :
    (w.snapshot S.node tick told).content = (v.snapshot S.node tick' told').content := by
  obtain ⟨F, G, P, ⟨hF, hFt, hlone, hP⟩, hG, hGt, hlone', hQ⟩ := h.share k
  have hsame := hP.content_eq hQ hlone hlone' (by rw [hFt, hGt]) tick tick' told told'
  rwa [hF, hG] at hsame

omit [SymbolKind κ] in
/-- one appointment is pending if an expansion is planned, else none -/
theorem Tracks.pending_count (t : Tracks S recipe depth m w) : w.agenda.pendingCount = m.due.toList.length := by
  have hdue := t.due
  cases hd : m.due with
  | none =>
    rw [hd] at hdue
    have hnil : w.agenda.pending = [] := hdue
    rw [Agenda.pendingCount, hnil]
    rfl
  | some d =>
    rw [hd] at hdue
    obtain ⟨-, -, e, -, -, -, -, -, hone⟩ := hdue
    rw [Agenda.pendingCount, hone]
    rfl

end

end World

/-! ## Calls -/

namespace Manager

variable {c : Config α} {heights : Option (HeightMap α)} {nesting : Nat} {m : Manager α} {x : Machine α}

/-- a manager in the state of a machine -/
structure InState (c : Config α) (heights : Option (HeightMap α)) (nesting : Nat) (m : Manager α) (x : Machine α) :
    Prop where
  follows : World.Follows (rootData c heights) c City.recipe nesting x m.world
  root : m.root = 0
  config : m.config = c
  tickRate : m.tickRate = c.tickRate
  snapshot : ∃ w : World α (City.Kind α) Unit, World.Tracks (rootData c heights) City.recipe nesting x w ∧
    m.snapshot = some (w.snapshot 1 x.tick x.seed)

/-- the thread is the manager's own -/
theorem InState.rethread (h : InState c heights nesting m x) (running : Bool) (thread : ThreadState) :
    InState c heights nesting { m with running, thread } x := { h with root := h.root }

/-- a manager that publishes what follows the machine -/
theorem inState_publish (hw : World.Follows (rootData c heights) c City.recipe nesting x m.world) (hroot : m.root = 0)
    (hconfig : m.config = c) (hrate : m.tickRate = c.tickRate) : InState c heights nesting m.publish x where
  follows := hw
  root := hroot
  config := hconfig
  tickRate := hrate
  snapshot := by
    obtain ⟨l, hl, -, htrigger, htick, -⟩ := hw.loop
    obtain ⟨t, ht, -, hsource⟩ := hw.tracks.trigger
    obtain ⟨r, hr, hseed⟩ := hw.tracks.source
    have hnode : m.rootNode = 1 := by
      have hhome : (m.world.shape? m.root).bind (·.node) = some 1 := by
        rw [hroot]
        exact hw.tracks.home
      rw [rootNode, hhome]
      rfl
    have hticks : m.tick = x.tick := by rw [Manager.tick, loop?, hl, Option.map_some, htick]; rfl
    have hseeds : m.seed = x.seed := by
      rw [Manager.seed, loop?, hl, Option.bind_some, htrigger, ht, Option.bind_some, hsource, Option.bind_some, hr, ← hseed]
      rfl
    refine ⟨m.world, hw.tracks, ?_⟩
    show some (m.world.snapshot m.rootNode m.tick m.seed) = some (m.world.snapshot 1 x.tick x.seed)
    rw [hnode, hticks, hseeds]

/-- what a manager shows when the machine has the tree of a seed -/
theorem InState.shown (h : InState c heights nesting m x) : ∃ (w : World α (City.Kind α) Unit) (tick seed : Int),
    World.Shows (rootData c heights) City.recipe nesting w x.content ∧
      m.shown = (w.snapshot (rootData c heights).node tick seed).content := by
  obtain ⟨w, tw, hw⟩ := h.snapshot
  refine ⟨w, x.tick, x.seed, tw.content, ?_⟩
  rw [Manager.shown, hw]
  rfl

/-- a request does not touch the thread -/
theorem obey_regenerate_running (g : Grammar α (City.Kind α) Unit) (m : Manager α) (r : Request α) :
    (m.obey g (.regenerate r)).running = m.running := by
  unfold obey regenerate
  by_cases hback : r.delay < Scalar.zero
  · simp only [if_pos hback]
  · simp only [if_neg hback]
    cases m.loop? <;> rfl

variable [ExactScalar α]

/-- **A tick.** A manager that ticks keeps to the machine. -/
theorem InState.tickAndPublish (hc : c.Sane nesting) (spare : Nat) (h : InState c heights nesting m x) (dt : Option α)
    (hdt : ¬ dt.getD c.tickRate < Scalar.zero) :
    ∃ more n, Manager.tickAndPublish (Catalogue.cityGrammar nesting spare) dt m = .ok more n ∧
      InState c heights nesting n (x.advance (dt.getD c.tickRate)) := by
  obtain ⟨w, hw, hfw⟩ := World.Follows.tick (completes hc spare heights) h.follows dt hdt
  refine ⟨Engine.hasTicksLeft c.maxTicks (x.tick + 1), _, ?_, inState_publish (m := { m with world := w }) hfw h.root
    h.config h.tickRate⟩
  unfold Manager.tickAndPublish
  rw [hw]

/-- a turn of the thread, whatever it meets -/
theorem InState.turn (hc : c.Sane nesting) (spare : Nat) (h : InState c heights nesting m x) (p : Pacing α) :
    InState c heights nesting (Manager.turn (Catalogue.cityGrammar nesting spare) p m) (x.advance m.tickRate) := by
  obtain ⟨more, n, hn, hk⟩ := h.tickAndPublish hc spare (some m.tickRate)
    (by rw [h.tickRate]; exact hc.tickRate)
  unfold Manager.turn
  rw [hn]
  cases more with
  | false => exact hk.rethread false .ended
  | true =>
    simp only
    cases p.refusal n.tickRate with
    | none => exact hk.rethread n.running .parked
    | some e => exact hk.rethread n.running .ended

/-- **A call.** What is called keeps a manager to the machine. -/
theorem InState.obey (hc : c.Sane nesting) (spare : Nat) (h : InState c heights nesting m x) (call : Call α)
    (hcall : call.Fair) :
    InState c heights nesting (m.obey (Catalogue.cityGrammar nesting spare) call)
      ((call.events m).foldl Machine.step x) := by
  cases call with
  | regenerate r =>
    obtain ⟨l, hl, -⟩ := h.follows.loop
    have haccept : m.regenerate r =
        .ok () { m with world := { m.world with desk := m.world.desk.mapLoop (·.request r) } } := by
      unfold Manager.regenerate
      rw [if_neg hcall.1, loop?, hl]
    unfold Manager.obey
    simp only [haccept]
    obtain ⟨w, tw, hw⟩ := h.snapshot
    exact
      { follows := h.follows.request hcall
        root := h.root
        config := h.config
        tickRate := h.tickRate
        snapshot := ⟨w, tw.recount x.tick (x.queue ++ [r]), hw⟩ }
  | step dt =>
    by_cases hrunning : m.running = true
    · have hrefuse : m.step (Catalogue.cityGrammar nesting spare) dt = .error .stepWhileRunning m := by
        rw [Manager.step, if_pos hrunning]
      unfold Manager.obey Call.events
      simp only [hrefuse, if_pos hrunning]
      exact h
    · have hdt : ¬ dt.getD c.tickRate < Scalar.zero := by
        cases dt with
        | none => exact hc.tickRate
        | some y => exact hcall y rfl
      obtain ⟨more, n, hn, hk⟩ := h.tickAndPublish hc spare dt hdt
      have haccept : m.step (Catalogue.cityGrammar nesting spare) dt = .ok more n := by
        rw [Manager.step, if_neg hrunning, hn]
      unfold Manager.obey Call.events
      simp only [haccept, if_neg hrunning, h.config]
      exact hk
  | start p =>
    unfold Manager.obey Call.events Manager.start
    by_cases hrunning : m.running = true
    · simp only [if_pos hrunning]
      exact h
    · simp only [if_neg hrunning]
      exact (h.rethread true m.thread).turn hc spare p
  | wake p =>
    unfold Manager.obey Call.events Manager.wake
    cases hthread : m.thread with
    | parked => exact h.turn hc spare p
    | absent => exact h
    | ended => exact h
  | stop => exact h.rethread false .absent

/-- **All calls.** A run of calls keeps a manager to the machine. -/
theorem InState.follow (hc : c.Sane nesting) (spare : Nat) (h : InState c heights nesting m x) (calls : List (Call α))
    (hcalls : ∀ call ∈ calls, call.Fair) :
    let p := calls.foldl (Manager.follow (Catalogue.cityGrammar nesting spare)) (m, x)
    InState c heights nesting p.1 p.2 := by
  induction calls generalizing m x with
  | nil => exact h
  | cons call calls ih =>
    exact ih (h.obey hc spare call (hcalls call List.mem_cons_self)) fun d hd => hcalls d (List.mem_cons_of_mem call hd)

/-- an engine is set up -/
theorem create_inState (hc : c.Sane nesting) (spare : Nat) (hheights : c.heights = .ok heights) (entropy : Entropy) :
    ∃ m, create (Catalogue.cityGrammar nesting spare) c entropy = .ok m ∧ m.running = false ∧
      InState c heights nesting m (.start c) := by
  obtain ⟨w, hw, hfw⟩ := setUp_follows hc spare hheights entropy
  unfold create
  rw [hw]
  exact ⟨_, rfl, rfl, inState_publish hfw rfl rfl rfl⟩

/-- one build in a fresh engine grows the tree of the seed -/
theorem tree_shown (hc : c.Sane nesting) (spare : Nat) (hheights : c.heights = .ok heights) {seed : Int} (hseed : seed ≠ 0) :
    ∃ (w : World α (City.Kind α) Unit) (tick told : Int),
      World.Shows (rootData c heights) City.recipe nesting w (some seed) ∧
        tree (Catalogue.cityGrammar nesting spare) c seed = (w.snapshot (rootData c heights).node tick told).content := by
  have hidle : ({ c with buildOnStart := false } : Config α).Sane nesting := { hc with delay := fun h => absurd h (by simp) }
  obtain ⟨m, hm, hrunning, hk⟩ := create_inState hidle spare hheights ⟨fun _ => 0, 0⟩
  have hzero : ¬ (Scalar.zero : α) < Scalar.zero := ExactScalar.lt_irrefl _
  have hasked := hk.obey hidle spare (.regenerate ⟨Scalar.zero, some seed⟩)
    ⟨hzero, fun h => hseed (Option.some.inj h)⟩
  have hbuilt := hasked.obey hidle spare (.step (some Scalar.zero))
    (fun y hy => Option.some.inj hy ▸ hzero)
  -- the thread has not been started, so that the step is a tick
  have hticks : Call.events (m.obey (Catalogue.cityGrammar nesting spare) (.regenerate ⟨Scalar.zero, some seed⟩))
      (.step (some Scalar.zero)) = [.tick Scalar.zero] := by
    rw [Call.events, obey_regenerate_running, hrunning]
    rfl
  rw [hticks] at hbuilt
  obtain ⟨w, tick, told, hw, hshown⟩ := hbuilt.shown
  have hcontent : (((Machine.idle c.seed : Machine α).handle ⟨Scalar.zero, some seed⟩).elapse Scalar.zero).content = some seed := by
    have hzeros : ((Scalar.zero : α) == Scalar.zero) = true := ExactScalar.beq_zero
    rw [Machine.handle, if_pos hzeros]
    rfl
  have hw : World.Shows (rootData c heights) City.recipe nesting w
      (((Machine.idle c.seed : Machine α).handle ⟨Scalar.zero, some seed⟩).elapse Scalar.zero).content := hw
  rw [hcontent] at hw
  refine ⟨w, tick, told, hw, ?_⟩
  unfold tree
  rw [hm]
  exact hshown

/-- **Refinement.** An engine with a sane configuration shows the machine, whatever is called. -/
theorem engine_refines (hc : c.Sane nesting) (spare : Nat) : Refines (Catalogue.cityGrammar nesting spare) c := by
  intro entropy
  obtain ⟨heights, hheights⟩ := hc.heights
  obtain ⟨m, hm, -, hk⟩ := create_inState hc spare hheights entropy
  refine ⟨m, hm, fun calls hcalls => ?_⟩
  have hend := hk.follow hc spare calls hcalls
  generalize calls.foldl (Manager.follow (Catalogue.cityGrammar nesting spare)) (m, Machine.start c) = p at hend ⊢
  obtain ⟨w, tw, hw⟩ := hend.snapshot
  refine ⟨⟨_, hw, rfl, rfl, tw.pending_count⟩, ?_⟩
  have hshown : p.1.shown = (w.snapshot (rootData c heights).node p.2.tick p.2.seed).content := by
    rw [Manager.shown, hw]
    rfl
  rw [hshown]
  cases hcontent : p.2.content with
  | none => exact tw.content_none hcontent _ _
  | some seed =>
    have hseed : seed ≠ 0 := fun h0 => tw.told (by rw [hcontent, h0])
    have hshows := tw.content
    rw [hcontent] at hshows
    obtain ⟨v, tick, told, hv, htree⟩ := tree_shown hc spare hheights hseed
    exact (hshows.content_eq hv _ tick _ told).trans htree.symm

/-- a city of one lot that is built after three seconds -/
def hamlet : Config ℚ := { Config.standard with blocksX := 1, blocksY := 1, regenerateDelay := 3 }

theorem sane_hamlet : hamlet.Sane 10 where
  grammar := rfl
  seed := by decide
  floors := ⟨by decide, by decide +kernel⟩
  deep := by decide +kernel
  delay _ := by decide +kernel
  tickRate := by decide +kernel
  heights := ⟨none, rfl⟩

/-- the hamlet has a sane configuration -/
theorem engine_refines_hamlet : hamlet.Sane 10 ∧ Refines (Catalogue.cityGrammar 10 0) hamlet :=
  ⟨sane_hamlet, engine_refines sane_hamlet 0⟩

/-! ## Engines that do not show the machine -/

/-- an engine cannot be set up, or has a snapshot of another tick than the machine's after some calls -/
def strays (g : Grammar α (City.Kind α) Unit) (c : Config α) (calls : List (Call α)) : Bool :=
  match create g c ⟨fun _ => 0, 0⟩ with
  | .ok m =>
    let p := calls.foldl (Manager.follow g) (m, .start c)
    p.1.snapshot.map (·.tick) != some p.2.tick
  | .error _ => true

omit [ExactScalar α] in
theorem not_refines_of_strays {g : Grammar α (City.Kind α) Unit} {calls : List (Call α)}
    (hcalls : ∀ call ∈ calls, call.Fair) (h : strays g c calls = true) : ¬ Refines g c := by
  intro href
  obtain ⟨m, hm, hdisplays⟩ := href ⟨fun _ => 0, 0⟩
  obtain ⟨⟨t, ht, htick, -⟩, -⟩ := hdisplays calls hcalls
  unfold strays at h
  rw [hm] at h
  simp [ht, htick] at h

/-- more floors than a draw can be scaled to -/
def babel : Config ℚ := { Config.standard with blocksX := 1, blocksY := 1, maxFloors := Nat.pow 2 1024 }

/-- a start-up build that is planned for the past -/
def overdue : Config ℚ := { Config.standard with blocksX := 1, blocksY := 1, regenerateDelay := -1 }

/-- a height map without columns -/
def edgeless : Config ℚ := { Config.standard with blocksX := 1, blocksY := 1, useRelief := true, mapWidth := 0 }

/-- a thread that ticks backwards -/
def backward : Config ℚ := { Config.standard with blocksX := 1, blocksY := 1, tickRate := -1 }

/-- a city with a seed and at least one floor -/
def Populated (c : Config α) : Prop := c.grammar = "city" ∧ c.seed ≠ 0 ∧ 1 ≤ c.maxFloors

/-- a seed and floors are not enough: the first three engines are not set up, and the thread of the fourth does not tick -/
theorem engines_astray :
    (Populated babel ∧ ¬ Refines (Catalogue.cityGrammar 5000 100000) babel) ∧
      (Populated overdue ∧ ¬ Refines (Catalogue.cityGrammar 5000 100000) overdue) ∧
      (Populated edgeless ∧ ¬ Refines (Catalogue.cityGrammar 5000 100000) edgeless) ∧
      (Populated backward ∧ ¬ Refines (Catalogue.cityGrammar 5000 100000) backward) := by
  have hnone : ∀ call ∈ ([] : List (Call ℚ)), call.Fair := fun call h => absurd h List.not_mem_nil
  have hstart : ∀ call ∈ [(Call.start .instant : Call ℚ)], call.Fair := by
    intro call h
    rw [List.mem_singleton.1 h]
    trivial
  refine ⟨⟨⟨rfl, by decide, by decide +kernel⟩, ?_⟩, ⟨⟨rfl, by decide, by decide⟩, ?_⟩, ⟨⟨rfl, by decide, by decide⟩, ?_⟩,
    ⟨⟨rfl, by decide, by decide⟩, ?_⟩⟩
  · exact not_refines_of_strays hnone (by decide +kernel)
  · exact not_refines_of_strays hnone (by decide +kernel)
  · exact not_refines_of_strays hnone (by decide +kernel)
  · exact not_refines_of_strays hstart (by decide +kernel)

end Manager

end SceneGrammar

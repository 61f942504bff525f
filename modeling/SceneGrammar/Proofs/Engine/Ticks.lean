/-
Ticks of the loop.

`Follows S config recipe depth m w`: the world tracks the machine, and so does its loop, which holds the machine's ticks
and its queue. One lemma per program of the engine says that it ends without a fault and does to the world what the
machine does: `Follows.request` where a request is made, `Follows.serve` where it is served, `Follows.serves` for all that
wait, `Follows.start` for the start of the loop and `Follows.tick` for a tick.
-/
import SceneGrammar.Proofs.Engine.Root

namespace SceneGrammar

variable {α κ σ β γ : Type} [Scalar α]

section

variable [SymbolKind κ]

/-! ## Programs in sequence -/

theorem Prog.run_bind (g : Grammar α κ σ) (p : Prog α κ σ β) (f : β → Prog α κ σ γ) (w : World α κ σ) :
    (p >>= f).run g w = match p.run g w with
      | .ok x v => (f x).run g v
      | .error e v => .error e v :=
  Prog.exec_bind g.spare (g.expandWithin g.nesting) p f w

/-- what a program does if its first part ends without a fault -/
theorem Prog.run_bind_ok {g : Grammar α κ σ} {p : Prog α κ σ β} {f : β → Prog α κ σ γ} {w v : World α κ σ} {b : β}
    (h : p.run g w = .ok b v) : (p >>= f).run g w = (f b).run g v := by
  rw [Prog.run_bind, h]

/-- an attempt goes on from how its body ends -/
theorem Prog.run_attempt (g : Grammar α κ σ) (body : Prog α κ σ γ) (next : Except (Fault α) γ → Prog α κ σ β)
    (w : World α κ σ) : (Prog.attempt body next).run g w = match body.run g w with
      | .ok x v => (next (.ok x)).run g v
      | .error e v => (next (.error e)).run g v := by
  cases h : body.run g w with
  | ok x v | error e v =>
    rw [Prog.run] at h
    simp only [Prog.run, Prog.exec, h]

theorem run_changeLoop (g : Grammar α κ σ) (f : Loop α → Loop α) (w : World α κ σ) :
    (Engine.changeLoop f).run g w = .ok () { w with desk := w.desk.mapLoop f } := rfl

theorem run_loop {g : Grammar α κ σ} {w : World α κ σ} {l : Loop α} (h : w.desk.loop = some l) :
    Engine.loop.run g w = .ok l w := by
  simp only [Engine.loop, Prog.run, Prog.ask, Prog.exec, h]

theorem run_trigger {g : Grammar α κ σ} {w : World α κ σ} {i : Nat} {t : Trigger}
    (h : w.desk.triggers[i]? = some t) : (Engine.trigger i).run g w = .ok t w := by
  simp only [Engine.trigger, Prog.run, Prog.ask, Prog.exec, h]

end

/-! ## The loop -/

/-- a request that can be served -/
def Request.Fair (r : Request α) : Prop := ¬ r.delay < Scalar.zero ∧ r.seed ≠ some 0

namespace World

/-- the world and its loop are in the state of the machine -/
structure Follows (S : RootData α κ) (config : Config α) (recipe : κ → Recipe α κ Unit) (depth : Nat) (m : Machine α)
    (w : World α κ σ) : Prop where
  tracks : Tracks S recipe depth m w
  loop : ∃ l, w.desk.loop = some l ∧ l.config = config ∧ l.trigger = S.trigger ∧ l.tick = m.tick ∧
    l.requests = m.queue
  fair : ∀ r ∈ m.queue, r.Fair

section

variable {S : RootData α κ} {config : Config α} {recipe : κ → Recipe α κ Unit} {m : Machine α} {w : World α κ σ}
  {g : Grammar α κ σ}

/-- the loop may change as the machine does -/
theorem Follows.relooped {depth : Nat} {m' : Machine α} (t : Tracks S recipe depth m' w) {l : Loop α}
    (hl : w.desk.loop = some l) {f : Loop α → Loop α} (hconfig : (f l).config = config)
    (htrigger : (f l).trigger = S.trigger) (htick : (f l).tick = m'.tick) (hqueue : (f l).requests = m'.queue)
    (hfair : ∀ r ∈ m'.queue, r.Fair) :
    Follows S config recipe depth m' { w with desk := w.desk.mapLoop f } where
  tracks := t.redesk t.trigger
  loop := ⟨f l, by simp [Desk.mapLoop, hl], hconfig, htrigger, htick, hqueue⟩
  fair := hfair

/-- a request is queued -/
theorem Follows.request {depth : Nat} (h : Follows S config recipe depth m w) {r : Request α} (hr : r.Fair) :
    Follows S config recipe depth { m with queue := m.queue ++ [r] } { w with desk := w.desk.mapLoop (·.request r) } := by
  obtain ⟨l, hl, hconfig, htrigger, htick, hqueue⟩ := h.loop
  refine .relooped (h.tracks.recount m.tick (m.queue ++ [r])) hl hconfig htrigger htick (congrArg (· ++ [r]) hqueue) ?_
  intro q hq
  rcases List.mem_append.1 hq with hq | hq
  · exact h.fair q hq
  · exact List.mem_singleton.1 hq ▸ hr

variable [SymbolKind κ]

/-- an event is reported -/
theorem Follows.emit {depth : Nat} (h : Follows S config recipe depth m w) (k : String → Happening α) :
    ∃ v, (Engine.emit S.shape k).run g w = .ok () v ∧ Follows S config recipe depth m v := by
  have hnode : w.nodeOf S.shape = .ok S.node := nodeOf_eq_ok_iff.2 h.tracks.home
  obtain ⟨name, hname⟩ : ∃ name, w.nameOf S.shape = .ok name := by
    unfold nameOf
    rw [hnode]
    exact ⟨_, rfl⟩
  obtain ⟨l, hl, hconfig, htrigger, htick, hqueue⟩ := h.loop
  refine ⟨{ w with desk := w.desk.mapLoop (·.emit (k name) S.node) }, ?_, ?_⟩
  · unfold Engine.emit
    rw [Prog.run_bind_ok (b := name) (v := w)]
    · rw [Prog.run_bind_ok (b := S.node) (v := w)]
      · rfl
      · simp only [Prog.run, Prog.ask, Prog.exec, hnode]
    · simp only [Prog.run, Prog.ask, Prog.exec, hname]
  · exact .relooped h.tracks hl hconfig htrigger htick hqueue h.fair

variable [ExactScalar α]

/-- a build serves a request -/
theorem Follows.handle (hS : S.Completes g recipe) (h : Follows S config recipe g.nesting m w) {r : Request α}
    (hr : r.Fair) : ∃ v, (Engine.build S.trigger r.delay r.seed).run g w = .ok () v ∧
      Follows S config recipe g.nesting (m.handle r) v := by
  obtain ⟨v, hv, hloop, tv⟩ := h.tracks.handle hS hr.1 hr.2
  exact ⟨v, hv,
    { tracks := tv
      loop := by
        rw [hloop, Machine.handle_tick, Machine.handle_queue]
        exact h.loop
      fair := by
        rw [Machine.handle_queue]
        exact h.fair }⟩

/-- a request is served and reported -/
theorem Follows.serve (hS : S.Completes g recipe) (h : Follows S config recipe g.nesting m w) {r : Request α}
    (hr : r.Fair) : ∃ v, (Engine.serve S.trigger S.shape r).run g w = .ok () v ∧
      Follows S config recipe g.nesting (m.handle r) v := by
  obtain ⟨v, hv, hfv⟩ := h.handle hS hr
  obtain ⟨u, hu, hfu⟩ := hfv.emit (g := g) fun name => .regenerated name r.seed r.delay
  refine ⟨u, ?_, hfu⟩
  unfold Engine.serve
  rw [Prog.run_bind_ok hv]
  exact hu

/-- requests are served in turn -/
theorem Follows.serves (hS : S.Completes g recipe) (rs : List (Request α)) (h : Follows S config recipe g.nesting m w)
    (hrs : ∀ r ∈ rs, r.Fair) : ∃ v, (rs.forM (Engine.serve S.trigger S.shape)).run g w = .ok () v ∧
      Follows S config recipe g.nesting (rs.foldl Machine.handle m) v := by
  induction rs generalizing m w with
  | nil => exact ⟨w, rfl, h⟩
  | cons r rs ih =>
    obtain ⟨v, hv, hfv⟩ := h.serve hS (hrs r List.mem_cons_self)
    obtain ⟨u, hu, hfu⟩ := ih hfv fun q hq => hrs q (List.mem_cons_of_mem r hq)
    refine ⟨u, ?_, hfu⟩
    show (Engine.serve S.trigger S.shape r >>= fun _ => rs.forM (Engine.serve S.trigger S.shape)).run g w = _
    rw [Prog.run_bind_ok hv]
    exact hu

omit [ExactScalar α] in
/-- expansions of the root are reported -/
theorem Follows.reports (xs : List ShapeId) (h : Follows S config recipe g.nesting m w) (hxs : ∀ s ∈ xs, s = S.shape) :
    ∃ v, (xs.forM Engine.reportExpansion).run g w = .ok () v ∧ Follows S config recipe g.nesting m v := by
  induction xs generalizing w with
  | nil => exact ⟨w, rfl, h⟩
  | cons s xs ih =>
    obtain rfl : s = S.shape := hxs s List.mem_cons_self
    obtain ⟨v, hv, hfv⟩ := h.emit (g := g) fun name => .expanded name (w.generatedBy S.shape).length
    obtain ⟨u, hu, hfu⟩ := ih hfv fun q hq => hxs q (List.mem_cons_of_mem _ hq)
    refine ⟨u, ?_, hfu⟩
    show (Engine.reportExpansion S.shape >>= fun _ => xs.forM Engine.reportExpansion).run g w = _
    have hreport : (Engine.reportExpansion S.shape).run g w = .ok () v := hv
    rw [Prog.run_bind_ok hreport]
    exact hu

/-- **The start.** The world becomes live, and a loop that is to build at start serves one request. -/
theorem Follows.start (hS : S.Completes g recipe) (h : Follows S config recipe g.nesting m { w with live := true })
    (hdelay : config.buildOnStart = true → ¬ config.regenerateDelay < Scalar.zero) :
    ∃ v, Engine.start.run g w = .ok () v ∧ Follows S config recipe g.nesting
      (if config.buildOnStart then m.handle ⟨config.regenerateDelay, none⟩ else m) v := by
  obtain ⟨l, hl, rfl, htrigger, htick, hqueue⟩ := h.loop
  have hl' : w.desk.loop = some l := hl
  have hlive : (Prog.act (.setLive true) : Prog α κ σ Unit).run g w = .ok () { w with live := true } := rfl
  have hclear : Follows S l.config recipe g.nesting m
      { w with live := true, desk := w.desk.mapLoop fun l => { l with recent := [] } } :=
    .relooped h.tracks hl rfl htrigger htick hqueue h.fair
  unfold Engine.start
  rw [Prog.run_bind_ok (run_loop hl'), Prog.run_bind_ok hlive, Prog.run_bind_ok (run_changeLoop g _ _)]
  by_cases hbuild : l.config.buildOnStart = true
  · simp only [if_pos hbuild]
    obtain ⟨t, ht, hroot, -⟩ := hclear.tracks.trigger
    obtain ⟨v, hv, hfv⟩ := hclear.handle hS (show Request.Fair ⟨l.config.regenerateDelay, none⟩ from
      ⟨hdelay hbuild, by simp⟩)
    obtain ⟨u, hu, hfu⟩ := hfv.emit (g := g) .startUp
    refine ⟨u, ?_, hfu⟩
    rw [htrigger, Prog.run_bind_ok (run_trigger ht), Prog.run_bind_ok hv, hroot]
    exact hu
  · simp only [if_neg hbuild]
    exact ⟨_, rfl, hclear⟩

/-- **A tick.** It ends without a fault, tells whether ticks are left, and does what a tick does to the machine. -/
theorem Follows.tick (hS : S.Completes g recipe) (h : Follows S config recipe g.nesting m w) (dt : Option α)
    (hdt : ¬ dt.getD config.tickRate < Scalar.zero) :
    ∃ v, (Engine.tick dt).run g w = .ok (Engine.hasTicksLeft config.maxTicks (m.tick + 1)) v ∧
      Follows S config recipe g.nesting (m.advance (dt.getD config.tickRate)) v := by
  obtain ⟨l, hl, rfl, htrigger, htick, hqueue⟩ := h.loop
  -- the queue is taken over and served
  have hempty : Follows S l.config recipe g.nesting { m with queue := [] }
      { w with desk := w.desk.mapLoop (·.drained) } :=
    .relooped (h.tracks.recount m.tick []) hl rfl htrigger htick rfl fun r hr => absurd hr List.not_mem_nil
  obtain ⟨t, ht, hroot, -⟩ := hempty.tracks.trigger
  obtain ⟨w₁, hw₁, h₁⟩ := hempty.serves hS l.requests (hqueue ▸ h.fair)
  -- the clock is moved
  obtain ⟨xs, w₂, hw₂, hdesk, hxs, t₂⟩ := h₁.tracks.elapse hS hdt
  have hadvance : (Prog.act (.advance (dt.getD l.config.tickRate)) : Prog α κ σ (List ShapeId)).run g w₁ =
      .ok xs w₂ := by
    simp only [Prog.run, Prog.act, Prog.exec, perform, hw₂]
  have h₂ : Follows S l.config recipe g.nesting ((l.requests.foldl Machine.handle { m with queue := [] }).elapse
      (dt.getD l.config.tickRate)) w₂ := by
    refine ⟨t₂, ?_, ?_⟩
    · rw [hdesk, Machine.elapse_tick, Machine.elapse_queue]
      exact h₁.loop
    · rw [Machine.elapse_queue]
      exact h₁.fair
  obtain ⟨w₃, hw₃, h₃⟩ := h₂.reports (g := g) xs hxs
  -- the tick is counted
  obtain ⟨l₃, hl₃, hconfig, htrigger₃, htick₃, hqueue₃⟩ := h₃.loop
  have h₄ : Follows S l.config recipe g.nesting (m.advance (dt.getD l.config.tickRate))
      { w₃ with desk := w₃.desk.mapLoop fun l => { l with tick := l.tick + 1 } } := by
    rw [Machine.advance, ← hqueue]
    exact .relooped (h₃.tracks.recount _ _) hl₃ hconfig htrigger₃ (congrArg (· + 1) htick₃) hqueue₃ h₃.fair
  obtain ⟨l₄, hl₄, hconfig₄, -, htick₄, -⟩ := h₄.loop
  rw [Machine.advance_tick] at htick₄
  refine ⟨_, ?_, h₄⟩
  rw [← hconfig₄, ← htick₄]
  unfold Engine.tick
  rw [Prog.run_bind_ok (run_loop hl), Prog.run_bind_ok (run_changeLoop g _ w), htrigger,
    Prog.run_bind_ok (run_trigger ht), hroot, Prog.run_bind_ok hw₁, Prog.run_bind_ok hadvance, Prog.run_bind_ok hw₃,
    Prog.run_bind_ok (run_changeLoop g _ w₃), Prog.run_bind_ok (run_loop hl₄)]
  rfl

end

end World

end SceneGrammar

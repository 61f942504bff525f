/-
A root in its world, and the machine that the two amount to.

`RootData`: a start symbol with all that belongs to it and does not change. `Tracks S recipe depth m w`: the world `w` holds
the root `S` in the state of the machine `m`. The clock is the agenda's, the seed that of the root's source; an expansion
is planned iff the root has an appointment, which is then the only one; and under the root there is nothing, or just what
the recipes grow under the machine's seed (`Shows`).

- `Tracks.handle`: a build does to the world what serving a request does to the machine.
- `Tracks.elapse`: so does an advance of the agenda.
-/
import SceneGrammar.Proofs.Engine.Machine
import SceneGrammar.Proofs.Exact
import SceneGrammar.Proofs.Growth.Congruence
import SceneGrammar.Proofs.Rebuild

namespace SceneGrammar

variable {α κ σ : Type}

/-- a start symbol with all that belongs to it and does not change -/
structure RootData (α κ : Type) where
  shape : ShapeId
  node : NodeId
  /-- the node before anything has grown under it -/
  trunk : Node α
  source : SourceId
  trigger : Nat
  kind : κ
  templates : TemplateLibrary α
  eager : Bool
  relief : Option (HeightMap α)
  trunk_id : trunk.id = node
  trunk_parent : trunk.parent = none
  trunk_children : trunk.children = []
  trunk_shape : trunk.shape = some shape
  trunk_alive : trunk.alive = true

/-- what the tree of a seed is grown on -/
def RootData.growthContext (S : RootData α κ) (seed : Int) : GrowthContext α κ :=
  { kind := S.kind, templates := S.templates, eager := S.eager, relief := S.relief, key := RandomSource.keyOf seed }

theorem RootData.trunk_bare (S : RootData α κ) : { S.trunk with children := [] } = S.trunk := by
  rw [← S.trunk_children]

/-- the rules are recipes, and under every seed the root grows without a fault -/
structure RootData.Completes [Scalar α] [SymbolKind κ] (S : RootData α κ) (g : Grammar α κ σ)
    (recipe : κ → Recipe α κ Unit) :
    Prop where
  rule : ∀ kind s, g.rule kind s = (recipe kind).toProg s
  grows : ∀ seed, seed ≠ 0 → ∃ P, Recipe.growWithin (S.growthContext seed) recipe g.nesting none .bare = .ok () P

namespace World

/-- the root has generated nothing, or what the recipes grow under a seed -/
def Shows [Scalar α] (S : RootData α κ) (recipe : κ → Recipe α κ Unit) (depth : Nat) (w : World α κ σ) :
    Option Int → Prop
  | none => w.generatedBy S.shape = []
  | some seed => ∃ F P, F.root = S.node ∧ F.rootShape = S.shape ∧ F.trunk = S.trunk ∧
    Represents F (S.growthContext seed) w P ∧
      Recipe.growWithin (S.growthContext seed) recipe depth none .bare = .ok () P

/-- nothing is planned, or the expansion of a root that has generated nothing and whose source has drawn nothing -/
def Awaits (S : RootData α κ) (m : Machine α) (w : World α κ σ) : Option α → Prop
  | none => w.agenda.pending = []
  | some d => m.content = none ∧ w.sources[S.source]? = some ⟨m.seed, some (RandomSource.keyOf m.seed), 0⟩ ∧
      ∃ e ∈ w.agenda.heap, e.cancelled = false ∧ e.due = d ∧ e.node = S.node ∧ e.shape = S.shape ∧
        w.agenda.pending = [(S.node, e.number)]

/-- the world holds the root in the state of the machine -/
structure Tracks [Scalar α] (S : RootData α κ) (recipe : κ → Recipe α κ Unit) (depth : Nat) (m : Machine α)
    (w : World α κ σ) : Prop where
  sound : w.Sound
  shape : ∃ x, w.shape? S.shape = some x ∧ x.kind = S.kind ∧ x.node = some S.node ∧ x.rootKey = some S.node ∧
    firstSource? x.components = some S.source ∧ firstRelief? x.components = S.relief
  node : w.node? S.node = some { S.trunk with children := w.generatedBy S.shape }
  templates : w.templates = S.templates
  eager : w.eager = S.eager
  live : w.live = true
  trigger : ∃ t, w.desk.triggers[S.trigger]? = some t ∧ t.root = S.shape ∧ t.source = some S.source
  now : w.agenda.now = m.clock
  order : w.agenda.Ordered
  source : ∃ r, w.sources[S.source]? = some r ∧ r.seed = m.seed
  nonzero : m.seed ≠ 0
  told : m.content ≠ some 0
  due : Awaits S m w m.due
  content : Shows S recipe depth w m.content

/-! ## The agenda -/

/-- what every cancellation keeps is kept when nodes end -/
theorem cancelAll_keeps {I : Agenda α → Prop} (hI : ∀ a n, I a → I (a.cancel n).2) (w : World α κ σ)
    (dead : List NodeId) {a : Agenda α} (h : I a) : I (w.cancelAll dead a) := by
  induction dead generalizing a with
  | nil => exact h
  | cons n dead ih =>
    apply ih
    show I (if (w.shapeOn? n).isSome then (a.cancel n).2 else a)
    split_ifs
    · exact hI a n h
    · exact h

/-! ## The root -/

section

variable [Scalar α] {S : RootData α κ} {recipe : κ → Recipe α κ Unit} {depth : Nat} {m : Machine α} {w v : World α κ σ}

theorem Tracks.home (t : Tracks S recipe depth m w) : w.homeOf S.shape = some S.node := by
  obtain ⟨x, hx, -, hn, -⟩ := t.shape
  rw [homeOf, hx]
  exact hn

theorem Tracks.rootKey (t : Tracks S recipe depth m w) : w.rootKeyAt S.shape = some S.node := by
  obtain ⟨x, hx, -, -, hr, -⟩ := t.shape
  rw [rootKeyAt, hx]
  exact hr

theorem Tracks.alive (t : Tracks S recipe depth m w) : w.isAlive S.node = true :=
  isAlive_iff.2 ⟨_, t.node, S.trunk_alive⟩

/-- a trigger stands ready for the root -/
theorem Tracks.triggerReady (t : Tracks S recipe depth m w) : w.TriggerReady S.trigger S.shape S.source S.kind where
  trigger := t.trigger
  shape := by
    obtain ⟨x, hx, hk, -, -, hs, -⟩ := t.shape
    exact ⟨x, hx, hk, hs⟩
  start := ⟨S.node, t.home, t.rootKey, t.alive⟩
  known := by
    obtain ⟨r, hr, -⟩ := t.source
    exact (Array.getElem?_eq_some_iff.1 hr).1

theorem Tracks.growthContext_eq (t : Tracks S recipe depth m w) (seed : Int) :
    w.growthContext S.shape S.kind seed = S.growthContext seed := by
  obtain ⟨x, hx, -, -, -, -, hr⟩ := t.shape
  have hcs : w.componentsOf S.shape = x.components := by rw [componentsOf, hx]; rfl
  rw [World.growthContext, RootData.growthContext, t.templates, t.eager, hcs, hr]

/-- what the root has generated lives -/
theorem Tracks.generated_alive (t : Tracks S recipe depth m w) {k : NodeId} (hk : k ∈ w.generatedBy S.shape) :
    w.isAlive k = true := by
  have hchild : k ∈ w.children S.node := by
    rw [World.children, t.node]
    exact hk
  exact (t.sound.parent_alive k S.node ((t.sound.mem_children k S.node).1 hchild)).1

/-- whatever is pending is the root's -/
theorem Tracks.pending_own (t : Tracks S recipe depth m w) {p : Nat × Nat} (hp : p ∈ w.agenda.pending) : p.1 = S.node := by
  have hdue := t.due
  cases hd : m.due with
  | none =>
    rw [hd] at hdue
    have hnil : w.agenda.pending = [] := hdue
    rw [hnil] at hp
    exact absurd hp (by simp)
  | some d =>
    rw [hd] at hdue
    obtain ⟨-, -, e, -, -, -, -, -, hpending⟩ := hdue
    rw [hpending] at hp
    rw [List.mem_singleton.1 hp]

/-- the root after its content is deleted and its source started again -/
theorem Tracks.cleared (t : Tracks S recipe depth m w) {seed : Int} (hseed : seed ≠ 0) {trunk : Node α}
    {dead : List NodeId} (hv : Sound v) (f : Unexpanded v (S.growthContext seed) S.shape S.node trunk S.source seed)
    (c : Cleared w v S.shape S.node trunk dead) :
    Tracks S recipe depth { m with seed, due := none, content := none } v where
  sound := hv
  shape := f.shape
  node := by
    have hnode := c.node
    rw [t.node, Option.map_some] at hnode
    have hnil : (w.generatedBy S.shape).filter (· ∉ dead) = [] := by
      refine List.filter_eq_nil_iff.2 fun k hk => ?_
      simpa using c.hit k hk (t.generated_alive hk)
    simp only [hnil] at hnode
    rw [f.node, f.bare, ← hnode]
  templates := f.templates
  eager := f.eager
  live := c.live.trans t.live
  trigger := by
    rw [c.desk]
    exact t.trigger
  now := by
    rw [c.agenda, Agenda.now_cancel]
    exact cancelAll_keeps (fun a n h => (Agenda.now_cancel a n).trans h) w dead t.now
  order := by
    rw [c.agenda]
    exact (cancelAll_keeps (I := Agenda.Ordered) (fun a n h => h.cancel n) w dead t.order).cancel S.node
  source := ⟨_, f.source, rfl⟩
  nonzero := hseed
  told := by simp
  due := by
    -- what was pending belonged to the root
    have hown : ∀ p ∈ (w.cancelAll dead w.agenda).pending, p.1 = S.node :=
      cancelAll_keeps (I := fun a => ∀ p ∈ a.pending, p.1 = S.node) (fun a n h p hp => by
        rw [Agenda.pending_cancel] at hp
        exact h p (List.mem_filter.1 hp).1) w dead fun p hp => t.pending_own hp
    show v.agenda.pending = []
    rw [c.agenda, Agenda.pending_cancel]
    refine List.filter_eq_nil_iff.2 fun p hp => ?_
    simp [hown p hp]
  content := f.bare

/-- a root under which nothing grows -/
theorem Tracks.unexpanded (t : Tracks S recipe depth m w) (hc : m.content = none)
    (hs : w.sources[S.source]? = some ⟨m.seed, some (RandomSource.keyOf m.seed), 0⟩) :
    Unexpanded w (S.growthContext m.seed) S.shape S.node S.trunk S.source m.seed where
  shape := t.shape
  node := by
    have hbare := t.content
    rw [hc] at hbare
    have hnil : w.generatedBy S.shape = [] := hbare
    rw [t.node, hnil, S.trunk_bare]
  alive := S.trunk_alive
  bare := by
    have hbare := t.content
    rw [hc] at hbare
    exact hbare
  source := hs
  templates := t.templates
  eager := t.eager

/-- what the root shows is not changed by the agenda and the desk -/
theorem Shows.reset {c : Option Int} (h : Shows S recipe depth w c) (agenda : Agenda α) (desk : Desk α) :
    Shows S recipe depth { w with agenda, desk } c := by
  cases c with
  | none => exact h
  | some seed =>
    obtain ⟨F, P, hroot, hshape, htrunk, hb, hP⟩ := h
    exact ⟨{ F with live := w.live, agenda, desk }, P, hroot, hshape, htrunk, hb.reset w.live agenda desk, hP⟩

/-- the desk may change as long as the trigger stays -/
theorem Tracks.redesk (t : Tracks S recipe depth m w) {desk : Desk α}
    (hd : ∃ x, desk.triggers[S.trigger]? = some x ∧ x.root = S.shape ∧ x.source = some S.source) :
    Tracks S recipe depth m { w with desk } :=
  { t with
    sound := t.sound.elsewhere
    trigger := hd
    content := t.content.reset w.agenda desk }

/-- an appointment that is cancelled is not missed -/
theorem Tracks.dropped [ExactScalar α] (t : Tracks S recipe depth m w) {e : Appointment α} {a : Agenda α}
    (hp : w.agenda.popDue = some (e, a)) (he : e.cancelled = true) :
    Tracks S recipe depth m { w with agenda := a } := by
  have hmem {f : Appointment α} := Agenda.mem_of_popDue hp (f := f)
  have hsound := t.sound.dropped hp he
  have horder := t.order.popDue beforeRanks hp
  obtain ⟨-, -, rest, -, rfl⟩ := Agenda.popDue_cases hp
  exact
    { t with
      sound := hsound
      order := horder
      due := by
        have hdue := t.due
        cases hd : m.due with
        | none =>
          rw [hd] at hdue
          exact hdue
        | some d =>
          rw [hd] at hdue
          obtain ⟨hc, hs, f, hf, hfc, hf'⟩ := hdue
          refine ⟨hc, hs, f, (hmem.1 hf).resolve_left ?_, hfc, hf'⟩
          rintro rfl
          rw [he] at hfc
          exact absurd hfc (by simp)
      content := t.content.reset _ w.desk }

/-- an appointment that comes up is the root's, and then nothing is planned -/
theorem Tracks.settled [ExactScalar α] (t : Tracks S recipe depth m w) {e : Appointment α} {a : Agenda α}
    (hp : w.agenda.popDue = some (e, a)) (he : e.cancelled = false) :
    e.shape = S.shape ∧ m.content = none ∧ m.settle = { m with due := none, content := some m.seed } ∧
      w.sources[S.source]? = some ⟨m.seed, some (RandomSource.keyOf m.seed), 0⟩ ∧
      Tracks S recipe depth { m with due := none } { w with agenda := a.settle e.node } := by
  have hin : e ∈ w.agenda.heap := (Agenda.mem_of_popDue hp).2 (Or.inl rfl)
  have hpending := (t.sound.agenda_sound.live e hin).1 he
  have hsound := t.sound.settled hp he
  have horder := t.order.popDue beforeRanks hp
  have hdue := t.due
  cases hd : m.due with
  | none =>
    rw [hd] at hdue
    have hnil : w.agenda.pending = [] := hdue
    rw [hnil] at hpending
    exact absurd hpending (by simp)
  | some d =>
    rw [hd] at hdue
    obtain ⟨hc, hs, f, hf, -, hfd, hfn, hfs, hone⟩ := hdue
    -- the root's appointment is the only one that is pending
    have hsame : e = f := by
      rw [hone, List.mem_singleton, Prod.mk.injEq] at hpending
      exact t.sound.agenda_sound.eq_of_number hin hf hpending.2
    subst hsame
    obtain ⟨-, hle, rest, -, rfl⟩ := Agenda.popDue_cases hp
    rw [hfd, t.now] at hle
    refine ⟨hfs, hc, by simp only [Machine.settle, hd, if_pos hle], hs, ?_⟩
    exact
      { t with
        sound := hsound
        order := horder
        due := by
          show w.agenda.pending.filter (fun p => p.1 != e.node) = []
          simp [hone, hfn]
        content := t.content.reset _ w.desk }

/-- when nothing more comes up, nothing planned is due -/
theorem Tracks.rests [ExactScalar α] (t : Tracks S recipe depth m w) (hp : w.agenda.popDue = none) :
    m.settle = m := by
  have hdue := t.due
  unfold Machine.settle
  cases hd : m.due with
  | none => rfl
  | some d =>
    rw [hd] at hdue
    obtain ⟨-, -, e, he, -, hed, -⟩ := hdue
    have hlate := t.order.not_due hp he
    rw [hed, t.now] at hlate
    simp only [if_neg hlate]

/-- ticks and the queue are the loop's own -/
theorem Tracks.recount (t : Tracks S recipe depth m w) (tick : Nat) (queue : List (Request α)) :
    Tracks S recipe depth { m with tick, queue } w := { t with sound := t.sound }

/-- a build is counted on the desk -/
theorem Tracks.counted (t : Tracks S recipe depth m w) : Tracks S recipe depth m
    { w with desk := w.desk.mapTrigger S.trigger fun x => { x with builds := x.builds + 1 } } := by
  apply t.redesk
  obtain ⟨x, hx, hroot, hsource⟩ := t.trigger
  exact ⟨{ x with builds := x.builds + 1 }, by simp [Desk.mapTrigger, Array.getElem?_modify, hx], hroot, hsource⟩

end

section

variable [Scalar α] [SymbolKind κ] {S : RootData α κ} {recipe : κ → Recipe α κ Unit} {m : Machine α}
  {w : World α κ σ} {g : Grammar α κ σ}

/-- **An expansion.** Under a root that has generated nothing, its tree grows. -/
theorem Tracks.expand (hS : S.Completes g recipe) (t : Tracks S recipe g.nesting m w) (hc : m.content = none)
    (hd : m.due = none) (hs : w.sources[S.source]? = some ⟨m.seed, some (RandomSource.keyOf m.seed), 0⟩) :
    ∃ v, runExpansion (g.expandWithin g.nesting) S.shape w = .ok () v ∧ v.desk = w.desk ∧ v.agenda = w.agenda ∧
      Tracks S recipe g.nesting { m with content := some m.seed } v := by
  have f := t.unexpanded hc hs
  obtain ⟨P, hP⟩ := hS.grows m.seed t.nonzero
  have hsteps := runExpansion_steps hS.rule t.sound (shapeAlive_iff.2 ⟨S.node, t.home, t.alive⟩) g.nesting
  have hstems : P.stems = P.top := by
    have hlisted := @Recipe.growWithin_stemsListed α κ _ (S.growthContext m.seed) recipe g.nesting .bare none
      (fun j hj => absurd hj (by simp)) rfl
    rw [hP] at hlisted
    exact hlisted.1
  rcases (f.grows hS.rule t.sound g.nesting).cases with ⟨a, v, b, Q, hv, hQ, -, hb, -⟩ | ⟨e, v, Q, -, hQ, -, -⟩
  · obtain rfl : P = Q := by
      rw [hP] at hQ
      exact (EStateM.Result.ok.inj hQ).2
    rw [Act.after_ok hv] at hsteps
    have hagenda : v.agenda = w.agenda := congrArg Setting.agenda hb.setting
    have hdesk : v.desk = w.desk := congrArg Setting.desk hb.setting
    have hlive : v.live = w.live := congrArg Setting.live hb.setting
    refine ⟨v, hv, hdesk, hagenda, ?_⟩
    exact
      { sound := hsteps.sound t.sound
        shape := hb.root
        node := by
          have hnode := hb.trunk
          have htop : v.generatedBy S.shape = _ := hb.top
          rw [htop, ← hstems]
          simpa [placement, S.trunk_children] using hnode
        templates := hb.templates
        eager := hb.eager
        live := hlive.trans t.live
        trigger := hdesk ▸ t.trigger
        now := hagenda ▸ t.now
        order := hagenda ▸ t.order
        source := ⟨_, hb.source, rfl⟩
        nonzero := t.nonzero
        told := fun h0 => t.nonzero (Option.some.inj h0)
        due := by
          have hdue := t.due
          rw [hd] at hdue ⊢
          show v.agenda.pending = []
          rw [hagenda]
          exact hdue
        content := ⟨_, P, rfl, rfl, rfl, hb, hP⟩ }
  · rw [hP] at hQ
    exact absurd hQ (by simp)

/-- **A plan.** An expansion of the root is planned where none is. -/
theorem Tracks.plan [ExactScalar α] {depth : Nat} (t : Tracks S recipe depth m w) (hc : m.content = none)
    (hd : m.due = none) (hs : w.sources[S.source]? = some ⟨m.seed, some (RandomSource.keyOf m.seed), 0⟩) {delay : α}
    (hdelay : ¬ delay < Scalar.zero) :
    ∃ v, schedule S.shape delay w = .ok () v ∧ v.desk = w.desk ∧
      Tracks S recipe depth { m with due := some (m.clock + delay) } v := by
  have hnone : w.agenda.pending = [] := by
    have hdue := t.due
    rw [hd] at hdue
    exact hdue
  refine ⟨{ w with agenda := w.agenda.schedule S.node S.shape delay }, ?_, rfl, ?_⟩
  · unfold schedule
    simp only [if_neg hdelay, nodeOf_eq_ok_iff.2 t.home]
  · exact
      { t with
        sound := t.sound.schedule t.alive t.home delay
        now := by
          show (w.agenda.cancel S.node).2.now = _
          rw [Agenda.now_cancel]
          exact t.now
        order := t.order.schedule beforeRanks _ _ _
        due := by
          refine ⟨hc, hs, _, Agenda.mem_heap_schedule.2 (Or.inl rfl), rfl, ?_, rfl, rfl, ?_⟩
          · show w.agenda.now + delay = _
            rw [t.now]
          · show (w.agenda.schedule S.node S.shape delay).pending = _
            rw [Agenda.pending_schedule, hnone]
            rfl
        content := t.content.reset _ w.desk }

/-- **A request.** A build does what serving a request does. -/
theorem Tracks.handle [ExactScalar α] (hS : S.Completes g recipe) (t : Tracks S recipe g.nesting m w) {r : Request α}
    (hdelay : ¬ r.delay < Scalar.zero) (hseed : r.seed ≠ some 0) :
    ∃ v, (Engine.build S.trigger r.delay r.seed).run g w = .ok () v ∧ v.desk.loop = w.desk.loop ∧
      Tracks S recipe g.nesting (m.handle r) v := by
  obtain ⟨x, hx, hxs⟩ := t.source
  have hnonzero : r.seed.getD m.seed ≠ 0 := by
    cases hr : r.seed with
    | none => exact t.nonzero
    | some k => exact fun hk => hseed (hr.trans (congrArg some hk))
  obtain ⟨v, trunk, dead, hv, f, c, hbuild⟩ :=
    t.triggerReady.build_cleared t.sound g t.home hx hnonzero r.seed (by rw [hxs]) hdelay
  rw [t.growthContext_eq] at f
  have hcleared := t.cleared hnonzero hv f c
  have hloop {u : World α κ σ} (hu : u.desk = v.desk) : u.desk.loop = w.desk.loop := by rw [hu, c.desk]
  by_cases hzero : (r.delay == Scalar.zero) = true
  · obtain ⟨u, hu, hdesk, -, tu⟩ := hcleared.expand hS rfl rfl f.source
    rw [hzero, Bool.true_or, if_pos rfl, hu] at hbuild
    refine ⟨_, hbuild, show u.desk.loop = _ from hloop hdesk, ?_⟩
    have hm : m.handle r = { m with seed := r.seed.getD m.seed, due := none, content := some (r.seed.getD m.seed) } := by
      simp only [Machine.handle, hzero, if_true]
    rw [hm]
    exact tu.counted
  · obtain ⟨u, hu, hdesk, tu⟩ := hcleared.plan rfl rfl f.source hdelay
    have hwait : ¬ (r.delay == Scalar.zero || !v.live) = true := by
      rw [hcleared.live]
      simpa using hzero
    rw [if_neg hwait, hu] at hbuild
    refine ⟨_, hbuild, show u.desk.loop = _ from hloop hdesk, ?_⟩
    have hm : m.handle r =
        { m with seed := r.seed.getD m.seed, due := some (m.clock + r.delay), content := none } := by
      simp only [Machine.handle, if_neg hzero]
    rw [hm]
    exact tu.counted

/-- **What is due.** Running it does what settling the machine does, and expands nothing but the root. -/
theorem Tracks.runDue [ExactScalar α] (hS : S.Completes g recipe) (passes : Nat) (done : List ShapeId)
    (t : Tracks S recipe g.nesting m w) (hsize : w.agenda.heap.size ≤ passes) :
    ∃ xs v, World.runDue (g.expandWithin g.nesting) passes done w = .ok (done.reverse ++ xs) v ∧ v.desk = w.desk ∧
      (∀ s ∈ xs, s = S.shape) ∧ Tracks S recipe g.nesting m.settle v := by
  induction passes generalizing done m w with
  | zero =>
    have hp : w.agenda.popDue = none := by
      have hnone : w.agenda.heap[0]? = none := Array.getElem?_eq_none hsize
      simp [Agenda.popDue, hnone]
    refine ⟨[], w, ?_, rfl, by simp, (t.rests hp).symm ▸ t⟩
    rw [runDue_none hp, List.append_nil]
  | succ passes ih =>
    cases hp : w.agenda.popDue with
    | none =>
      refine ⟨[], w, ?_, rfl, by simp, (t.rests hp).symm ▸ t⟩
      rw [runDue_none hp, List.append_nil]
    | some p =>
      obtain ⟨e, a⟩ := p
      have hless : a.heap.size ≤ passes := by
        obtain ⟨-, -, rest, hpop, rfl⟩ := Agenda.popDue_cases hp
        have hperm := (Heap.pop_perm hpop).length_eq
        simp only [List.length_cons, Array.length_toList] at hperm
        show rest.size ≤ passes
        omega
      by_cases he : e.cancelled = true
      · obtain ⟨xs, v, hv, hdesk, hxs, tv⟩ := ih done (t.dropped hp he) hless
        exact ⟨xs, v, (runDue_cancelled hp he).trans hv, hdesk, hxs, tv⟩
      · rw [Bool.not_eq_true] at he
        obtain ⟨hshape, hc, hsettle, hs, tu⟩ := t.settled hp he
        obtain ⟨z, hz, hzdesk, hzagenda, tz⟩ := tu.expand hS hc rfl hs
        obtain ⟨xs, v, hv, hdesk, hxs, tv⟩ := ih (e.shape :: done) tz (by rw [hzagenda]; exact hless)
        refine ⟨e.shape :: xs, v, ?_, hdesk.trans hzdesk, ?_, hsettle ▸ tv⟩
        · have halive : w.shapeAlive e.shape = true := by
            rw [hshape]
            exact shapeAlive_iff.2 ⟨S.node, t.home, t.alive⟩
          rw [runDue_run hp he halive (hshape ▸ hz), hv]
          simp
        · intro s hmem
          rcases List.mem_cons.1 hmem with rfl | hmem
          · exact hshape
          · exact hxs s hmem

/-- **An advance.** Moving the clock does what it does to the machine. -/
theorem Tracks.elapse [ExactScalar α] (hS : S.Completes g recipe) (t : Tracks S recipe g.nesting m w) {dt : α}
    (hdt : ¬ dt < Scalar.zero) :
    ∃ xs v, World.advance (g.expandWithin g.nesting) g.spare dt w = .ok xs v ∧ v.desk = w.desk ∧
      (∀ s ∈ xs, s = S.shape) ∧ Tracks S recipe g.nesting (m.elapse dt) v := by
  have hticked : Tracks S recipe g.nesting { m with clock := m.clock + dt } { w with agenda := w.agenda.tick dt } :=
    { t with
      sound := t.sound.tick dt
      now := by
        show w.agenda.now + dt = _
        rw [t.now]
      content := t.content.reset _ w.desk }
  obtain ⟨xs, v, hv, hdesk, hxs, tv⟩ := hticked.runDue hS (w.agenda.heap.size + g.spare) [] (Nat.le_add_right _ _)
  refine ⟨xs, v, ?_, hdesk, hxs, tv⟩
  unfold World.advance
  rw [if_neg hdt]
  exact hv

end

end World

end SceneGrammar

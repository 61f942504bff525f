/-
What is reported of builds and expansions.

The `ledger` of a desk is all that is on it but the requests that wait. `Books t l`: the trigger of the loop is `t`, and the
loop is `l`, whatever waits. What leaves the ledger alone leaves the books as they are (`Books.keeps`). A build that is
completed is counted by its trigger, and its root has a node to be reported with (`Books.build`); so have the shapes that an
advance answers with (`advance_answer`). Hence no report fails (`Books.emit`, `Books.reportExpansions`).

`built` and `expandedIn` are records of what is completed, whether or not something fails later: the builds of several in
turn, each with the world it leaves, and the shapes whose delayed expansion ends within an advance, which are those of its
course but for a last one that fails (`Drains.expandedDue`). `Books.fulfil`: where builds are made in turn, each that is
completed is reported, in order, before the next is begun.
-/
import SceneGrammar.Proofs.Engine.Requests
import SceneGrammar.Proofs.Residence
import SceneGrammar.Proofs.Timing.Course

namespace SceneGrammar

variable {α κ σ β : Type}

/-! ## The ledger -/

/-- the desk, as if no requests waited -/
def Desk.ledger (d : Desk α) : Desk α := d.mapLoop fun l => { l with requests := [] }

/-- a loop that has reported some events -/
def Loop.reports (l : Loop α) (es : List (Event α)) : Loop α :=
  { l with recent := l.recent ++ es, log := l.log.map fun r => es.foldl Ring.push r }

@[simp] theorem Loop.reports_nil (l : Loop α) : l.reports [] = l := by simp [reports]

theorem Loop.reports_reports (l : Loop α) (es fs : List (Event α)) : (l.reports es).reports fs = l.reports (es ++ fs) := by
  simp only [reports, List.append_assoc, Option.map_map, List.foldl_append]
  rfl

/-- a trigger that has completed so many more builds -/
def Trigger.counting (t : Trigger) (n : Nat) : Trigger := { t with builds := t.builds + n }

theorem Trigger.counting_counting (t : Trigger) (m n : Nat) : (t.counting m).counting n = t.counting (m + n) := by
  rw [counting, counting, counting, Nat.add_assoc]

/-- something to be built, and what is to be reported of it -/
structure Order (α : Type) where
  request : Request α
  happening : String → Happening α

/-- make a build and report it -/
def Engine.fulfil [Scalar α] [SymbolKind κ] (i : Nat) (root : ShapeId) (o : Order α) : Prog α κ σ Unit := do
  build i o.request.delay o.request.seed
  emit root o.happening

namespace World

variable {w v : World α κ σ} {t : Trigger} {l : Loop α}

/-- a loop and its trigger, whatever waits -/
structure Books (w : World α κ σ) (t : Trigger) (l : Loop α) : Prop where
  trigger : w.desk.triggers[l.trigger]? = some t
  loop : ∃ rs, w.desk.loop = some { l with requests := rs }

/-- what leaves the ledger alone leaves the books as they are -/
theorem Books.keeps (h : w.Books t l) (hv : v.desk.ledger = w.desk.ledger) : v.Books t l where
  trigger := by
    have htriggers : v.desk.ledger.triggers = w.desk.ledger.triggers := congrArg Desk.triggers hv
    change v.desk.triggers = w.desk.triggers at htriggers
    rw [htriggers, h.trigger]
  loop := by
    obtain ⟨rs, hl⟩ := h.loop
    have hloop : v.desk.loop.map (fun l => { l with requests := [] }) = w.desk.loop.map fun l => { l with requests := [] } :=
      congrArg Desk.loop hv
    rw [hl, Option.map_some, Option.map_eq_some_iff] at hloop
    obtain ⟨m, hm, heq⟩ := hloop
    cases m
    cases heq
    exact ⟨_, hm⟩

/-- a change of the loop that keeps its trigger and does not depend on what waits -/
theorem Books.mapLoop (h : w.Books t l) {f : Loop α → Loop α} (ht : (f l).trigger = l.trigger)
    (hf : ∀ rs, ∃ qs, f { l with requests := rs } = { f l with requests := qs }) :
    Books { w with desk := w.desk.mapLoop f } t (f l) where
  trigger := by
    rw [ht]
    exact h.trigger
  loop := by
    obtain ⟨rs, hl⟩ := h.loop
    obtain ⟨qs, hq⟩ := hf rs
    exact ⟨qs, by simp only [Desk.mapLoop, hl, Option.map_some, hq]⟩

/-! ## Events -/

/-- the name of the node of a shape -/
def titleOf (w : World α κ σ) (s : ShapeId) : String := (((w.homeOf s).bind w.node?).map (·.name)).getD ""

/-- an event about a shape -/
def event (w : World α κ σ) (tick : Nat) (s : ShapeId) (h : String → Happening α) : Event α :=
  ⟨tick, h (w.titleOf s), (w.homeOf s).getD 0⟩

/-- the event that tells of a delayed expansion -/
def expansion (w : World α κ σ) (tick : Nat) (s : ShapeId) : Event α :=
  w.event tick s fun name => .expanded name (w.generatedBy s).length

variable [Scalar α] [SymbolKind κ] {g : Grammar α κ σ} {s : ShapeId}

theorem Books.changeLoop (h : w.Books t l) {f : Loop α → Loop α} (ht : (f l).trigger = l.trigger)
    (hf : ∀ rs, ∃ qs, f { l with requests := rs } = { f l with requests := qs }) :
    ∃ v, (Engine.changeLoop f).run g w = .ok () v ∧ v.Books t (f l) := ⟨_, run_changeLoop g f w, h.mapLoop ht hf⟩

/-- a shape that has a node can be reported -/
theorem run_emit (hs : (w.homeOf s).isSome = true) (h : String → Happening α) :
    (Engine.emit s h).run g w =
      .ok () { w with desk := w.desk.mapLoop fun l => l.reports [w.event l.tick s h] } := by
  obtain ⟨n, hn⟩ := Option.isSome_iff_exists.1 hs
  have hnode : w.nodeOf s = .ok n := nodeOf_eq_ok_iff.2 hn
  have hname : w.nameOf s = .ok (w.titleOf s) := by
    rw [nameOf, hnode, titleOf, hn]
    rfl
  have hhome : (w.homeOf s).getD 0 = n := by rw [hn, Option.getD_some]
  unfold Engine.emit
  rw [Prog.run_bind_ok (b := w.titleOf s) (v := w) (by simp only [Prog.run, Prog.ask, Prog.exec, hname]),
    Prog.run_bind_ok (b := n) (v := w) (by simp only [Prog.run, Prog.ask, Prog.exec, hnode]), run_changeLoop, ← hhome]
  rfl

omit [Scalar α] [SymbolKind κ] in
theorem Books.emit (b : w.Books t l) (s : ShapeId) (h : String → Happening α) :
    Books { w with desk := w.desk.mapLoop fun l => l.reports [w.event l.tick s h] } t (l.reports [w.event l.tick s h]) :=
  b.mapLoop (f := fun l => l.reports [w.event l.tick s h]) rfl fun rs => ⟨rs, rfl⟩

/-- delayed expansions are reported in turn, if all the shapes have nodes; the scene is left alone -/
theorem Books.reportExpansions (b : w.Books t l) (xs : List ShapeId) (hxs : ∀ s ∈ xs, (w.homeOf s).isSome = true) :
    ∃ v, (xs.forM Engine.reportExpansion).run g w = .ok () v ∧ v.Books t (l.reports (xs.map (w.expansion l.tick))) := by
  -- reports change the desk alone, so what they tell is the same whenever they come
  suffices h : ∀ (d₀ : Desk α) (l : Loop α), Books { w with desk := d₀ } t l →
      ∃ v, (xs.forM Engine.reportExpansion).run g { w with desk := d₀ } = .ok () v ∧
        v.Books t (l.reports (xs.map (w.expansion l.tick))) from h w.desk l b
  induction xs with
  | nil => exact fun d₀ l b => ⟨_, rfl, by rwa [List.map_nil, Loop.reports_nil]⟩
  | cons s xs ih =>
    intro d₀ l b
    have hreport : (Engine.reportExpansion s).run g { w with desk := d₀ } = _ :=
      run_emit (w := { w with desk := d₀ }) (hxs s List.mem_cons_self) fun name => .expanded name (w.generatedBy s).length
    obtain ⟨v, hv, bv⟩ := ih (fun q hq => hxs q (List.mem_cons_of_mem s hq)) _ _
      (b.emit s fun name => .expanded name (w.generatedBy s).length)
    refine ⟨v, ?_, ?_⟩
    · show (Engine.reportExpansion s >>= fun _ => xs.forM Engine.reportExpansion).run g _ = _
      rw [Prog.run_bind_ok hreport]
      exact hv
    · rw [Loop.reports_reports] at bv
      exact bv

/-! ## Builds -/

/-- after a regeneration that ends without a fault the shape has a node -/
theorem generate_homed {depth : Nat} {delay : α} (h : generate (g.expandWithin depth) s delay w = .ok () v) :
    (v.homeOf s).isSome = true := by
  unfold generate at h
  split_ifs at h
  cases hd : deleteGenerated s w with
  | error e u =>
    rw [hd] at h
    cases h
  | ok _ u =>
    rw [hd] at h
    simp only at h
    cases hn : u.nodeOf s with
    | error e =>
      rw [hn] at h
      cases h
    | ok n =>
      have hhome : ({ u with agenda := (u.agenda.cancel n).2 } : World α κ σ).homeOf s = some n := nodeOf_eq_ok_iff.1 hn
      rw [hn] at h
      simp only at h
      split_ifs at h
      · have hrun : Moves anything { u with agenda := (u.agenda.cancel n).2 } _ :=
          runExpansion_moves (expandWithin_moves g depth s (.single (.begins s)))
        rw [Act.after_ok h] at hrun
        exact hrun.keepsHomes s (Option.isSome_of_eq_some hhome)
      · rw [← Act.after_ok h]
        rcases schedule_cases { u with agenda := (u.agenda.cancel n).2 } s delay with hs | ⟨m, -, hs⟩ <;> rw [hs] <;>
          exact Option.isSome_of_eq_some hhome

omit [Scalar α] in
theorem prime_deskless (t : Trigger) (seed : Option Int) : (Engine.prime t seed : Prog α κ σ Unit).Deskless := by
  unfold Engine.prime
  cases t.source with
  | some i => exact ⟨False.elim, fun _ => trivial⟩
  | none =>
    cases seed with
    | none => trivial
    | some seed =>
      intro r
      cases r with
      | ok name => exact ⟨False.elim, fun _ => trivial⟩
      | error e => trivial

/-- **A build.** If it is completed, its trigger counts it, and its root has a node; if not, the books are as they were. -/
theorem Books.build (hg : ∀ s, (g.expandWithin g.nesting s).Keeps Desk.ledger) (b : w.Books t l) (delay : α)
    (seed : Option Int) :
    (∃ v, (Engine.build l.trigger delay seed).run g w = .ok () v ∧ v.Books (t.counting 1) l ∧
        (v.homeOf t.root).isSome = true) ∨
      ∃ e v, (Engine.build l.trigger delay seed).run g w = .error e v ∧ v.Books t l := by
  have hprime : ((Engine.prime t seed).run g : Act α κ σ Unit).Keeps Desk.ledger := (prime_deskless t seed).exec g.spare hg
  have hgenerate : ((Prog.act (.generate t.root delay)).run g : Act α κ σ Unit).Keeps Desk.ledger :=
    Prog.Deskless.exec g.spare hg ⟨False.elim, fun _ => trivial⟩
  unfold Engine.build
  rw [Prog.run_bind_ok (run_trigger b.trigger), Prog.run_bind]
  cases hp : (Engine.prime t seed).run g w with
  | error e v => exact .inr ⟨e, v, rfl, b.keeps (hprime.error hp)⟩
  | ok _ v =>
    have bv := b.keeps (hprime.ok hp)
    simp only
    rw [Prog.run_bind]
    cases hr : (Prog.act (.generate t.root delay)).run g v with
    | error e u => exact .inr ⟨e, u, rfl, bv.keeps (hgenerate.error hr)⟩
    | ok _ u =>
      have bu := bv.keeps (hgenerate.ok hr)
      refine .inl ⟨_, rfl, ⟨?_, bu.loop⟩, ?_⟩
      · show (u.desk.triggers.modify l.trigger fun t => t.counting 1)[l.trigger]? = _
        rw [Array.getElem?_modify, if_pos rfl, bu.trigger]
        rfl
      · have hregenerated : generate (g.expandWithin g.nesting) t.root delay v = .ok () u := by
          simp only [Prog.run, Prog.act, Prog.exec, perform] at hr
          split at hr
          · cases hr
            assumption
          · cases hr
        have hhome : (u.homeOf t.root).isSome = true := generate_homed hregenerated
        exact hhome

/-- the builds that are completed when some are made in turn, each with the world that it leaves -/
def built (g : Grammar α κ σ) (i : Nat) (root : ShapeId) : List (Order α) → World α κ σ → List (Order α × World α κ σ)
  | [], _ => []
  | o :: os, w =>
    match (Engine.build i o.request.delay o.request.seed).run g w with
    | .error _ _ => []
    | .ok _ v => (o, v) :: built g i root os (((Engine.emit root o.happening).run g).after v)

/-- what is reported of them in a tick -/
def builtEvents (g : Grammar α κ σ) (i : Nat) (root : ShapeId) (tick : Nat) (os : List (Order α)) (w : World α κ σ) :
    List (Event α) := (w.built g i root os).map fun b => b.2.event tick root b.1.happening

/-- builds are completed in the order in which they were ordered -/
theorem built_in_order (i : Nat) (root : ShapeId) (os : List (Order α)) (w : World α κ σ) :
    (w.built g i root os).map Prod.fst <+: os := by
  induction os generalizing w with
  | nil => exact List.prefix_rfl
  | cons o os ih =>
    rw [built]
    cases (Engine.build i o.request.delay o.request.seed).run g w with
    | error e v => exact List.nil_prefix
    | ok _ v =>
      rw [List.map_cons, List.cons_prefix_cons]
      exact ⟨rfl, ih _⟩

/-- **Builds in turn.** Each that is completed is counted and reported; they are all completed just if there is no fault. -/
theorem Books.fulfil (hg : ∀ s, (g.expandWithin g.nesting s).Keeps Desk.ledger) (os : List (Order α)) (b : w.Books t l) :
    let es := builtEvents g l.trigger t.root l.tick os w
    (∃ v, (os.forM (Engine.fulfil l.trigger t.root)).run g w = .ok () v ∧ v.Books (t.counting es.length) (l.reports es) ∧
        es.length = os.length) ∨
      ∃ e v, (os.forM (Engine.fulfil l.trigger t.root)).run g w = .error e v ∧
        v.Books (t.counting es.length) (l.reports es) := by
  induction os generalizing w t l with
  | nil => exact .inl ⟨w, rfl, by simpa [builtEvents, built, Trigger.counting] using b, rfl⟩
  | cons o os ih =>
    show (∃ v, ((Engine.fulfil l.trigger t.root o) >>= fun _ => os.forM (Engine.fulfil l.trigger t.root)).run g w = _ ∧ _) ∨
      ∃ e v, ((Engine.fulfil l.trigger t.root o) >>= fun _ => os.forM (Engine.fulfil l.trigger t.root)).run g w = _ ∧ _
    rw [Prog.run_bind, Engine.fulfil, Prog.run_bind]
    rcases b.build hg o.request.delay o.request.seed with ⟨v, hv, bv, hhome⟩ | ⟨e, v, hv, bv⟩
    · -- the build is reported, and the others follow
      have hemit := run_emit (g := g) hhome o.happening
      have hevents : builtEvents g l.trigger t.root l.tick (o :: os) w = v.event l.tick t.root o.happening ::
          builtEvents g l.trigger t.root l.tick os
            { v with desk := v.desk.mapLoop fun l => l.reports [v.event l.tick t.root o.happening] } := by
        simp only [builtEvents, built, hv, List.map_cons, Act.after_ok hemit]
      rw [hevents]
      simp only [hv, hemit]
      rcases ih (bv.emit t.root o.happening) with ⟨u, hu, bu, hlength⟩ | ⟨e, u, hu, bu⟩
      · rw [Trigger.counting_counting, Loop.reports_reports, Nat.add_comm 1] at bu
        exact .inl ⟨u, hu, bu, congrArg (· + 1) hlength⟩
      · rw [Trigger.counting_counting, Loop.reports_reports, Nat.add_comm 1] at bu
        exact .inr ⟨e, u, hu, bu⟩
    · -- the others are not begun
      have hnone : builtEvents g l.trigger t.root l.tick (o :: os) w = [] := by
        simp only [builtEvents, built, hv, List.map_nil]
      rw [hnone]
      simp only [hv]
      exact .inr ⟨e, v, rfl, by rwa [Loop.reports_nil]⟩

/-! ## Delayed expansions -/

/-- the shapes whose expansion is completed when what is due is run, at most so many appointments, in order; also those
before a failure -/
def expandedDue (expand : ShapeId → Act α κ σ Unit) : Nat → World α κ σ → List ShapeId
  | passes, w =>
    match w.agenda.popDue with
    | none => []
    | some (e, agenda) =>
      match passes with
      | 0 => []
      | passes + 1 =>
        if e.cancelled then expandedDue expand passes { w with agenda }
        else
          let w := { w with agenda := agenda.settle e.node }
          if w.shapeAlive e.shape then
            match runExpansion expand e.shape w with
            | .ok _ w => e.shape :: expandedDue expand passes w
            | .error _ _ => []
          else expandedDue expand passes w

/-- the shapes whose delayed expansion is completed while the clock is moved -/
def expandedIn (g : Grammar α κ σ) (dt : α) (w : World α κ σ) : List ShapeId :=
  if dt < Scalar.zero then []
  else expandedDue (g.expandWithin g.nesting) (w.agenda.heap.size + g.spare) { w with agenda := w.agenda.tick dt }

section

variable {expand : ShapeId → Act α κ σ Unit}

omit [SymbolKind κ]

theorem expandedDue_none {passes : Nat} (hp : w.agenda.popDue = none) : expandedDue expand passes w = [] := by
  unfold expandedDue
  rw [hp]

theorem expandedDue_failed {e : Appointment α} {a : Agenda α} {f : Fault α} (hp : w.agenda.popDue = some (e, a))
    (hc : e.cancelled = false) (halive : w.shapeAlive e.shape = true)
    (hr : runExpansion expand e.shape (w.rebook (a.settle e.node)) = .error f v) (passes : Nat) :
    expandedDue expand (passes + 1) w = [] := by
  unfold expandedDue
  simp only [hp]
  refine (if_neg (by simp [hc])).trans ((if_pos halive).trans ?_)
  rw [rebook] at hr
  rw [hr]

/-- what one pass adds -/
theorem Pass.expandedDue {x : Arrival α} (h : Pass expand w x v) (passes : Nat) :
    expandedDue expand (passes + 1) w = shapesRun [x] ++ expandedDue expand passes v := by
  conv_lhs => unfold World.expandedDue
  cases h with
  | drop hp hc =>
    simp only [hp]
    exact if_pos hc
  | skip hp hc hdead =>
    simp only [hp]
    exact (if_neg (by simp [hc])).trans (if_neg hdead)
  | run hp hc halive hr =>
    simp only [hp]
    refine (if_neg (by simp [hc])).trans ((if_pos halive).trans ?_)
    rw [rebook] at hr
    rw [hr]
    rfl

/-- **Expansions and their course.** What is completed is what its course says, but for the last expansion if it fails. -/
theorem Drains.expandedDue {l : List (Arrival α)} {r : EStateM.Result (Fault α) (World α κ σ) Unit}
    (h : Drains expand w l r) {passes : Nat} (hl : l.length ≤ passes) :
    World.expandedDue expand passes w = shapesRun (match r with
      | .ok _ _ => l
      | .error _ _ => l.dropLast) := by
  induction h generalizing passes with
  | rests hp => exact expandedDue_none hp
  | fails hp hc halive hr =>
    obtain ⟨passes, rfl⟩ : ∃ n, passes = n + 1 := Nat.exists_eq_add_one.2 hl
    exact expandedDue_failed hp hc halive hr passes
  | @pass w v x l r hpass hrest ih =>
    obtain ⟨passes, rfl⟩ : ∃ n, passes = n + 1 := Nat.exists_eq_add_one.2 (Nat.lt_of_lt_of_le (Nat.succ_pos _) hl)
    rw [hpass.expandedDue, ih (Nat.le_of_succ_le_succ hl), ← shapesRun_append]
    cases r with
    | ok _ u => rfl
    | error f u =>
      have hne : l ≠ [] := by
        rintro rfl
        cases hrest
      show shapesRun (x :: l.dropLast) = shapesRun (x :: l).dropLast
      rw [List.dropLast_cons_of_ne_nil hne]

end

/-- the shapes that run in a pass have nodes afterwards, and those that had nodes have them still -/
theorem Pass.homed {depth : Nat} {x : Arrival α} (h : Pass (g.expandWithin depth) w x v) :
    KeepsHomes w v ∧ ∀ s ∈ shapesRun [x], (v.homeOf s).isSome = true := by
  cases h with
  | drop hp hc => exact ⟨keepsHomes_of_shapes rfl, fun s hs => absurd hs List.not_mem_nil⟩
  | skip hp hc hdead => exact ⟨keepsHomes_of_shapes rfl, fun s hs => absurd hs List.not_mem_nil⟩
  | @run _ e a hp hc halive hr =>
    have hrun : Moves anything (w.rebook (a.settle e.node)) _ :=
      runExpansion_moves (expandWithin_moves g depth e.shape (.single (.begins e.shape)))
    rw [Act.after_ok hr] at hrun
    have hkeeps : KeepsHomes w v :=
      (keepsHomes_of_shapes rfl : KeepsHomes w (w.rebook (a.settle e.node))).trans hrun.keepsHomes
    refine ⟨hkeeps, fun s hs => ?_⟩
    obtain rfl : s = e.shape := List.mem_singleton.1 hs
    obtain ⟨n, hn, -⟩ := shapeAlive_iff.1 halive
    exact hkeeps e.shape (Option.isSome_of_eq_some hn)

omit [SymbolKind κ] in
theorem runDue_answer_none {expand : ShapeId → Act α κ σ Unit} {passes : Nat} {done ran : List ShapeId}
    (hp : w.agenda.popDue = none) (h : runDue expand passes done w = .ok ran v)
    (hdone : ∀ s ∈ done, (w.homeOf s).isSome = true) :
    ran = done.reverse ++ expandedDue expand passes w ∧ ∀ s ∈ ran, (v.homeOf s).isSome = true := by
  rw [runDue_none hp] at h
  cases h
  exact ⟨by rw [expandedDue_none hp, List.append_nil], fun s hs => hdone s (List.mem_reverse.1 hs)⟩

/-- the loop answers with what it has completed, and all of that has nodes -/
theorem runDue_answer {depth passes : Nat} {done ran : List ShapeId}
    (h : runDue (g.expandWithin depth) passes done w = .ok ran v) (hdone : ∀ s ∈ done, (w.homeOf s).isSome = true) :
    ran = done.reverse ++ expandedDue (g.expandWithin depth) passes w ∧ ∀ s ∈ ran, (v.homeOf s).isSome = true := by
  induction passes generalizing done w with
  | zero =>
    cases hp : w.agenda.popDue with
    | none => exact runDue_answer_none hp h hdone
    | some q =>
      rw [runDue_zero hp] at h
      cases h
  | succ passes ih =>
    have hgo {x : Arrival α} {u : World α κ σ} (hx : Pass (g.expandWithin depth) w x u) :
        ran = done.reverse ++ expandedDue (g.expandWithin depth) (passes + 1) w ∧ ∀ s ∈ ran, (v.homeOf s).isSome = true := by
      obtain ⟨hkeeps, hruns⟩ := hx.homed
      rw [hx.runDue] at h
      obtain ⟨hran, hhomed⟩ := ih h fun s hs => (List.mem_append.1 hs).elim (fun hs => hruns s (List.mem_reverse.1 hs))
        fun hs => hkeeps s (hdone s hs)
      refine ⟨?_, hhomed⟩
      rw [hran, hx.expandedDue, List.reverse_append, List.reverse_reverse, List.append_assoc]
    cases hp : w.agenda.popDue with
    | none => exact runDue_answer_none hp h hdone
    | some q =>
      obtain ⟨e, a⟩ := q
      cases hc : e.cancelled with
      | true => exact hgo (.drop hp hc)
      | false =>
        by_cases halive : w.shapeAlive e.shape = true
        · cases hr : runExpansion (g.expandWithin depth) e.shape (w.rebook (a.settle e.node)) with
          | error f u =>
            rw [runDue_failed hp hc halive hr] at h
            cases h
          | ok _ u => exact hgo (.run hp hc halive hr)
        · exact hgo (.skip hp hc halive)

/-- **An advance** that ends without a fault answers with what it has completed, and all of that has nodes. -/
theorem advance_answer {dt : α} {xs : List ShapeId} (h : advance (g.expandWithin g.nesting) g.spare dt w = .ok xs v) :
    xs = w.expandedIn g dt ∧ ∀ s ∈ xs, (v.homeOf s).isSome = true := by
  unfold advance at h
  unfold expandedIn
  split_ifs at h ⊢
  exact runDue_answer h fun s hs => absurd hs List.not_mem_nil

end World

end SceneGrammar

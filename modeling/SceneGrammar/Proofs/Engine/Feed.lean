/-
The feed of events.

A `Call` of a loop, its start or a tick, makes builds in turn, and a tick then moves the clock. `Call.yield` is the record of
what is completed in its course, each item as the event that would tell of it: the builds, the delayed expansions, and
whether the call ended without a fault. A build is reported as soon as it is completed, but the delayed expansions only after
the last of them: if a rule fails meanwhile, those completed before are reported nowhere (`Yield.reported`).

A rule that moves the clock itself is answered with what it has expanded; the expansions of a tick are those that its own
move of the clock completes.

One call: `Call.books_after` says which events a call leaves in the loop and in its log, and what its trigger has counted,
whether it fails or not. Runs: `Faithful` is kept by a call and by whatever is run between the calls (`Faithful.step`), so it
holds of every run (`Faithful.run`). `feed_reports` says what the feed tells then, and `expansion_unreported` is a tick that
completes an expansion of which it tells nothing.
-/
import SceneGrammar.Proofs.Engine.Reports
import SceneGrammar.Proofs.Ring

namespace SceneGrammar

variable {α κ σ β γ : Type}

theorem Prog.bind_assoc {δ : Type} (p : Prog α κ σ β) (f : β → Prog α κ σ γ) (h : γ → Prog α κ σ δ) :
    p >>= f >>= h = p >>= fun b => f b >>= h := by
  show (p.bind f).bind h = p.bind fun b => (f b).bind h
  induction p with
  | done | fail => rfl
  | look k next ih => simp only [Prog.bind, ih]
  | perform o next ih => simp only [Prog.bind, ih]
  | attempt body next _ ih => simp only [Prog.bind, ih]

/-! ## Calls -/

/-- a call of the loop -/
inductive Engine.Call (α : Type) where
  | start
  | tick (dt : Option α)

/-- what is completed in the course of a call, each item as it would be reported -/
structure Yield (α : Type) where
  call : Engine.Call α
  /-- the number of ticks finished before -/
  tick : Nat
  builds : List (Event α)
  expansions : List (Event α)
  /-- whether there was no fault -/
  ended : Bool

namespace Yield

/-- all that was completed -/
def completed (y : Yield α) : List (Event α) := y.builds ++ y.expansions

/-- what is reported of it -/
def reported (y : Yield α) : List (Event α) := y.builds ++ if y.ended then y.expansions else []

/-- whether it is a tick that is finished -/
def counts (y : Yield α) : Bool :=
  match y.call with
  | .start => false
  | .tick _ => y.ended

/-- what is reported nowhere -/
def missed (y : Yield α) : List (Event α) := if y.ended then [] else y.expansions

theorem reported_append_missed (y : Yield α) : y.reported ++ y.missed = y.completed := by
  unfold reported missed completed
  split_ifs <;> simp

theorem missed_eq_nil_iff (y : Yield α) : y.missed = [] ↔ y.ended = true ∨ y.expansions = [] := by
  cases h : y.ended <;> simp [missed, h]

/-- the number of ticks that are finished -/
def finished (ys : List (Yield α)) : Nat := (ys.filter counts).length

theorem finished_concat (ys : List (Yield α)) (y : Yield α) : finished (ys ++ [y]) = finished ys + y.counts.toNat := by
  rw [finished, List.filter_append, List.length_append, finished]
  cases h : y.counts <;> simp [h]

end Yield

namespace Loop

/-- a loop after a call -/
def afterCall (l : Loop α) (y : Yield α) : Loop α :=
  { reports { l with recent := [] } y.reported with tick := l.tick + y.counts.toNat }

theorem afterCalls_trigger (l : Loop α) (ys : List (Yield α)) : (ys.foldl afterCall l).trigger = l.trigger := by
  induction ys generalizing l with
  | nil => rfl
  | cons y ys ih => exact ih (l.afterCall y)

theorem afterCalls_tick (l : Loop α) (ys : List (Yield α)) : (ys.foldl afterCall l).tick = l.tick + Yield.finished ys := by
  induction ys using List.reverseRecOn with
  | nil => rfl
  | append_singleton ys y ih => rw [List.foldl_concat, afterCall, ih, Yield.finished_concat, Nat.add_assoc]

theorem afterCalls_log (l : Loop α) (ys : List (Yield α)) :
    (ys.foldl afterCall l).log = l.log.map fun r => (ys.flatMap Yield.reported).foldl Ring.push r := by
  induction ys generalizing l with
  | nil => simp
  | cons y ys ih =>
    rw [List.foldl_cons, ih, afterCall, reports, List.flatMap_cons, Option.map_map]
    simp only [List.foldl_append]
    rfl

end Loop

/-- the loop in use and its trigger -/
def World.post (w : World α κ σ) : Option (Loop α × Trigger) :=
  w.desk.loop.bind fun l => w.desk.triggers[l.trigger]?.map fun t => (l, t)

/-- the request that an event tells of, if any -/
def Happening.request? : Happening α → Option (Request α)
  | .regenerated _ seed delay => some ⟨delay, seed⟩
  | _ => none

namespace Engine.Call

open World

/-- what a call is to build, in order -/
def orders (l : Loop α) : Call α → List (Order α)
  | .start => if l.config.buildOnStart then [⟨⟨l.config.regenerateDelay, none⟩, .startUp⟩] else []
  | .tick _ => l.requests.map fun r => ⟨r, fun name => .regenerated name r.seed r.delay⟩

/-- the world in which a call begins to build -/
def opened (w : World α κ σ) : Call α → World α κ σ
  | .start => { w with live := true, desk := w.desk.mapLoop fun l => { l with recent := [] } }
  | .tick _ => w.drained

variable [Scalar α] [SymbolKind κ]

/-- what is called -/
def prog : Call α → Prog α κ σ Unit
  | .start => Engine.start
  | .tick dt => Engine.tick dt >>= fun _ => pure ()

/-- what a call does when it has built -/
def closing (l : Loop α) : Call α → Prog α κ σ Unit
  | .start => pure ()
  | .tick dt => do
    let expanded ← Prog.act (.advance (dt.getD l.config.tickRate))
    expanded.forM reportExpansion
    changeLoop fun l => { l with tick := l.tick + 1 }
    loop >>= fun _ => return

/-- the delayed expansions that are completed in a tick, as they would be reported at its end -/
def expansions (g : Grammar α κ σ) (w : World α κ σ) (l : Loop α) (t : Trigger) : Call α → List (Event α)
  | .start => []
  | .tick dt =>
    match (((Call.tick dt).orders l).forM (fulfil l.trigger t.root)).run g w.drained with
    | .error _ _ => []
    | .ok _ u =>
      let dt := dt.getD l.config.tickRate
      (u.expandedIn g dt).map (((advance (g.expandWithin g.nesting) g.spare dt).after u).expansion l.tick)

/-- what is completed in the course of a call -/
def yield (g : Grammar α κ σ) (w : World α κ σ) (c : Call α) : Yield α where
  call := c
  tick := (w.desk.loop.map (·.tick)).getD 0
  builds := (w.post.map fun (l, t) => builtEvents g l.trigger t.root l.tick (c.orders l) (c.opened w)).getD []
  expansions := (w.post.map fun (l, t) => c.expansions g w l t).getD []
  ended := match c.prog.run g w with
    | .ok _ _ => true
    | .error _ _ => false

variable {g : Grammar α κ σ} {w u : World α κ σ} {l m : Loop α} {t : Trigger} {c : Call α}

/-! ## One call -/

/-- to serve requests is to make the builds they order -/
theorem forM_serve (i : Nat) (root : ShapeId) (rs : List (Request α)) :
    (rs.forM (Engine.serve i root) : Prog α κ σ Unit) =
      (rs.map fun r => (⟨r, fun name => .regenerated name r.seed r.delay⟩ : Order α)).forM (fulfil i root) := by
  induction rs with
  | nil => rfl
  | cons r rs ih =>
    show (Engine.serve i root r >>= fun _ => rs.forM (Engine.serve i root) : Prog α κ σ Unit) = _
    rw [ih]
    rfl

omit [Scalar α] [SymbolKind κ] in
theorem opened_trigger (c : Call α) (i : Nat) : (c.opened w).desk.triggers[i]? = w.desk.triggers[i]? := by
  cases c <;> rfl

theorem run_bind_pure (p : Prog α κ σ Unit) (w : World α κ σ) : (p >>= fun _ => pure ()).run g w = p.run g w := by
  rw [Prog.run_bind]
  cases p.run g w <;> rfl

theorem run_start (hl : w.desk.loop = some l) (ht : w.desk.triggers[l.trigger]? = some t) :
    Engine.start.run g w = ((Call.start.orders l).forM (fulfil l.trigger t.root)).run g (Call.start.opened w) := by
  have hlive : (Prog.act (.setLive true) : Prog α κ σ Unit).run g w = .ok () { w with live := true } := rfl
  have hopened : Engine.start.run g w = (if l.config.buildOnStart then do
      let t ← trigger l.trigger
      build l.trigger l.config.regenerateDelay none
      emit t.root .startUp
    else pure () : Prog α κ σ Unit).run g (Call.start.opened w) := by
    unfold Engine.start
    rw [Prog.run_bind_ok (run_loop hl), Prog.run_bind_ok hlive, Prog.run_bind_ok (run_changeLoop g _ _)]
    rfl
  rw [hopened, orders]
  by_cases hbuild : l.config.buildOnStart = true
  · rw [if_pos hbuild, if_pos hbuild, Prog.run_bind_ok (run_trigger ((opened_trigger Call.start _).trans ht))]
    exact (run_bind_pure (fulfil l.trigger t.root ⟨⟨l.config.regenerateDelay, none⟩, .startUp⟩) _).symm
  · rw [if_neg hbuild, if_neg hbuild]
    rfl

/-- a call builds, and then closes -/
theorem run_prog (hl : w.desk.loop = some l) (ht : w.desk.triggers[l.trigger]? = some t) (c : Call α) :
    c.prog.run g w = ((c.orders l).forM (fulfil l.trigger t.root) >>= fun _ => c.closing l).run g (c.opened w) := by
  cases c with
  | start => exact (run_start hl ht).trans (run_bind_pure _ _).symm
  | tick dt =>
    have hopened : (Engine.tick dt).run g w = (do
        l.requests.forM (Engine.serve l.trigger t.root)
        let expanded ← Prog.act (.advance (dt.getD l.config.tickRate))
        expanded.forM reportExpansion
        changeLoop fun l => { l with tick := l.tick + 1 }
        let l ← loop
        return hasTicksLeft l.config.maxTicks l.tick : Prog α κ σ Bool).run g w.drained := by
      unfold Engine.tick
      rw [Prog.run_bind_ok (run_loop hl), Prog.run_bind_ok (run_changeLoop g _ _)]
      exact Prog.run_bind_ok (run_trigger (w := w.drained) ht)
    rw [prog, Prog.run_bind, hopened, ← Prog.run_bind, forM_serve]
    simp only [Prog.bind_assoc]
    rfl

/-- a call whose builds fail is over -/
theorem run_prog_failed (hl : w.desk.loop = some l) (ht : w.desk.triggers[l.trigger]? = some t) {e : Fault α}
    (h : ((c.orders l).forM (fulfil l.trigger t.root)).run g (c.opened w) = .error e u) : c.prog.run g w = .error e u := by
  rw [run_prog hl ht, Prog.run_bind, h]

omit [Scalar α] [SymbolKind κ] in
theorem opened_books (hl : w.desk.loop = some l) (ht : w.desk.triggers[l.trigger]? = some t) (c : Call α) :
    (c.opened w).Books t { l with recent := [] } where
  trigger := (opened_trigger c _).trans ht
  loop := by
    cases c with
    | start => exact ⟨l.requests, by simp only [opened, Desk.mapLoop, hl, Option.map_some]⟩
    | tick dt => exact ⟨[], by simp only [opened, World.drained, Loop.drained, Desk.mapLoop, hl, Option.map_some]⟩

theorem yield_builds (hl : w.desk.loop = some l) (ht : w.desk.triggers[l.trigger]? = some t) (c : Call α) :
    (c.yield g w).builds = builtEvents g l.trigger t.root l.tick (c.orders l) (c.opened w) := by
  simp only [yield, post, hl, ht, Option.bind_some, Option.map_some, Option.getD_some]

theorem yield_expansions (hl : w.desk.loop = some l) (ht : w.desk.triggers[l.trigger]? = some t) (c : Call α) :
    (c.yield g w).expansions = c.expansions g w l t := by
  simp only [yield, post, hl, ht, Option.bind_some, Option.map_some, Option.getD_some]

theorem yield_ended {v : World α κ σ} (h : c.prog.run g w = .ok () v) : (c.yield g w).ended = true := by
  simp only [yield, h]

theorem yield_failed {v : World α κ σ} {e : Fault α} (h : c.prog.run g w = .error e v) : (c.yield g w).ended = false := by
  simp only [yield, h]

variable (hg : ∀ s, (g.expandWithin g.nesting s).Keeps Desk.ledger)

include hg

/-- a tick that has built moves the clock, reports what was expanded and counts, or it stops at a fault and reports nothing -/
theorem close_tick (b : u.Books t m) (l : Loop α) (dt : Option α) :
    let step := dt.getD l.config.tickRate
    let es := (u.expandedIn g step).map (((advance (g.expandWithin g.nesting) g.spare step).after u).expansion m.tick)
    (∃ v, ((Call.tick dt).closing l).run g u = .ok () v ∧ v.Books t { m.reports es with tick := m.tick + 1 }) ∨
      ∃ e v, ((Call.tick dt).closing l).run g u = .error e v ∧ v.Books t m := by
  intro step es
  have hkeeps : (advance (g.expandWithin g.nesting) g.spare step).Keeps Desk.ledger := advance_keeps hg g.spare step
  have hrun : (Prog.act (.advance step)).run g u = advance (g.expandWithin g.nesting) g.spare step u := by
    simp only [Prog.run, Prog.act, Prog.exec, perform]
    cases advance (g.expandWithin g.nesting) g.spare step u <;> rfl
  unfold closing
  rw [Prog.run_bind, hrun]
  cases ha : advance (g.expandWithin g.nesting) g.spare step u with
  | error e v => exact .inr ⟨e, v, rfl, b.keeps (hkeeps.error ha)⟩
  | ok xs v =>
    obtain ⟨hxs, hhomes⟩ := advance_answer ha
    have hes : es = xs.map (v.expansion m.tick) := by rw [hxs, ← Act.after_ok ha]
    obtain ⟨v₁, hv₁, b₁⟩ := (b.keeps (hkeeps.ok ha)).reportExpansions (g := g) xs hhomes
    obtain ⟨v₂, hv₂, b₂⟩ := b₁.changeLoop (g := g) (f := fun l => { l with tick := l.tick + 1 }) rfl fun rs => ⟨rs, rfl⟩
    obtain ⟨rs, hloop⟩ := b₂.loop
    refine .inl ⟨v₂, ?_, hes ▸ b₂⟩
    simp only
    rw [Prog.run_bind_ok hv₁, Prog.run_bind_ok hv₂, Prog.run_bind_ok (run_loop hloop)]
    rfl

/-- **One call.** Whatever fails, the builds that were completed are counted and reported in order; what was expanded is
reported behind them if nothing failed. -/
theorem books_after (hl : w.desk.loop = some l) (ht : w.desk.triggers[l.trigger]? = some t) (c : Call α) :
    ((c.prog.run g).after w).Books (t.counting (c.yield g w).builds.length) (l.afterCall (c.yield g w)) := by
  have hbuilds := yield_builds (g := g) hl ht c
  unfold Act.after
  rcases (opened_books hl ht c).fulfil hg (c.orders l) with ⟨u, hu, bu, -⟩ | ⟨e, u, hu, bu⟩
  · have hprog : c.prog.run g w = (c.closing l).run g u := (run_prog hl ht c).trans (Prog.run_bind_ok hu)
    rw [hbuilds]
    cases c with
    | start =>
      have hreported : (Call.start.yield g w).reported = (Call.start.yield g w).builds := by
        rw [Yield.reported, yield_expansions hl ht, expansions, ite_self, List.append_nil]
      rw [hprog, Loop.afterCall, hreported, hbuilds]
      exact bu
    | tick dt =>
      have hexpansions : ((Call.tick dt).yield g w).expansions = _ := yield_expansions (g := g) hl ht (.tick dt)
      change (((Call.tick dt).orders l).forM (fulfil l.trigger t.root)).run g w.drained = _ at hu
      rw [expansions, hu] at hexpansions
      rw [Loop.afterCall, Yield.reported, Yield.counts, hbuilds, hexpansions]
      rcases close_tick hg bu l dt with ⟨v, hv, bv⟩ | ⟨e, v, hv, bv⟩
      · have hended := yield_ended (hprog.trans hv)
        rw [Loop.reports_reports] at bv
        rw [hprog, hv, hended, if_pos rfl]
        exact bv
      · have hfailed := yield_failed (hprog.trans hv)
        rw [hprog, hv, hfailed, if_neg Bool.false_ne_true, List.append_nil]
        exact bv
  · -- a build has failed
    have hprog : c.prog.run g w = .error e u := run_prog_failed hl ht hu
    have hfailed := yield_failed hprog
    have hcounts : (c.yield g w).counts = false := by
      cases c with
      | start => rfl
      | tick dt => exact hfailed
    rw [hprog, Loop.afterCall, Yield.reported, hcounts, hfailed, if_neg Bool.false_ne_true, List.append_nil, hbuilds]
    exact bu

/-- a call without a fault has completed all its builds -/
theorem built_of_ended (hl : w.desk.loop = some l) (ht : w.desk.triggers[l.trigger]? = some t)
    (h : (c.yield g w).ended = true) : (c.yield g w).builds.length = (c.orders l).length := by
  rw [yield_builds hl ht]
  rcases (opened_books hl ht c).fulfil hg (c.orders l) with ⟨u, -, -, hlength⟩ | ⟨e, u, hu, -⟩
  · exact hlength
  · rw [yield_failed (run_prog_failed hl ht hu)] at h
    cases h

omit hg

/-- the builds of a tick are those of the first requests that waited, in their order -/
theorem builds_requested (hl : w.desk.loop = some l) (ht : w.desk.triggers[l.trigger]? = some t) (dt : Option α) :
    ((Call.tick dt).yield g w).builds.map (·.happening.request?) =
      (l.requests.take ((Call.tick dt).yield g w).builds.length).map some := by
  rw [yield_builds hl ht, builtEvents]
  have horder := built_in_order (g := g) l.trigger t.root ((Call.tick dt).orders l) ((Call.tick dt).opened w)
  generalize ((Call.tick dt).opened w).built g l.trigger t.root ((Call.tick dt).orders l) = bs at horder
  have hask (b : Order α × World α κ σ) (hb : b ∈ bs) (n : Nat) :
      (b.2.event n t.root b.1.happening).happening.request? = some b.1.request := by
    obtain ⟨r, -, hr⟩ := List.mem_map.1 (horder.subset (List.mem_map_of_mem hb))
    rw [← hr]
    rfl
  have htake := List.prefix_iff_eq_take.1 horder
  calc (bs.map fun b => b.2.event l.tick t.root b.1.happening).map (·.happening.request?)
      _ = bs.map fun b => some b.1.request := by
        rw [List.map_map]
        exact List.map_congr_left fun b hb => hask b hb l.tick
      _ = ((bs.map Prod.fst).map (·.request)).map some := by rw [List.map_map, List.map_map]; rfl
      _ = _ := by
        rw [htake, List.length_map, List.length_map, orders, ← List.map_take, List.map_map, List.map_map]
        rfl

omit [Scalar α] [SymbolKind κ] in
/-- what a call orders are builds -/
theorem category_of_order {o : Order α} (ho : o ∈ c.orders l) (v : World α κ σ) (n : Nat) (s : ShapeId) :
    (v.event n s o.happening).category = "build" := by
  cases c with
  | start =>
    unfold orders at ho
    split_ifs at ho
    · rw [List.mem_singleton.1 ho]
      rfl
    · exact absurd ho List.not_mem_nil
  | tick dt =>
    obtain ⟨r, -, rfl⟩ := List.mem_map.1 ho
    rfl

theorem expansion_of_mem {e : Event α} (he : e ∈ c.expansions g w l t) :
    ∃ (v : World α κ σ) (s : ShapeId), e = v.expansion l.tick s := by
  cases c with
  | start => exact absurd he List.not_mem_nil
  | tick dt =>
    rw [expansions] at he
    cases hu : (((Call.tick dt).orders l).forM (fulfil l.trigger t.root)).run g w.drained with
    | error f u =>
      rw [hu] at he
      exact absurd he List.not_mem_nil
    | ok _ u =>
      rw [hu] at he
      obtain ⟨s, -, rfl⟩ := List.mem_map.1 he
      exact ⟨_, s, rfl⟩

/-- what is completed bears the number of ticks finished before, and builds and expansions are told apart -/
theorem yield_stamped (hl : w.desk.loop = some l) (ht : w.desk.triggers[l.trigger]? = some t) (c : Call α) :
    (∀ e ∈ (c.yield g w).builds, e.tick = l.tick ∧ e.category = "build") ∧
      ∀ e ∈ (c.yield g w).expansions, e.tick = l.tick ∧ e.category = "expand" := by
  rw [yield_builds hl ht, yield_expansions hl ht]
  constructor
  · intro e he
    obtain ⟨b, hb, rfl⟩ := List.mem_map.1 he
    have ho := (built_in_order l.trigger t.root (c.orders l) (c.opened w)).subset (List.mem_map_of_mem hb)
    exact ⟨rfl, category_of_order ho _ _ _⟩
  · intro e he
    obtain ⟨v, s, rfl⟩ := expansion_of_mem he
    exact ⟨rfl, rfl⟩

end Engine.Call

/-! ## Runs -/

/-- what happens to a loop: it is called, or something else is run between the calls -/
inductive Turn (α κ σ : Type) : Type 1 where
  | call (c : Engine.Call α)
  | meanwhile (p : Prog α κ σ Unit)

/-- a world, and what was completed in the course of the calls so far -/
structure Chronicle (α κ σ : Type) where
  world : World α κ σ
  yields : List (Yield α)

namespace World

/-- the events of the last call -/
def recent (w : World α κ σ) : List (Event α) := (w.desk.loop.map (·.recent)).getD []

/-- the log of the loop, if it keeps one -/
def log? (w : World α κ σ) : Option (Ring (Event α)) := w.desk.loop.bind (·.log)

end World

namespace Chronicle

variable [Scalar α] [SymbolKind κ]

/-- one turn, whether it fails or not -/
def step (g : Grammar α κ σ) (d : Chronicle α κ σ) : Turn α κ σ → Chronicle α κ σ
  | .call c => ⟨(c.prog.run g).after d.world, d.yields ++ [c.yield g d.world]⟩
  | .meanwhile p => { d with world := (p.run g).after d.world }

/-- the loop around trigger `t`, which was set up as `l`, has reported what it should -/
structure Faithful (t : Trigger) (l : Loop α) (d : Chronicle α κ σ) : Prop where
  books : d.world.Books (t.counting (d.yields.flatMap Yield.builds).length) (d.yields.foldl Loop.afterCall l)
  numbered : ∀ ys y, ys ++ [y] <+: d.yields → y.tick = l.tick + Yield.finished ys ∧ ∀ e ∈ y.completed, e.tick = y.tick
  ordered : (d.yields.flatMap Yield.reported).Pairwise fun a b => a.tick ≤ b.tick
  bounded : ∀ e ∈ d.yields.flatMap Yield.reported, e.tick ≤ l.tick + Yield.finished d.yields

section

variable {g : Grammar α κ σ} {d : Chronicle α κ σ} {t : Trigger} {l : Loop α}

theorem Faithful.meanwhile (h : d.Faithful t l) {p : Prog α κ σ Unit} (hp : (p.run g).Keeps Desk.ledger) :
    (d.step g (.meanwhile p)).Faithful t l where
  books := h.books.keeps (hp d.world)
  numbered := h.numbered
  ordered := h.ordered
  bounded := h.bounded

theorem Faithful.call (hg : ∀ s, (g.expandWithin g.nesting s).Keeps Desk.ledger) (h : d.Faithful t l) (c : Engine.Call α) :
    (d.step g (.call c)).Faithful t l := by
  obtain ⟨rs, hloop⟩ := h.books.loop
  have hbooks := Engine.Call.books_after hg hloop h.books.trigger c
  obtain ⟨hbuilds, hexpansions⟩ := Engine.Call.yield_stamped (g := g) hloop h.books.trigger c
  have hnumber := Loop.afterCalls_tick l d.yields
  simp only [hnumber] at hbuilds hexpansions
  have htick : (c.yield g d.world).tick = l.tick + Yield.finished d.yields := by
    simp only [Engine.Call.yield, hloop, Option.map_some, Option.getD_some, hnumber]
  have hcompleted (e : Event α) (he : e ∈ (c.yield g d.world).completed) : e.tick = l.tick + Yield.finished d.yields :=
    (List.mem_append.1 he).elim (fun he => (hbuilds e he).1) fun he => (hexpansions e he).1
  have hreported (e : Event α) (he : e ∈ (c.yield g d.world).reported) : e.tick = l.tick + Yield.finished d.yields :=
    hcompleted e ((c.yield g d.world).reported_append_missed ▸ List.mem_append_left _ he)
  exact {
    books := by
      show ((c.prog.run g).after d.world).Books (t.counting ((d.yields ++ [c.yield g d.world]).flatMap Yield.builds).length)
        ((d.yields ++ [c.yield g d.world]).foldl Loop.afterCall l)
      rw [List.foldl_concat, List.flatMap_append, List.flatMap_singleton, List.length_append, ← Trigger.counting_counting]
      exact ⟨hbooks.trigger, hbooks.loop⟩
    numbered := fun ys y hy => by
      rcases List.prefix_concat_iff.1 hy with hy | hy
      · obtain ⟨rfl, hlast⟩ := List.append_inj' hy rfl
        obtain rfl := List.singleton_inj.1 hlast
        exact ⟨htick, fun e he => (hcompleted e he).trans htick.symm⟩
      · exact h.numbered ys y hy
    ordered := by
      show ((d.yields ++ [c.yield g d.world]).flatMap Yield.reported).Pairwise _
      rw [List.flatMap_append, List.flatMap_singleton, List.pairwise_append]
      refine ⟨h.ordered, ?_, fun a ha e he => (hreported e he).symm ▸ h.bounded a ha⟩
      refine List.pairwise_of_forall_mem_list fun a ha e he => ?_
      rw [hreported a ha, hreported e he]
    bounded := fun e he => by
      show e.tick ≤ l.tick + Yield.finished (d.yields ++ [c.yield g d.world])
      change e ∈ (d.yields ++ [c.yield g d.world]).flatMap Yield.reported at he
      rw [List.flatMap_append, List.flatMap_singleton] at he
      rw [Yield.finished_concat]
      rcases List.mem_append.1 he with he | he
      · have := h.bounded e he
        omega
      · have := hreported e he
        omega }

/-- **One turn.** -/
theorem Faithful.step (hg : ∀ s, (g.expandWithin g.nesting s).Keeps Desk.ledger) (h : d.Faithful t l) {x : Turn α κ σ}
    (hx : ∀ p, x = .meanwhile p → (p.run g).Keeps Desk.ledger) : (d.step g x).Faithful t l := by
  cases x with
  | call c => exact h.call hg c
  | meanwhile p => exact h.meanwhile (hx p rfl)

/-- **Runs.** -/
theorem Faithful.run (hg : ∀ s, (g.expandWithin g.nesting s).Keeps Desk.ledger) (h : d.Faithful t l)
    (turns : List (Turn α κ σ)) (hturns : ∀ p, .meanwhile p ∈ turns → (p.run g).Keeps Desk.ledger) :
    (turns.foldl (Chronicle.step g) d).Faithful t l := by
  induction turns generalizing d with
  | nil => exact h
  | cons x turns ih =>
    exact ih (h.step hg fun p hp => hturns p (hp ▸ List.mem_cons_self)) fun p hp => hturns p (List.mem_cons_of_mem x hp)

/-- **The feed.** The rules, and what is run between the calls, are to leave alone all of the desk but its queue. Whatever
is called then on a loop that has just been set up, and whatever fails:
- after each call its events are the builds completed in its course and, behind them, if it ended without a fault, the
  delayed expansions; they bear the number of ticks finished before it;
- the builds of a tick are those of the first requests that waited, in their order, and of all if it ended without a fault;
- from call to call the events in the log are in order, and their ticks never fall; the log holds the last of them, as many
  as its capacity allows; and the trigger has counted just the builds that were reported;
- nothing that was completed is missing just if no call failed behind a delayed expansion. -/
theorem feed_reports (hg : ∀ s, (g.expandWithin g.nesting s).Keeps Desk.ledger) {w : World α κ σ} {config : Config α}
    {i : Nat} {capacity : Option Nat} (hl : w.desk.loop = some (.fresh config i (capacity.map Ring.empty)))
    (ht : w.desk.triggers[i]? = some t) (turns : List (Turn α κ σ))
    (hturns : ∀ p, .meanwhile p ∈ turns → (p.run g).Keeps Desk.ledger) :
    let d := turns.foldl (step g) ⟨w, []⟩
    (∀ c : Engine.Call α, let y := c.yield g d.world
      (d.step g (.call c)).world.recent = y.reported ∧ (∀ e ∈ y.builds, e.tick = y.tick ∧ e.category = "build") ∧
        ∀ e ∈ y.expansions, e.tick = y.tick ∧ e.category = "expand") ∧
    (∀ dt, let y := (Engine.Call.tick dt).yield g d.world
      y.builds.map (·.happening.request?) = (d.world.queue.take y.builds.length).map some ∧
        (y.ended = true → y.builds.length = d.world.queue.length)) ∧
    (∀ ys y, ys ++ [y] <+: d.yields → y.tick = Yield.finished ys) ∧
    ((d.yields.flatMap Yield.reported).Pairwise fun a b => a.tick ≤ b.tick) ∧
    (∀ k, capacity = some k → ∃ r, d.world.log? = some r ∧ Ring.LastOf k (d.yields.flatMap Yield.reported) r.items) ∧
    d.world.desk.triggers[i]? = some (t.counting (d.yields.flatMap Yield.builds).length) ∧
    (d.yields.flatMap Yield.reported = d.yields.flatMap Yield.completed ↔
      ∀ y ∈ d.yields, y.ended = true ∨ y.expansions = []) := by
  intro d
  have h : d.Faithful t (.fresh config i (capacity.map Ring.empty)) := by
    refine Faithful.run hg ⟨⟨ht, [], hl⟩, fun ys y hy => ?_, .nil, fun e he => absurd he List.not_mem_nil⟩ turns hturns
    simp at hy
  obtain ⟨rs, hloop⟩ := h.books.loop
  refine ⟨fun c => ⟨?_, ?_⟩, fun dt => ⟨?_, fun hended => ?_⟩, fun ys y hy => ?_, h.ordered, ?_, ?_, ?_⟩
  · obtain ⟨qs, hqs⟩ := (Engine.Call.books_after hg hloop h.books.trigger c).loop
    show (((c.prog.run g).after d.world).desk.loop.map (·.recent)).getD [] = _
    rw [hqs]
    exact List.nil_append _
  · have hstamped := Engine.Call.yield_stamped (g := g) hloop h.books.trigger c
    have htick : (c.yield g d.world).tick = (d.yields.foldl Loop.afterCall (.fresh config i (capacity.map Ring.empty))).tick := by
      simp only [Engine.Call.yield, hloop, Option.map_some, Option.getD_some]
    rwa [← htick] at hstamped
  · rw [World.queue, hloop]
    exact Engine.Call.builds_requested hloop h.books.trigger dt
  · rw [World.queue, hloop, Engine.Call.built_of_ended hg hloop h.books.trigger hended]
    exact List.length_map _
  · rw [(h.numbered ys y hy).1]
    exact Nat.zero_add _
  · rintro k rfl
    refine ⟨(d.yields.flatMap Yield.reported).foldl Ring.push (.empty k), ?_, ?_⟩
    · rw [World.log?, hloop]
      exact Loop.afterCalls_log _ _
    · exact (Ring.LastOf.foldl_push (r := .empty k) (Ring.lastOf_empty k) (d.yields.flatMap Yield.reported)).2
  · have htrigger := h.books.trigger
    rwa [Loop.afterCalls_trigger] at htrigger
  · calc d.yields.flatMap Yield.reported = d.yields.flatMap Yield.completed
        ↔ d.yields.flatMap (fun y => y.reported ++ y.missed) = d.yields.flatMap Yield.reported := by
          simp only [Yield.reported_append_missed]
          exact eq_comm
      _ ↔ ∀ y ∈ d.yields, y.missed = [] := Docket.flatMap_append_eq_iff _ _
      _ ↔ _ := forall₂_congr fun y _ => y.missed_eq_nil_iff

end

/-! ## A hamlet -/

/-- whoever queues a request leaves the rest of the desk alone -/
theorem request_keeps (spare : Nat) (expand : ShapeId → Act α κ σ Unit) (r : Request α) :
    ((Engine.request r : Prog α κ σ Unit).exec spare expand).Keeps Desk.ledger := by
  intro w
  show (w.desk.mapLoop (·.request r)).ledger = w.desk.ledger
  rw [Desk.ledger, Desk.mapLoop, Desk.mapLoop, Option.map_map]
  rfl

/-- a building asks for its next build, nothing can be built on a block, and all else is built without more ado -/
def hamlet : Grammar ℚ (City.Kind ℚ) Unit :=
  { rule := fun kind _ => match kind with
      | .building _ => Engine.request ⟨1, none⟩
      | .block _ => .fail (.raised "no")
      | _ => .done ()
    nesting := 2, spare := 0 }

theorem hamlet_keeps (s : ShapeId) : (hamlet.expandWithin hamlet.nesting s).Keeps Desk.ledger := by
  refine expandWithin_keeps (fun kind s expand _ => ?_) _ s
  unfold hamlet
  dsimp only
  split
  · exact request_keeps _ _ _
  · exact fun _ => rfl
  · exact fun _ => rfl

/-- a mill, a shed and a pit, and a loop around the mill with a log -/
def founded (capacity : Nat) : World ℚ (City.Kind ℚ) Unit :=
  let place (kind : City.Kind ℚ) (name : String) : Op ℚ (City.Kind ℚ) Unit := .createRoot (.of kind) name none .rest none
  let roots : Prog ℚ (City.Kind ℚ) Unit Unit := .perform (place (.building 0) "mill") fun _ =>
    .perform (place .roof "shed") fun _ => .perform (place (.block 0) "pit") fun _ => .done ()
  { (roots.run hamlet).after (.fresh ⟨fun _ => 0, 0⟩ ()) with
    desk := ⟨#[⟨0, none, true, 0⟩], some (.fresh .standard 0 (some (.empty capacity)))⟩ }

/-- the loop is started, the shed and the pit are planned for the second tick, a build is asked for, and the loop ticks -/
def twoTicks : List (Turn ℚ (City.Kind ℚ) Unit) :=
  [.call .start, .meanwhile (.perform (.schedule 1 2) fun _ => .perform (.schedule 2 2) fun _ => .done ()),
    .meanwhile (Engine.request ⟨0, some 1⟩), .call (.tick (some 1)), .call (.tick (some 1))]

/-- the loop ticks once more, and the mill is built -/
def threeTicks : List (Turn ℚ (City.Kind ℚ) Unit) := twoTicks ++ [.call (.tick (some 1))]

theorem threeTicks_keeps (p : Prog ℚ (City.Kind ℚ) Unit Unit) (hp : .meanwhile p ∈ threeTicks) :
    (p.run hamlet).Keeps Desk.ledger := by
  simp only [threeTicks, twoTicks, List.cons_append, List.nil_append, List.mem_cons, reduceCtorEq, Turn.meanwhile.injEq,
    List.not_mem_nil, or_false, false_or] at hp
  rcases hp with rfl | rfl
  · exact Prog.Deskless.exec hamlet.spare hamlet_keeps ⟨False.elim, fun _ => ⟨False.elim, fun _ => trivial⟩⟩
  · exact request_keeps _ _ _

/-- the tick of a call, how many builds and delayed expansions it completed, and whether it ended without a fault -/
def tally (y : Yield ℚ) : Nat × Nat × Nat × Bool := (y.tick, y.builds.length, y.expansions.length, y.ended)

theorem feed_reports_hamlet :
    let w := founded 3
    let d := threeTicks.foldl (step hamlet) ⟨w, []⟩
    ((∀ s, (hamlet.expandWithin hamlet.nesting s).Keeps Desk.ledger) ∧
      w.desk.loop = some (.fresh .standard 0 ((some 3).map Ring.empty)) ∧
      w.desk.triggers[0]? = some ⟨0, none, true, 0⟩ ∧ ∀ p, .meanwhile p ∈ threeTicks → (p.run hamlet).Keeps Desk.ledger) ∧
    d.yields.map tally = [(0, 1, 0, true), (0, 2, 0, true), (1, 1, 1, false), (1, 0, 1, true)] ∧
    (∃ r, d.world.log? = some r ∧ Ring.LastOf 3 (d.yields.flatMap Yield.reported) r.items) ∧
    d.world.desk.triggers[0]? = some ⟨0, none, true, 4⟩ ∧
    d.yields.flatMap Yield.reported ≠ d.yields.flatMap Yield.completed := by
  intro w d
  have hl : w.desk.loop = some (.fresh .standard 0 ((some 3).map Ring.empty)) := rfl
  have ht : w.desk.triggers[0]? = some ⟨0, none, true, 0⟩ := rfl
  have htally : d.yields.map tally = [(0, 1, 0, true), (0, 2, 0, true), (1, 1, 1, false), (1, 0, 1, true)] := by
    decide +kernel
  have hbuilds : (d.yields.flatMap Yield.builds).length = 4 := by decide +kernel
  obtain ⟨-, -, -, -, hlog, htrigger, hmissed⟩ := feed_reports hamlet_keeps hl ht threeTicks threeTicks_keeps
  refine ⟨⟨hamlet_keeps, hl, ht, threeTicks_keeps⟩, htally, hlog 3 rfl, ?_, fun hall => ?_⟩
  · rw [htrigger, hbuilds]
    rfl
  · have hthird : ∃ y ∈ d.yields, tally y = (1, 1, 1, false) := List.mem_map.1 (htally ▸ by decide)
    obtain ⟨y, hy, hthird⟩ := hthird
    simp only [tally, Prod.mk.injEq] at hthird
    obtain ⟨-, -, hone, hfailed⟩ := hthird
    rcases hmissed.1 hall y hy with hended | hnone
    · rw [hended] at hfailed
      cases hfailed
    · rw [hnone] at hone
      cases hone

/-- **An expansion that is reported nowhere.** In the second tick the shed is expanded, and then a rule fails: of the node of
the shed there is no event, neither among those of the tick nor in the log, which has room. -/
theorem expansion_unreported :
    let d := twoTicks.foldl (step hamlet) ⟨founded 9, []⟩
    .finished 1 ∈ d.world.journal.toList ∧ (d.yields.map fun y => y.expansions.map (·.node)) = [[], [], [2]] ∧
      d.world.recent.map (·.node) = [1] ∧ (d.world.log?.map fun r => r.items.map (·.node)) = some [1, 1, 1, 1] := by
  intro d
  exact ⟨by decide +kernel, by decide +kernel, by decide +kernel, by decide +kernel⟩

end Chronicle

end SceneGrammar

/-
What becomes of the requests that are pushed.

A tick takes all waiting requests out of the queue before it builds for the first of them. `handed` is the record of
those for which a build is then called, in order: it stops after the first that fails. `Docket` goes along with the world
through pushes and ticks and keeps, for each tick, what was handed to a build and what was left behind, taken out of the
queue and given to no build.

`requests_accounted`: whatever is pushed and whatever fails, every request is in exactly one place, and in the order in
which they were pushed those that were taken out stand before those that wait. None is built for twice. None is lost
just if no tick drops any, that is, if no build fails behind which others were taken out. `request_lost`: in a city whose
blocks cannot be built, the second of two requests is.
-/
import SceneGrammar.Proofs.Engine.Desk
import SceneGrammar.Proofs.Engine.Thread
import SceneGrammar.Proofs.Engine.Ticks
import SceneGrammar.Proofs.Growth.CityRecipe

namespace SceneGrammar

variable {α κ σ β γ : Type}

namespace World

/-- the requests that wait -/
def queue (w : World α κ σ) : List (Request α) := (w.desk.loop.map (·.requests)).getD []

/-- there is a loop around a trigger that exists, and these requests wait -/
def Queues (w : World α κ σ) (rs : List (Request α)) : Prop :=
  ∃ l, w.desk.loop = some l ∧ l.trigger < w.desk.triggers.size ∧ l.requests = rs

theorem Queues.queue_eq {w : World α κ σ} {rs : List (Request α)} (h : w.Queues rs) : w.queue = rs := by
  obtain ⟨l, hl, -, hrs⟩ := h
  simp [queue, hl, hrs]

/-- a change of the loop that keeps its trigger -/
theorem Queues.mapLoop {w : World α κ σ} {rs : List (Request α)} (h : w.Queues rs) {f : Loop α → Loop α}
    (ht : ∀ l, (f l).trigger = l.trigger) {qs : List (Request α)}
    (hq : ∀ l : Loop α, l.requests = rs → (f l).requests = qs) : Queues { w with desk := w.desk.mapLoop f } qs := by
  obtain ⟨l, hl, hlt, hrs⟩ := h
  exact ⟨f l, by simp [Desk.mapLoop, hl], by rw [ht]; exact hlt, hq l hrs⟩

end World

open World

/-- what a tick does after it has emptied the queue, where it serves some requests -/
def Engine.finish [Scalar α] [SymbolKind κ] (t : Nat) (root : ShapeId) (rs : List (Request α)) (dt : α) :
    Prog α κ σ Bool := do
  rs.forM (serve t root)
  let expanded ← Prog.act (.advance dt)
  expanded.forM reportExpansion
  changeLoop fun l => { l with tick := l.tick + 1 }
  let l ← loop
  return hasTicksLeft l.config.maxTicks l.tick

/-! ## Programs that leave the queue alone -/

section

variable [Scalar α] [SymbolKind κ]

/-- whether a program fails or not, the requests that waited wait afterwards, and no others -/
def Prog.KeepsQueue (g : Grammar α κ σ) (p : Prog α κ σ β) : Prop :=
  ∀ (w : World α κ σ) (rs : List (Request α)), w.Queues rs → ((p.run g).after w).Queues rs

variable {g : Grammar α κ σ}

theorem Prog.KeepsQueue.ok {p : Prog α κ σ β} (h : p.KeepsQueue g) {w v : World α κ σ} {b : β} {rs : List (Request α)}
    (hw : w.Queues rs) (hv : p.run g w = .ok b v) : v.Queues rs := by
  rw [← Act.after_ok hv]
  exact h w rs hw

theorem Prog.KeepsQueue.error {p : Prog α κ σ β} (h : p.KeepsQueue g) {w v : World α κ σ} {e : Fault α}
    {rs : List (Request α)} (hw : w.Queues rs) (hv : p.run g w = .error e v) : v.Queues rs := by
  rw [← Act.after_error hv]
  exact h w rs hw

theorem keepsQueue_pure (b : β) : (pure b : Prog α κ σ β).KeepsQueue g := fun _ _ h => h

theorem Prog.KeepsQueue.bind {p : Prog α κ σ β} {f : β → Prog α κ σ γ} (h : p.KeepsQueue g)
    (hf : ∀ b, (f b).KeepsQueue g) : (p >>= f).KeepsQueue g := by
  intro w rs hw
  unfold Act.after
  rw [Prog.run_bind]
  cases hp : p.run g w with
  | error e v => exact h.error hw hp
  | ok b v => exact hf b v rs (h.ok hw hp)

theorem keepsQueue_see (f : World α κ σ → β) : (Prog.see f : Prog α κ σ β).KeepsQueue g := fun _ _ h => h

theorem keepsQueue_ask (f : World α κ σ → Except (Fault α) β) : (Prog.ask f : Prog α κ σ β).KeepsQueue g := by
  intro w rs h
  unfold Act.after Prog.run
  simp only [Prog.ask, Prog.exec]
  cases f w <;> exact h

/-- what leaves the desk alone leaves the queue alone -/
theorem keepsQueue_act (hg : ∀ s, (g.expandWithin g.nesting s).KeepsDesk) {o : Op α κ σ} (ho : ¬ o.SetsDesk) :
    (Prog.act o : Prog α κ σ o.Answer).KeepsQueue g := by
  intro w rs h
  have hdesk : ((World.perform g.spare (g.expandWithin g.nesting) o).after w).desk = w.desk :=
    World.perform_keeps (k := id) g.spare hg ho w
  have hafter : ((Prog.act o : Prog α κ σ o.Answer).run g).after w =
      (World.perform g.spare (g.expandWithin g.nesting) o).after w := by
    unfold Act.after Prog.run
    simp only [Prog.act, Prog.exec]
    cases World.perform g.spare (g.expandWithin g.nesting) o w <;> rfl
  rw [hafter]
  obtain ⟨l, hl, hlt, hrs⟩ := h
  exact ⟨l, by rw [hdesk, hl], by rw [hdesk]; exact hlt, hrs⟩

theorem keepsQueue_changeLoop {f : Loop α → Loop α} (ht : ∀ l, (f l).trigger = l.trigger)
    (hr : ∀ l, (f l).requests = l.requests) : (Engine.changeLoop f : Prog α κ σ Unit).KeepsQueue g :=
  fun _ _ h => h.mapLoop ht fun l hl => (hr l).trans hl

theorem keepsQueue_forM {p : β → Prog α κ σ Unit} (h : ∀ b, (p b).KeepsQueue g) (bs : List β) :
    (bs.forM p).KeepsQueue g := by
  induction bs with
  | nil => exact keepsQueue_pure ()
  | cons b bs ih => exact (h b).bind fun _ => ih

theorem keepsQueue_emit (s : ShapeId) (k : String → Happening α) :
    (Engine.emit s k : Prog α κ σ Unit).KeepsQueue g :=
  (keepsQueue_ask _).bind fun _ => (keepsQueue_ask _).bind fun _ =>
    keepsQueue_changeLoop (fun _ => rfl) fun _ => rfl

variable (hg : ∀ s, (g.expandWithin g.nesting s).KeepsDesk)

include hg

theorem keepsQueue_prime (t : Trigger) (seed : Option Int) : (Engine.prime t seed : Prog α κ σ Unit).KeepsQueue g := by
  unfold Engine.prime
  cases t.source with
  | some i => exact keepsQueue_act hg (o := .reseed i seed) False.elim
  | none =>
    cases seed with
    | none => exact keepsQueue_pure ()
    | some seed =>
      exact (keepsQueue_ask _).bind fun name => keepsQueue_act hg (o := .warn (.seedIgnored seed name)) False.elim

theorem keepsQueue_build (i : Nat) (delay : α) (seed : Option Int) :
    (Engine.build i delay seed : Prog α κ σ Unit).KeepsQueue g := by
  unfold Engine.build
  refine (keepsQueue_ask _).bind fun t => (keepsQueue_prime hg t seed).bind fun _ =>
    (keepsQueue_act hg (o := .generate t.root delay) False.elim).bind fun _ => ?_
  -- the build is counted
  rintro w rs ⟨l, hl, hlt, hrs⟩
  exact ⟨l, hl, lt_of_lt_of_eq hlt Array.size_modify.symm, hrs⟩

theorem keepsQueue_serve (t : Nat) (root : ShapeId) (r : Request α) :
    (Engine.serve t root r : Prog α κ σ Unit).KeepsQueue g :=
  (keepsQueue_build hg t r.delay r.seed).bind fun _ => keepsQueue_emit root _

omit hg in
theorem keepsQueue_reportExpansion (s : ShapeId) : (Engine.reportExpansion s : Prog α κ σ Unit).KeepsQueue g :=
  (keepsQueue_see _).bind fun _ => keepsQueue_emit s _

theorem keepsQueue_finish (t : Nat) (root : ShapeId) (rs : List (Request α)) (dt : α) :
    (Engine.finish t root rs dt : Prog α κ σ Bool).KeepsQueue g := by
  have hcount : (Engine.changeLoop fun l => { l with tick := l.tick + 1 } : Prog α κ σ Unit).KeepsQueue g :=
    keepsQueue_changeLoop (fun _ => rfl) fun _ => rfl
  exact (keepsQueue_forM (keepsQueue_serve hg t root) rs).bind fun _ =>
    (keepsQueue_act hg (o := .advance dt) False.elim).bind fun expanded =>
    (keepsQueue_forM keepsQueue_reportExpansion expanded).bind fun _ => hcount.bind fun _ =>
    (keepsQueue_ask _).bind fun _ => keepsQueue_pure _

end

/-! ## One tick -/

namespace World

/-- the world after the requests have been taken out of the queue -/
def drained (w : World α κ σ) : World α κ σ :=
  { w with desk := w.desk.mapLoop (·.drained) }

section

variable [Scalar α] [SymbolKind κ]

/-- the requests for which a build is called when some are served in turn: all up to the first that fails -/
def handedOf (g : Grammar α κ σ) (t : Nat) (root : ShapeId) : List (Request α) → World α κ σ → List (Request α)
  | [], _ => []
  | r :: rs, w => r :: match (Engine.serve t root r).run g w with
    | .ok _ v => handedOf g t root rs v
    | .error _ _ => []

/-- the requests that the next tick hands to builds -/
def handed (g : Grammar α κ σ) (w : World α κ σ) : List (Request α) :=
  match w.desk.loop with
  | none => []
  | some l =>
    match w.desk.triggers[l.trigger]? with
    | none => []
    | some t => handedOf g l.trigger t.root l.requests w.drained

/-- the requests that the next tick takes out of the queue and hands to no build -/
def left (g : Grammar α κ σ) (w : World α κ σ) : List (Request α) := w.queue.drop (w.handed g).length

/-- in the next tick a build fails behind which others wait -/
def DropsRequests (g : Grammar α κ σ) (w : World α κ σ) : Prop :=
  ∃ l t, w.desk.loop = some l ∧ w.desk.triggers[l.trigger]? = some t ∧
    ∃ e v, (l.requests.dropLast.forM (Engine.serve l.trigger t.root)).run g w.drained = .error e v

section

variable {g : Grammar α κ σ} {t : Nat} {root : ShapeId}

theorem handedOf_prefix (rs : List (Request α)) (w : World α κ σ) : handedOf g t root rs w <+: rs := by
  induction rs generalizing w with
  | nil => exact List.prefix_rfl
  | cons r rs ih =>
    rw [handedOf, List.cons_prefix_cons]
    refine ⟨rfl, ?_⟩
    cases (Engine.serve t root r).run g w with
    | ok b v => exact ih v
    | error e v => exact List.nil_prefix

/-- serving some requests is serving those for which a build is called -/
theorem run_forM_handedOf (rs : List (Request α)) (w : World α κ σ) :
    (rs.forM (Engine.serve t root)).run g w = ((handedOf g t root rs w).forM (Engine.serve t root)).run g w := by
  induction rs generalizing w with
  | nil => rfl
  | cons r rs ih =>
    rw [handedOf]
    show (Engine.serve t root r >>= fun _ => rs.forM (Engine.serve t root)).run g w =
      (Engine.serve t root r >>= fun _ => List.forM _ (Engine.serve t root)).run g w
    rw [Prog.run_bind, Prog.run_bind]
    cases (Engine.serve t root r).run g w with
    | ok b v => exact ih v
    | error e v => rfl

/-- a build is called for all of them just if none fails but perhaps the last -/
theorem handedOf_eq_iff (rs : List (Request α)) (w : World α κ σ) :
    handedOf g t root rs w = rs ↔ ¬ ∃ e v, (rs.dropLast.forM (Engine.serve t root)).run g w = .error e v := by
  induction rs generalizing w with
  | nil => exact ⟨fun _ ⟨e, v, h⟩ => (by cases h), fun _ => rfl⟩
  | cons r rs ih =>
    rw [handedOf, List.cons_eq_cons, eq_self, true_and]
    cases rs with
    | nil =>
      have hrest : (match (Engine.serve t root r).run g w with
          | .ok _ v => handedOf g t root [] v
          | .error _ _ => []) = [] := by cases (Engine.serve t root r).run g w <;> rfl
      exact ⟨fun _ ⟨e, v, h⟩ => (by cases h), fun _ => hrest⟩
    | cons q rs =>
      rw [List.dropLast_cons_cons]
      show _ ↔ ¬ ∃ e v, (Engine.serve t root r >>= fun _ => (q :: rs).dropLast.forM (Engine.serve t root)).run g w = .error e v
      rw [Prog.run_bind]
      cases (Engine.serve t root r).run g w with
      | ok b v => exact ih v
      | error e v => exact ⟨fun h => (by cases h), fun h => absurd ⟨e, v, rfl⟩ h⟩

end

theorem handed_of_loop {g : Grammar α κ σ} {w : World α κ σ} {l : Loop α} {t : Trigger} (hl : w.desk.loop = some l)
    (ht : w.desk.triggers[l.trigger]? = some t) : w.handed g = handedOf g l.trigger t.root l.requests w.drained := by
  simp only [handed, hl, ht]

/-- what a tick takes out of the queue is what it hands to builds and, behind that, what it leaves -/
theorem Queues.handed_append_left {w : World α κ σ} {rs : List (Request α)} (h : w.Queues rs) (g : Grammar α κ σ) :
    w.handed g ++ w.left g = rs := by
  have hq := h.queue_eq
  obtain ⟨l, hl, hlt, hrs⟩ := h
  have hprefix : w.handed g <+: rs := by
    rw [handed_of_loop hl (Array.getElem?_eq_getElem hlt), ← hrs]
    exact handedOf_prefix _ _
  rw [left, hq]
  exact List.prefix_iff_eq_append.1 hprefix

/-- nothing is left just if no build fails behind which others wait -/
theorem Queues.left_eq_nil_iff {w : World α κ σ} {rs : List (Request α)} (h : w.Queues rs) (g : Grammar α κ σ) :
    w.left g = [] ↔ ¬ w.DropsRequests g := by
  have happend := h.handed_append_left g
  obtain ⟨l, hl, hlt, hrs⟩ := h
  have ht := Array.getElem?_eq_getElem hlt
  have hdrops : w.DropsRequests g ↔ ∃ e v,
      (l.requests.dropLast.forM (Engine.serve l.trigger w.desk.triggers[l.trigger].root)).run g w.drained = .error e v := by
    constructor
    · rintro ⟨l', t, hl', ht', hfails⟩
      obtain rfl := Option.some.inj (hl.symm.trans hl')
      obtain rfl := Option.some.inj (ht.symm.trans ht')
      exact hfails
    · exact fun hfails => ⟨l, _, hl, ht, hfails⟩
  rw [hdrops, ← handedOf_eq_iff, ← handed_of_loop hl ht, hrs, ← happend]
  simp

/-- a tick takes everything out of the queue and then serves what it hands to builds -/
theorem run_tick {g : Grammar α κ σ} {w : World α κ σ} {l : Loop α} {t : Trigger} (hl : w.desk.loop = some l)
    (ht : w.desk.triggers[l.trigger]? = some t) (dt : Option α) :
    (Engine.tick dt).run g w =
      (Engine.finish l.trigger t.root (w.handed g) (dt.getD l.config.tickRate)).run g w.drained := by
  unfold Engine.tick Engine.finish
  rw [Prog.run_bind_ok (run_loop hl), Prog.run_bind_ok (run_changeLoop g _ w)]
  change (Engine.trigger l.trigger >>= _).run g w.drained = _
  rw [Prog.run_bind_ok (run_trigger (w := w.drained) ht), Prog.run_bind, Prog.run_bind, run_forM_handedOf,
    ← handed_of_loop hl ht]

/-- **One tick.** It empties the queue, whatever fails. -/
theorem Queues.tick {w : World α κ σ} {rs : List (Request α)} (h : w.Queues rs) {g : Grammar α κ σ}
    (hg : ∀ s, (g.expandWithin g.nesting s).KeepsDesk) (dt : Option α) : (((Engine.tick dt).run g).after w).Queues [] := by
  have hdrained : w.drained.Queues [] :=
    h.mapLoop (f := (·.drained)) (fun _ => rfl) fun _ _ => rfl
  obtain ⟨l, hl, hlt, -⟩ := h
  unfold Act.after
  rw [run_tick hl (Array.getElem?_eq_getElem hlt)]
  exact keepsQueue_finish hg _ _ _ _ w.drained [] hdrained

end

end World

/-! ## Pushes and ticks -/

/-- a world, the requests pushed so far, and the worlds in which the ticks so far began -/
structure Docket (α κ σ : Type) where
  world : World α κ σ
  pushed : List (Request α)
  ticked : List (World α κ σ)

/-- what happens to a docket; what another thread pushes during a tick, after the queue has been emptied, is pushed
after the tick -/
inductive Docket.Event (α : Type) where
  | push (r : Request α)
  | tick (dt : Option α)

namespace Docket

section

variable [Scalar α] [SymbolKind κ]

/-- one event, whether it fails or not -/
def step (g : Grammar α κ σ) (d : Docket α κ σ) : Event α → Docket α κ σ
  | .push r => { d with world := ((Engine.request r).run g).after d.world, pushed := d.pushed ++ [r] }
  | .tick dt => { d with world := ((Engine.tick dt).run g).after d.world, ticked := d.ticked ++ [d.world] }

/-- those for which builds have been called, in order -/
def handed (g : Grammar α κ σ) (d : Docket α κ σ) : List (Request α) := d.ticked.flatMap (World.handed g)

/-- every request is accounted for: it was taken out by a tick, which handed it to a build or left it, or it waits -/
structure Accounted (g : Grammar α κ σ) (d : Docket α κ σ) : Prop where
  queues : ∃ rs, d.world.Queues rs
  ticked : ∀ w ∈ d.ticked, ∃ rs, w.Queues rs
  pushed : d.pushed = d.ticked.flatMap (fun w => w.handed g ++ w.left g) ++ d.world.queue

variable {g : Grammar α κ σ} {d : Docket α κ σ}

theorem Accounted.push (h : d.Accounted g) (r : Request α) : (d.step g (.push r)).Accounted g := by
  obtain ⟨rs, hrs⟩ := h.queues
  have hnext : ((d.step g (.push r)).world).Queues (rs ++ [r]) :=
    hrs.mapLoop (f := (·.request r)) (fun _ => rfl) fun l hl => congrArg (· ++ [r]) hl
  refine ⟨⟨_, hnext⟩, h.ticked, ?_⟩
  rw [hnext.queue_eq, ← List.append_assoc, ← hrs.queue_eq]
  exact congrArg (· ++ [r]) h.pushed

theorem Accounted.tick (hg : ∀ s, (g.expandWithin g.nesting s).KeepsDesk) (h : d.Accounted g) (dt : Option α) :
    (d.step g (.tick dt)).Accounted g := by
  obtain ⟨rs, hrs⟩ := h.queues
  have hnext : ((d.step g (.tick dt)).world).Queues [] := hrs.tick hg dt
  refine ⟨⟨_, hnext⟩, ?_, ?_⟩
  · intro w hw
    rcases List.mem_append.1 hw with hw | hw
    · exact h.ticked w hw
    · exact ⟨rs, List.mem_singleton.1 hw ▸ hrs⟩
  · calc d.pushed = d.ticked.flatMap (fun w => w.handed g ++ w.left g) ++ d.world.queue := h.pushed
      _ = (d.ticked ++ [d.world]).flatMap (fun w => w.handed g ++ w.left g) := by
        rw [List.flatMap_append, List.flatMap_singleton, hrs.handed_append_left g, hrs.queue_eq]
      _ = _ := by rw [hnext.queue_eq, List.append_nil]; rfl

/-- **One event.** Every request stays accounted for. -/
theorem Accounted.step (hg : ∀ s, (g.expandWithin g.nesting s).KeepsDesk) (h : d.Accounted g) (e : Event α) :
    (d.step g e).Accounted g := by
  cases e with
  | push r => exact h.push r
  | tick dt => exact h.tick hg dt

/-- so it is after any events -/
theorem Accounted.run (hg : ∀ s, (g.expandWithin g.nesting s).KeepsDesk) (events : List (Event α)) (h : d.Accounted g) :
    (events.foldl (Docket.step g) d).Accounted g := by
  induction events generalizing d with
  | nil => exact h
  | cons e events ih => exact ih (h.step hg e)

/-- some lists are left out of a concatenation without a trace just if they are all empty -/
theorem flatMap_append_eq_iff {ws : List β} (f k : β → List γ) :
    ws.flatMap (fun w => f w ++ k w) = ws.flatMap f ↔ ∀ w ∈ ws, k w = [] := by
  induction ws with
  | nil => simp
  | cons w ws ih =>
    rw [List.flatMap_cons, List.flatMap_cons, List.append_assoc, List.append_cancel_left_eq, List.forall_mem_cons, ← ih]
    constructor
    · intro h
      have hlength : ∀ vs : List β, (vs.flatMap f).length ≤ (vs.flatMap fun w => f w ++ k w).length := fun vs => by
        rw [List.length_flatMap, List.length_flatMap]
        exact List.sum_le_sum fun w _ => by simp
      have hk : k w = [] := by
        rw [← List.length_eq_zero_iff]
        have hsum := congrArg List.length h
        rw [List.length_append] at hsum
        have := hlength ws
        omega
      exact ⟨hk, by rwa [hk, List.nil_append] at h⟩
    · rintro ⟨hk, h⟩
      rw [hk, List.nil_append, h]

/-- **Requests.** Whatever is pushed, whenever the loop ticks and whatever fails:
- the requests pushed are, in this order, those that the ticks took out and those that wait, and those that a tick took
  out are those it handed to builds and, behind them, those it left;
- those it handed to builds are those it served, and it served no others: where a tick began, a tick is to empty the
  queue, to serve these in turn and to go on from there;
- none is handed to a build twice, nor before one that was pushed earlier;
- those handed to builds and those that wait are all that were pushed just if no tick dropped any. -/
theorem requests_accounted (hg : ∀ s, (g.expandWithin g.nesting s).KeepsDesk) {w : World α κ σ} (hw : w.Queues [])
    (events : List (Event α)) :
    let d := events.foldl (step g) ⟨w, [], []⟩
    d.pushed = d.ticked.flatMap (fun w => w.handed g ++ w.left g) ++ d.world.queue ∧
    (∀ w ∈ d.ticked, ∃ l t, w.desk.loop = some l ∧ w.desk.triggers[l.trigger]? = some t ∧ l.requests = w.handed g ++ w.left g ∧
      ∀ dt, (Engine.tick dt).run g w =
        (Engine.finish l.trigger t.root (w.handed g) (dt.getD l.config.tickRate)).run g w.drained) ∧
    (d.handed g).Sublist d.pushed ∧
    (d.pushed = d.handed g ++ d.world.queue ↔ ∀ w ∈ d.ticked, ¬ w.DropsRequests g) := by
  intro d
  have h : d.Accounted g := by
    refine Accounted.run hg events ⟨⟨[], hw⟩, by simp, ?_⟩
    exact hw.queue_eq.symm
  refine ⟨h.pushed, fun w hw => ?_, ?_, ?_⟩
  · obtain ⟨rs, hrs⟩ := h.ticked w hw
    obtain ⟨l, hl, hlt, rfl⟩ := hrs
    have ht := Array.getElem?_eq_getElem hlt
    exact ⟨l, _, hl, ht, (Queues.handed_append_left ⟨l, hl, hlt, rfl⟩ g).symm, fun dt => run_tick hl ht dt⟩
  · rw [h.pushed]
    refine List.Sublist.trans ?_ (List.sublist_append_left _ _)
    exact List.Sublist.flatMap_right _ fun w _ => List.sublist_append_left _ _
  · rw [h.pushed, handed, List.append_cancel_right_eq, flatMap_append_eq_iff]
    refine forall₂_congr fun w hw => ?_
    obtain ⟨rs, hrs⟩ := h.ticked w hw
    exact hrs.left_eq_nil_iff g

end

end Docket

/-! ## An engine that has just been set up -/

section

variable [Scalar α]

theorem keepsQueue_start [SymbolKind κ] {g : Grammar α κ σ} (hg : ∀ s, (g.expandWithin g.nesting s).KeepsDesk) :
    (Engine.start : Prog α κ σ Unit).KeepsQueue g := by
  have hrecent : (Engine.changeLoop fun l => { l with recent := [] } : Prog α κ σ Unit).KeepsQueue g :=
    keepsQueue_changeLoop (fun _ => rfl) fun _ => rfl
  refine (keepsQueue_ask _).bind fun l => (keepsQueue_act hg (o := .setLive true) False.elim).bind fun _ =>
    hrecent.bind fun _ => ?_
  split_ifs
  · exact (keepsQueue_ask _).bind fun t => (keepsQueue_build hg l.trigger _ none).bind fun _ => keepsQueue_emit t.root _
  · exact keepsQueue_pure ()

/-- a sequence that ends without a fault, taken apart -/
theorem Prog.run_bind_eq_ok [SymbolKind κ] {g : Grammar α κ σ} {p : Prog α κ σ β} {f : β → Prog α κ σ γ}
    {w v : World α κ σ} {c : γ} (h : (p >>= f).run g w = .ok c v) :
    ∃ b u, p.run g w = .ok b u ∧ (f b).run g u = .ok c v := by
  rw [Prog.run_bind] at h
  cases hp : p.run g w with
  | ok b u => exact ⟨b, u, rfl, by rwa [hp] at h⟩
  | error e u => rw [hp] at h; cases h

/-- the rules of a city leave the desk alone -/
theorem Manager.city_keepsDesk (nesting spare depth : Nat) (s : ShapeId) :
    ((Catalogue.cityGrammar nesting spare : Grammar α (City.Kind α) Unit).expandWithin depth s).KeepsDesk :=
  expandWithin_keepsDesk (fun kind s => by
    show (City.rule id kind s).Deskless
    rw [City.rule_eq]
    exact Recipe.toProg_deskless s _) depth s

/-- the queue of an engine that has just been set up is empty -/
theorem Manager.setUp_queues {g : Grammar α (City.Kind α) Unit} (hg : ∀ s, (g.expandWithin g.nesting s).KeepsDesk)
    {config : Config α} {w v : World α (City.Kind α) Unit} {root : ShapeId}
    (h : (Manager.setUp config).run g w = .ok root v) : v.Queues [] := by
  obtain ⟨r, w₁, -, h⟩ := Prog.run_bind_eq_ok h
  obtain ⟨t, w₂, htrigger, h⟩ := Prog.run_bind_eq_ok h
  obtain ⟨d, w₃, hdesk, h⟩ := Prog.run_bind_eq_ok h
  obtain ⟨_, w₄, hloop, h⟩ := Prog.run_bind_eq_ok h
  obtain ⟨_, w₅, hstart, h⟩ := Prog.run_bind_eq_ok h
  have hqueues : w₄.Queues [] := by
    cases htrigger
    cases hdesk
    cases hloop
    exact ⟨_, rfl, by simp [Loop.fresh], rfl⟩
  cases h
  exact (keepsQueue_start hg).ok hqueues hstart

end

/-! ## A request that is lost -/

namespace Docket

/-- the barren city after its engine has been set up -/
def barrenWorld : World ℚ (City.Kind ℚ) Unit :=
  ((Manager.setUp Manager.barren).run (Catalogue.cityGrammar 10 0)).after (Manager.blank Manager.barren ⟨fun _ => 0, 0⟩)

/-- two builds are asked for, and the loop ticks -/
def twoRequests : List (Event ℚ) := [.push ⟨0, some 1⟩, .push ⟨0, some 2⟩, .tick none]

/-- how many requests were pushed, were handed to builds, and wait -/
def tally (d : Docket ℚ (City.Kind ℚ) Unit) (g : Grammar ℚ (City.Kind ℚ) Unit) : Nat × Nat × Nat :=
  (d.pushed.length, (d.handed g).length, d.world.queue.length)

theorem barrenWorld_queues : barrenWorld.Queues [] := by
  have hok : (match (Manager.setUp Manager.barren).run (Catalogue.cityGrammar 10 0)
      (Manager.blank Manager.barren ⟨fun _ => 0, 0⟩) with
    | .ok _ _ => true
    | .error _ _ => false) = true := by decide +kernel
  unfold barrenWorld Act.after
  cases hrun : (Manager.setUp Manager.barren).run (Catalogue.cityGrammar 10 0)
      (Manager.blank Manager.barren ⟨fun _ => 0, 0⟩) with
  | ok root v => exact Manager.setUp_queues (Manager.city_keepsDesk 10 0 10) hrun
  | error e v => rw [hrun] at hok; cases hok

theorem tally_twoRequests :
    tally (twoRequests.foldl (step (Catalogue.cityGrammar 10 0)) ⟨barrenWorld, [], []⟩) (Catalogue.cityGrammar 10 0) =
      (2, 1, 0) := by decide +kernel

/-- a build fails for the first of two requests, and the tick drops the other -/
theorem requests_accounted_barren :
    let g := Catalogue.cityGrammar 10 0
    (∀ s, (g.expandWithin g.nesting s).KeepsDesk) ∧ barrenWorld.Queues [] ∧
      ¬ ∀ w ∈ (twoRequests.foldl (step g) ⟨barrenWorld, [], []⟩).ticked, ¬ w.DropsRequests g := by
  intro g
  have hdesk := Manager.city_keepsDesk (α := ℚ) 10 0 10
  refine ⟨hdesk, barrenWorld_queues, fun hdrops => ?_⟩
  have hall := (requests_accounted hdesk barrenWorld_queues twoRequests).2.2.2.2 hdrops
  have hlengths := tally_twoRequests
  simp only [tally, Prod.mk.injEq] at hlengths
  have := congrArg List.length hall
  rw [List.length_append] at this
  omega

/-- the second of the two requests is lost: it was handed to no build, and it does not wait -/
theorem request_lost :
    let g := Catalogue.cityGrammar 10 0
    let d := twoRequests.foldl (step g) ⟨barrenWorld, [], []⟩
    d.pushed ≠ d.handed g ++ d.world.queue ∧ d.pushed.length = 2 ∧ (d.handed g).length = 1 ∧ d.world.queue = [] := by
  intro g d
  have hlengths := tally_twoRequests
  simp only [tally, Prod.mk.injEq] at hlengths
  obtain ⟨hpushed, hhanded, hqueue⟩ := hlengths
  refine ⟨fun hall => ?_, hpushed, hhanded, List.length_eq_zero_iff.1 hqueue⟩
  have hsum : d.pushed.length = (d.handed g).length + d.world.queue.length := by
    rw [← List.length_append, ← hall]
  rw [hpushed, hhanded, hqueue] at hsum
  omega

end Docket

end SceneGrammar

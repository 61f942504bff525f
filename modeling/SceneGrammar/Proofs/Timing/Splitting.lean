/-
Splitting a step of the clock.

`Timeless`: an act that comes to the same at any time. What ends nodes and drops appointments is timeless, and so are
rules that plan nothing, leave the clock alone and do not look at it (`Prog.Clockless`, `Grammar.expandWithin_timeless`).

With such rules, an advance passes through the same worlds whether its time comes at once or in two parts: whatever is
due at the earlier time is due at the later one, too, and what is first in the heap does not depend on the time
(`Drains.split`). No order of the heap is asked for.

- `split_advance`: an advance in two parts.
-/
import SceneGrammar.Proofs.Diary.Basic
import SceneGrammar.Proofs.Timing.Course

namespace SceneGrammar

variable {α κ σ β : Type}

/-! ## The same agenda at another time -/

namespace Agenda

/-- the agenda at another time -/
def retime (a : Agenda α) (t : α) : Agenda α := { a with now := t }

@[simp] theorem retime_now (a : Agenda α) : a.retime a.now = a := rfl

@[simp] theorem retime_retime (a : Agenda α) (t u : α) : (a.retime t).retime u = a.retime u := rfl

theorem cancel_retime (a : Agenda α) (t : α) (n : Nat) :
    (a.retime t).cancel n = ((a.cancel n).1, (a.cancel n).2.retime t) := by
  have hpending : (a.retime t).pending = a.pending := rfl
  unfold cancel
  rw [hpending]
  cases a.pending.lookup n <;> rfl

end Agenda

namespace World

/-- the world at another time -/
def atTime (w : World α κ σ) (t : α) : World α κ σ := w.rebook (w.agenda.retime t)

@[simp] theorem agenda_atTime (w : World α κ σ) (t : α) : (w.atTime t).agenda = w.agenda.retime t := rfl

theorem cancelAll_retime (w : World α κ σ) (dead : List NodeId) (a : Agenda α) (t : α) :
    w.cancelAll dead (a.retime t) = (w.cancelAll dead a).retime t := by
  induction dead generalizing a with
  | nil => rfl
  | cons n dead ih =>
    have hn : (if (w.shapeOn? n).isSome then ((a.retime t).cancel n).2 else a.retime t) =
        (if (w.shapeOn? n).isSome then (a.cancel n).2 else a).retime t := by
      rw [Agenda.cancel_retime]
      split_ifs <;> rfl
    show w.cancelAll dead (if (w.shapeOn? n).isSome then ((a.retime t).cancel n).2 else a.retime t) = _
    rw [hn, ih]
    rfl

/-- the same outcome at another time -/
def retimed (r : EStateM.Result (Fault α) (World α κ σ) β) (t : α) : EStateM.Result (Fault α) (World α κ σ) β :=
  match r with
  | .ok b w => .ok b (w.atTime t)
  | .error e w => .error e (w.atTime t)

end World

open World

/-! ## Acts to which the time is nothing -/

/-- an act that comes to the same at any time -/
def Act.Timeless (a : Act α κ σ β) : Prop := ∀ w t, a (w.atTime t) = retimed (a w) t

theorem Act.Blind.timeless {a : Act α κ σ β} (ha : a.Blind) : a.Timeless := by
  intro w t
  obtain ⟨es, -, hblind⟩ := ha w
  have hnow := hblind w.agenda
  have hthen := hblind (w.agenda.retime t)
  rw [cancelAll_retime] at hthen
  rw [rebook_agenda] at hnow
  rw [atTime, hthen]
  -- the agenda that the act leaves is what is left of the one it found
  have hleft : (a.after w).agenda = w.cancelAll (endedIn es) w.agenda := by
    rw [Act.after_congr (w := w) (v := w) (b := fun _ => rebooked (a w) (w.cancelAll (endedIn es) w.agenda)) hnow]
    unfold Act.after rebooked
    cases a w <;> rfl
  unfold Act.after at hleft
  cases hr : a w with
  | ok b v =>
    rw [hr] at hleft
    rw [← hleft]
    rfl
  | error e v =>
    rw [hr] at hleft
    rw [← hleft]
    rfl

section

variable {expand : ShapeId → Act α κ σ Unit} (he : ∀ s, (expand s).Timeless)

include he

theorem runExpansion_timeless (s : ShapeId) : (runExpansion expand s).Timeless := by
  intro w t
  have hrun := he s (w.markExpanded s) t
  have hmark : (w.atTime t).markExpanded s = (w.markExpanded s).atTime t := rfl
  unfold runExpansion
  rw [hmark, hrun]
  cases expand s (w.markExpanded s) <;> rfl

theorem createSymbol_timeless [SymbolKind κ] (creator : ShapeId) (offer : KindOffer κ) (name : String)
    (parent : Option NodeId) (pose : Pose α) : (createSymbol expand creator offer name parent pose).Timeless := by
  intro w t
  have hplace := (blind_placeSymbol creator offer name parent pose).timeless w t
  unfold createSymbol
  rw [hplace]
  cases placeSymbol creator offer name parent pose w with
  | error e v => rfl
  | ok s v =>
    show (if v.eager then _ else _) = _
    simp only
    split_ifs
    · rw [runExpansion_timeless he s v t]
      cases runExpansion expand s v <;> rfl
    · rfl

variable [Scalar α] [SymbolKind κ]

/-- an expansion that is asked for, unless it is put off -/
theorem generate_timeless (s : ShapeId) {delay : α} {w : World α κ σ} (t : α)
    (hnow : ¬ delay < Scalar.zero → (delay == Scalar.zero || !w.live) = true) :
    generate expand s delay (w.atTime t) = retimed (generate expand s delay w) t := by
  have hdelete := (blind_deleteGenerated s).timeless w t
  unfold generate
  by_cases hd : delay < Scalar.zero
  · rw [if_pos hd, if_pos hd]
    rfl
  rw [if_neg hd, if_neg hd, hdelete]
  cases hr : deleteGenerated s w with
  | error e v => rfl
  | ok _ v =>
    have hlive : v.live = w.live := congrArg Surroundings.live ((deleteGenerated_secluded s).ok hr)
    have hnode : (v.atTime t).nodeOf s = v.nodeOf s := rfl
    simp only [retimed, hnode]
    cases v.nodeOf s with
    | error e => rfl
    | ok n =>
      have hgo : (delay == Scalar.zero || !v.live) = true := hlive ▸ hnow hd
      have hrun := runExpansion_timeless he s (v.rebook (v.agenda.cancel n).2) t
      have hcancel : ({ v.atTime t with agenda := ((v.atTime t).agenda.cancel n).2 } : World α κ σ) =
          (v.rebook (v.agenda.cancel n).2).atTime t := by
        rw [agenda_atTime, Agenda.cancel_retime]
        rfl
      simp only [hcancel]
      rw [if_pos hgo]
      refine (if_pos hgo).trans ?_
      exact hrun

end

/-! ## Rules to which the time is nothing -/

/-- the pace of rules that plan nothing and leave the clock alone -/
def Pace.still : Pace α := ⟨fun _ => false, fun _ => false, fun _ => true⟩

/-- a program that looks at nothing that depends on the time -/
def Prog.Clockless {β : Type} : Prog α κ σ β → Prop
  | .done _ => True
  | .fail _ => True
  | .look f next => (∀ w t, f (w.atTime t) = f w) ∧ ∀ x, (next x).Clockless
  | .perform _ next => ∀ x, (next x).Clockless
  | .attempt body next => body.Clockless ∧ ∀ r, (next r).Clockless

section

variable [Scalar α] [SymbolKind κ]

omit [SymbolKind κ] in
theorem Pace.still_atTime (w : World α κ σ) (t : α) (o : Op α κ σ) :
    Pace.still.permits (w.atTime t) o = Pace.still.permits w o := by cases o <;> rfl

/-- **One operation.** What plans nothing and leaves the clock alone comes to the same at any time, if the rules do. -/
theorem World.perform_retimed (spare : Nat) {expand : ShapeId → Act α κ σ Unit} (he : ∀ s, (expand s).Timeless)
    {o : Op α κ σ} {w : World α κ σ} (hp : Pace.still.permits w o = true) (t : α) :
    perform spare expand o (w.atTime t) = retimed (perform spare expand o w) t := by
  have hidle (hi : o.Idle) : perform spare expand o (w.atTime t) = retimed (perform spare expand o w) t :=
    (perform_blind spare expand hi).timeless w t
  cases o with
  | createSymbol creator offer name parent pose => exact createSymbol_timeless he creator offer name parent pose w t
  | expand s => exact he s w t
  | generate s delay =>
    refine generate_timeless he s t fun hd => ?_
    simpa [Pace.permits, Pace.still, hd] using hp
  | schedule s delay =>
    have hd : delay < Scalar.zero := by simpa [Pace.permits, Pace.still] using hp
    simp only [perform, World.schedule, if_pos hd]
    rfl
  | advance dt =>
    have hd : dt < Scalar.zero := by simpa [Pace.permits, Pace.still] using hp
    simp only [perform, World.advance, if_pos hd]
    rfl
  | cancel n =>
    simp only [perform, World.cancel, agenda_atTime, Agenda.cancel_retime]
    rfl
  | clearAgenda => rfl
  | clear => exact blind_sweep.timeless (w.rebook w.agenda.clear) t
  | _ => exact hidle trivial

theorem Prog.Clockless.exec_timeless {p : Prog α κ σ β} (hp : p.Clockless) (spare : Nat)
    {expand : ShapeId → Act α κ σ Unit} (he : ∀ s, (expand s).Timeless) :
    ((p.guarded Pace.still.permits).exec spare expand).Timeless := by
  induction p with
  | done b => exact fun w t => rfl
  | fail e => exact fun w t => rfl
  | look f next ih =>
    intro w t
    simp only [Prog.guarded, Prog.exec, hp.1 w t]
    exact ih (f w) (hp.2 (f w)) w t
  | perform o next ih =>
    intro w t
    simp only [Prog.guarded, Prog.exec, Pace.still_atTime]
    cases ho : Pace.still.permits w o with
    | false => rfl
    | true =>
      simp only [if_true, Prog.exec, World.perform_retimed spare he ho t]
      cases World.perform spare expand o w with
      | error e v => rfl
      | ok x v => exact ih x (hp x) v t
  | attempt body next ihb ihn =>
    intro w t
    simp only [Prog.guarded, Prog.exec, ihb hp.1 w t]
    cases (body.guarded Pace.still.permits).exec spare expand w with
    | error e v => exact ihn _ (hp.2 _) v t
    | ok x v => exact ihn _ (hp.2 _) v t

/-- **One rule.** -/
theorem Grammar.expandWithin_timeless {g : Grammar α κ σ} (hg : ∀ kind s, (g.rule kind s).Clockless) (depth : Nat)
    (s : ShapeId) : ((g.guarded Pace.still.permits).expandWithin depth s).Timeless := by
  induction depth generalizing s with
  | zero => exact fun w t => rfl
  | succ depth ih =>
    intro w t
    have hshape : (w.atTime t).shape? s = w.shape? s := shape?_rebook w _ s
    simp only [Grammar.expandWithin, hshape]
    cases w.shape? s with
    | none => rfl
    | some x => exact (hg x.kind s).exec_timeless g.spare ih w t

end

/-! ## One drain in two parts -/

section

variable [Scalar α]

/-- rules that plan nothing and leave the clock alone live on the appointments that there are -/
theorem Agenda.budgets_still (t : α) : Agenda.Budgets Pace.still fun n a => a.now = t ∧ a.heap.size ≤ n where
  upholds n := {
    cancel := fun m h => ⟨(now_cancel _ m).trans h.1, (size_cancel _ m).trans_le h.2⟩
    clear := fun h _ => ⟨h.1, Nat.zero_le n⟩
    schedule := fun _ _ _ _ _ hp => absurd hp (by simp [Pace.still])
    tick := fun _ _ _ hp => absurd hp (by simp [Pace.still])
    drop := fun h hp _ => ⟨(now_popDue hp).trans h.1, (size_popDue hp).le.trans h.2⟩
    settle := fun h hp _ => ⟨(now_popDue hp).trans h.1, (size_popDue hp).le.trans h.2⟩ }
  spent {a b e n} h hp := by
    have hsize := size_popDue hp
    obtain ⟨m, rfl⟩ : ∃ m, n = m + 1 := Nat.exists_eq_add_one.2 (Nat.lt_of_lt_of_le (Nat.zero_lt_of_lt hsize) h.2)
    have hb : b.now = t ∧ b.heap.size ≤ m := ⟨(now_popDue hp).trans h.1, Nat.le_of_lt_succ (hsize.trans_le h.2)⟩
    exact ⟨m, rfl, fun _ => hb, fun _ => hb⟩

theorem Agenda.popDue_retime {a b : Agenda α} {e : Appointment α} (hp : a.popDue = some (e, b)) (t : α) :
    (a.retime t).popDue = if e.due ≤ t then some (e, b.retime t) else none := by
  obtain ⟨hf, -, rest, hpop, rfl⟩ := popDue_cases hp
  have hf' : (a.retime t).heap[0]? = some e := hf
  have hpop' : Heap.pop Appointment.before (a.retime t).heap = some (e, rest) := hpop
  simp only [popDue, hf', hpop']
  rfl

/-- what does not come up later does not come up earlier -/
theorem Agenda.popDue_retime_none {a : Agenda α} (hp : a.popDue = none) {t : α} (hle : ∀ x, x ≤ t → x ≤ a.now) :
    (a.retime t).popDue = none := by
  cases hq : (a.retime t).popDue with
  | none => rfl
  | some q =>
    obtain ⟨e, b⟩ := q
    obtain ⟨-, hdue, -⟩ := popDue_cases hq
    have hback := popDue_retime hq a.now
    rw [if_pos (hle _ hdue), retime_retime, retime_now, hp] at hback
    cases hback

namespace World

variable {expand : ShapeId → Act α κ σ Unit} {w v : World α κ σ}

/-- an expansion leaves the clock alone -/
def KeepsTime (expand : ShapeId → Act α κ σ Unit) : Prop :=
  ∀ s w, ((runExpansion expand s).after w).agenda.now = w.agenda.now

theorem Pass.now (hkeep : KeepsTime expand) {x : Arrival α} (h : Pass expand w x v) : v.agenda.now = w.agenda.now := by
  cases h with
  | drop hp => exact Agenda.now_popDue hp
  | skip hp =>
    have hnow := Agenda.now_popDue hp
    exact hnow
  | @run _ e a hp _ _ hr =>
    have hnow := Agenda.now_popDue hp
    rw [← Act.after_ok hr]
    exact (hkeep e.shape _).trans hnow

theorem Drains.now (hkeep : KeepsTime expand) {l : List (Arrival α)} (h : Drains expand w l (.ok () v)) :
    v.agenda.now = w.agenda.now := by
  generalize hr : (.ok () v : EStateM.Result (Fault α) (World α κ σ) Unit) = r at h
  induction h with
  | rests => cases hr; rfl
  | fails => cases hr
  | pass hx _ ih => exact (ih hr).trans (hx.now hkeep)

variable (he : ∀ s, (expand s).Timeless)

include he

omit [Scalar α] in
/-- an expansion in which the agenda is at another time -/
theorem runExpansion_rebook_retime (s : ShapeId) (w : World α κ σ) (a : Agenda α) (t : α) :
    runExpansion expand s ((w.atTime t).rebook (a.retime t)) = retimed (runExpansion expand s (w.rebook a)) t :=
  runExpansion_timeless he s (w.rebook a) t

/-- a pass at another time, if the appointment is due then -/
theorem Pass.atTime {x : Arrival α} (h : Pass expand w x v) {t : α} (hdue : x.entry.due ≤ t) :
    Pass expand (w.atTime t) x (v.atTime t) := by
  have hpop {e : Appointment α} {a : Agenda α} (hp : w.agenda.popDue = some (e, a)) (hdue : e.due ≤ t) :
      (w.atTime t).agenda.popDue = some (e, a.retime t) := (Agenda.popDue_retime hp t).trans (if_pos hdue)
  have halive (s : ShapeId) : (w.atTime t).shapeAlive s = w.shapeAlive s := shapeAlive_rebook w _ s
  cases h with
  | drop hp hc => exact .drop (hpop hp hdue) hc
  | skip hp hc hdead => exact .skip (hpop hp hdue) hc (by rwa [halive])
  | @run _ e a hp hc hlives hr =>
    refine .run (hpop hp hdue) hc (by rwa [halive]) ?_
    have hrun := runExpansion_rebook_retime he e.shape w (a.settle e.node) t
    rw [hr] at hrun
    exact hrun

/-- **One drain in two parts.** What drains at a time drains in the same way if the clock stops at an earlier time on the
way. If a rule fails, it does so in one of the two parts. -/
theorem Drains.split (hkeep : KeepsTime expand) {l : List (Arrival α)} {r : EStateM.Result (Fault α) (World α κ σ) Unit}
    (h : Drains expand w l r) {t : α} (hle : ∀ x, x ≤ t → x ≤ w.agenda.now) :
    (∃ l₁ l₂ u, l = l₁ ++ l₂ ∧ Drains expand (w.atTime t) l₁ (.ok () u) ∧
        Drains expand (u.atTime w.agenda.now) l₂ r) ∨
      ∃ f v, r = .error f v ∧ Drains expand (w.atTime t) l (.error f (v.atTime t)) := by
  induction h with
  | @rests w hp => exact .inl ⟨[], [], w.atTime t, rfl, .rests (Agenda.popDue_retime_none hp hle), .rests hp⟩
  | @fails w v e a f hp hc halive hr =>
    have hpop := Agenda.popDue_retime hp t
    by_cases hdue : e.due ≤ t
    · rw [if_pos hdue] at hpop
      have hrun := runExpansion_rebook_retime he e.shape w (a.settle e.node) t
      rw [hr] at hrun
      refine .inr ⟨f, v, rfl, .fails hpop hc ?_ hrun⟩
      rwa [World.atTime, shapeAlive_rebook]
    · rw [if_neg hdue] at hpop
      exact .inl ⟨[], _, w.atTime t, rfl, .rests hpop, .fails hp hc halive hr⟩
  | @pass w v x l r hx hd ih =>
    obtain ⟨a, hp⟩ := hx.popDue
    have hpop := Agenda.popDue_retime hp t
    by_cases hdue : x.entry.due ≤ t
    · -- the pass belongs to the first part
      have hnow := hx.now hkeep
      rcases ih (hnow ▸ hle) with ⟨l₁, l₂, u, rfl, h₁, h₂⟩ | ⟨f, u, rfl, h₁⟩
      · exact .inl ⟨x :: l₁, l₂, u, rfl, .pass (hx.atTime he hdue) h₁, hnow ▸ h₂⟩
      · exact .inr ⟨f, u, rfl, .pass (hx.atTime he hdue) h₁⟩
    · -- the first part ends here
      rw [if_neg hdue] at hpop
      exact .inl ⟨[], x :: l, w.atTime t, rfl, .rests hpop, .pass hx hd⟩

end World

variable [SymbolKind κ]

theorem Grammar.keepsTime_still (g : Grammar α κ σ) (depth : Nat) :
    KeepsTime ((g.guarded Pace.still.permits).expandWithin depth) := by
  intro s w
  have hstill := (Agenda.budgets_still w.agenda.now).upholds w.agenda.heap.size
  exact (hstill.runExpansion g depth s ⟨rfl, le_rfl⟩).1

/-- what an advance answers whose rules plan nothing and leave the clock alone -/
theorem Grammar.Abides.advance_eq {g : Grammar α κ σ} {w : World α κ σ} {dt : α}
    (h : g.Abides Pace.still.permits (w.rebook (w.agenda.tick dt))) (hdt : ¬ dt < Scalar.zero) {l : List (Arrival α)}
    {r : EStateM.Result (Fault α) (World α κ σ) Unit}
    (hd : Drains ((g.guarded Pace.still.permits).expandWithin g.nesting) (w.rebook (w.agenda.tick dt)) l r) :
    advance (g.expandWithin g.nesting) g.spare dt w = concluded [] l r := by
  have hdrains := h.drains_iff.1 hd
  have hlength := h.length_le (Agenda.budgets_still (w.agenda.now + dt)) hdrains ⟨rfl, le_rfl⟩
  exact hdrains.advance hdt (Nat.le_add_right_of_le hlength)

variable [ExactTimes α]

/-- **Splitting a step.** Let the rules look at nothing that depends on the time, and let those that are run neither plan
nor move the clock; they may create, destroy, cancel and clear. Then an advance by `a` followed by one by `b` expands the
same shapes in the same order as one by `a + b`, and leaves the same world, unless a rule fails. If one does, it does so
either way, with the same fault; and if that happens in the second part, the worlds are the same, too. -/
theorem split_advance {g : Grammar α κ σ} (hclock : ∀ kind s, (g.rule kind s).Clockless) {w : World α κ σ} {a b : α}
    (ha : ¬ a < Scalar.zero) (hb : ¬ b < Scalar.zero)
    (hwhole : g.Abides Pace.still.permits (w.rebook (w.agenda.tick (a + b))))
    (hfirst : g.Abides Pace.still.permits (w.rebook (w.agenda.tick a)))
    (hsecond : ∀ ran u, advance (g.expandWithin g.nesting) g.spare a w = .ok ran u →
      g.Abides Pace.still.permits (u.rebook (u.agenda.tick b))) :
    (∃ ran₁ ran₂ u v, advance (g.expandWithin g.nesting) g.spare a w = .ok ran₁ u ∧
        advance (g.expandWithin g.nesting) g.spare b u = .ok ran₂ v ∧
        advance (g.expandWithin g.nesting) g.spare (a + b) w = .ok (ran₁ ++ ran₂) v) ∨
      ∃ f v, (∃ s u, runExpansion (g.expandWithin g.nesting) s u = .error f v) ∧
        advance (g.expandWithin g.nesting) g.spare (a + b) w = .error f v ∧
        ((∃ u, advance (g.expandWithin g.nesting) g.spare a w = .error f u) ∨
          ∃ ran u, advance (g.expandWithin g.nesting) g.spare a w = .ok ran u ∧
            advance (g.expandWithin g.nesting) g.spare b u = .error f v) := by
  have htimeless := Grammar.expandWithin_timeless hclock g.nesting
  have hkeep := g.keepsTime_still g.nesting
  obtain ⟨l, r, hl⟩ := hwhole.drains (Agenda.budgets_still (w.agenda.now + (a + b))) ⟨rfl, le_rfl⟩
  have hd := hwhole.drains_iff.2 hl
  have hboth := hwhole.advance_eq (ExactTimes.not_neg_add ha hb) hd
  have hle (x : α) (hx : x ≤ w.agenda.now + a) : x ≤ w.agenda.now + (a + b) := by
    rw [← ExactTimes.add_assoc]
    exact ExactTimes.le_add hx hb
  rcases hd.split htimeless hkeep hle with ⟨l₁, l₂, u, rfl, h₁, h₂⟩ | ⟨f, v, rfl, h₁⟩
  swap
  · exact .inr ⟨f, v, hl.failed, hboth, .inl ⟨_, hfirst.advance_eq ha h₁⟩⟩
  have hone : advance (g.expandWithin g.nesting) g.spare a w = .ok (shapesRun l₁) u := hfirst.advance_eq ha h₁
  -- the second part starts where the first one has left the clock
  have hstart : u.rebook (u.agenda.tick b) = u.atTime (w.agenda.now + (a + b)) := by
    have hnow : u.agenda.now = w.agenda.now + a := h₁.now hkeep
    rw [atTime, Agenda.tick, hnow, ExactTimes.add_assoc]
    rfl
  have htwo := (hsecond _ u hone).advance_eq hb (hstart ▸ h₂)
  cases r with
  | ok _ v =>
    rw [concluded, shapesRun_append] at hboth
    exact .inl ⟨shapesRun l₁, shapesRun l₂, u, v, hone, htwo, hboth⟩
  | error f v => exact .inr ⟨f, v, hl.failed, hboth, .inr ⟨_, u, hone, htwo⟩⟩

end

/-- a building destroys what stands on the third node; a roof puts up a flag -/
def logging : Grammar ℚ (City.Kind ℚ) Unit :=
  { rule := fun kind self => match kind with
      | .building _ => .perform (.destroy 3) fun _ => .done ()
      | .roof => .perform (.spawn self (.inline (.plain "flag" "")) none .rest) fun _ => .done ()
      | _ => .done ()
    nesting := 2, spare := 0 }

/-- a building and three roofs; the building and the last roof are due at one time, the others later at another -/
def lineUp : Prog ℚ (City.Kind ℚ) Unit Unit :=
  .perform (.createRoot (.of (.building 0)) "mill" none .rest none) fun mill =>
    .perform (.createRoot (.of .roof) "barn" none .rest none) fun barn =>
      .perform (.createRoot (.of .roof) "shed" none .rest none) fun shed =>
        .perform (.createRoot (.of .roof) "inn" none .rest none) fun inn =>
          .perform (.schedule barn 3) fun _ => .perform (.schedule shed 3) fun _ =>
            .perform (.schedule mill 1) fun _ => .perform (.schedule inn 1) fun _ => .done ()

/-- **The logging.** The mill's rule destroys the shed, which is due in the second part only: its appointment is dropped
when it comes up there, as it is when the time comes at once. -/
theorem split_advance_felling :
    let E := logging.expandWithin logging.nesting
    let w := (lineUp.run logging).after (.fresh ⟨fun _ => 0, 0⟩ ())
    ¬ (2 : ℚ) < Scalar.zero ∧ ∃ u v, advance E logging.spare 2 w = .ok [0, 3] u ∧
      advance E logging.spare 2 u = .ok [1] v ∧ advance E logging.spare (2 + 2) w = .ok [0, 3, 1] v := by
  intro E w
  have hclock (kind : City.Kind ℚ) (s : ShapeId) : (logging.rule kind s).Clockless := by
    unfold logging
    dsimp only
    split
    · exact fun _ => trivial
    · exact fun _ => trivial
    · trivial
  have hpasses (kind : City.Kind ℚ) (s : ShapeId) : (logging.rule kind s).Passes Pace.still.permits := by
    unfold logging
    dsimp only
    split <;> simp [Pace.permits, Pace.still]
  have hstep : ¬ (2 : ℚ) < Scalar.zero := by decide +kernel
  have hone : (advance E logging.spare 2).answer? w = some [0, 3] := by decide +kernel
  have hboth : (advance E logging.spare (2 + 2)).answer? w = some [0, 3, 1] := by decide +kernel
  have hsplit := split_advance hclock hstep hstep (Grammar.abides_of_passes hpasses _)
    (Grammar.abides_of_passes hpasses (w.rebook (w.agenda.tick 2))) fun _ _ _ => Grammar.abides_of_passes hpasses _
  rcases hsplit with ⟨ran₁, ran₂, u, v, h₁, h₂, h₃⟩ | ⟨f, v, -, hfailed, -⟩
  · obtain rfl : ran₁ = [0, 3] := Option.some.inj ((Act.answer?_eq_some_iff.2 ⟨u, h₁⟩).symm.trans hone)
    have hran := Option.some.inj ((Act.answer?_eq_some_iff.2 ⟨v, h₃⟩).symm.trans hboth)
    obtain rfl : ran₂ = [1] := List.append_cancel_left hran
    exact ⟨hstep, u, v, h₁, h₂, h₃⟩
  · obtain ⟨u, hu⟩ := Act.answer?_eq_some_iff.1 hboth
    cases hu.symm.trans hfailed

end SceneGrammar

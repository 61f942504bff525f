/-
The course of an advance.

The loop of an advance runs in passes: an appointment comes up, and is dropped, skipped or run (`Pass`). `Drains`: what
comes up, pass by pass, from a world on until nothing is due any more or a rule has failed. The relation knows no bound;
`Drains.runDue` says that the loop does just this within any bound that is at least the number of passes.

`Abides`: an advance all of whose rules pass a test, each in the world in which its turn comes. `Abides.drains`: if the
rules that pass the test keep a budget, and each pass spends some of it, then the advance ends within the budget.
-/
import SceneGrammar.Proofs.Timing.Pace

namespace SceneGrammar

variable {α κ σ β : Type}

/-- an appointment that comes up, and whether its shape is expanded then -/
structure Arrival (α : Type) where
  entry : Appointment α
  runs : Bool

/-- the shapes that are expanded, in order -/
def shapesRun (l : List (Arrival α)) : List ShapeId := (l.filter (·.runs)).map (·.entry.shape)

theorem shapesRun_append (l m : List (Arrival α)) : shapesRun (l ++ m) = shapesRun l ++ shapesRun m := by
  rw [shapesRun, List.filter_append, List.map_append]
  rfl

namespace World

variable [Scalar α] {expand : ShapeId → Act α κ σ Unit} {w v : World α κ σ}

/-- one pass of the loop after which it goes on -/
inductive Pass (expand : ShapeId → Act α κ σ Unit) : World α κ σ → Arrival α → World α κ σ → Prop where
  | drop {w : World α κ σ} {e : Appointment α} {a : Agenda α} : w.agenda.popDue = some (e, a) → e.cancelled = true →
      Pass expand w ⟨e, false⟩ (w.rebook a)
  | skip {w : World α κ σ} {e : Appointment α} {a : Agenda α} : w.agenda.popDue = some (e, a) → e.cancelled = false →
      ¬ w.shapeAlive e.shape = true → Pass expand w ⟨e, false⟩ (w.rebook (a.settle e.node))
  | run {w v : World α κ σ} {e : Appointment α} {a : Agenda α} : w.agenda.popDue = some (e, a) → e.cancelled = false →
      w.shapeAlive e.shape = true → runExpansion expand e.shape (w.rebook (a.settle e.node)) = .ok () v →
      Pass expand w ⟨e, true⟩ v

/-- from a world on, appointments come up until nothing is due or a rule fails -/
inductive Drains (expand : ShapeId → Act α κ σ Unit) :
    World α κ σ → List (Arrival α) → EStateM.Result (Fault α) (World α κ σ) Unit → Prop where
  | rests {w : World α κ σ} : w.agenda.popDue = none → Drains expand w [] (.ok () w)
  | fails {w v : World α κ σ} {e : Appointment α} {a : Agenda α} {f : Fault α} : w.agenda.popDue = some (e, a) →
      e.cancelled = false → w.shapeAlive e.shape = true →
      runExpansion expand e.shape (w.rebook (a.settle e.node)) = .error f v → Drains expand w [⟨e, true⟩] (.error f v)
  | pass {w v : World α κ σ} {x : Arrival α} {l : List (Arrival α)} {r : EStateM.Result (Fault α) (World α κ σ) Unit} :
      Pass expand w x v → Drains expand v l r → Drains expand w (x :: l) r

/-- what the loop answers -/
def concluded (done : List ShapeId) (l : List (Arrival α)) :
    EStateM.Result (Fault α) (World α κ σ) Unit → EStateM.Result (Fault α) (World α κ σ) (List ShapeId)
  | .ok _ v => .ok (done.reverse ++ shapesRun l) v
  | .error f v => .error f v

/-- the world at the end -/
def endOf : EStateM.Result (Fault α) (World α κ σ) Unit → World α κ σ
  | .ok _ v => v
  | .error _ v => v

/-! ## The loop -/

theorem Pass.popDue {x : Arrival α} (h : Pass expand w x v) : ∃ a, w.agenda.popDue = some (x.entry, a) := by
  cases h with
  | drop hp => exact ⟨_, hp⟩
  | skip hp => exact ⟨_, hp⟩
  | run hp => exact ⟨_, hp⟩

theorem Pass.runDue {x : Arrival α} (h : Pass expand w x v) (passes : Nat) (done : List ShapeId) :
    runDue expand (passes + 1) done w = runDue expand passes ((shapesRun [x]).reverse ++ done) v := by
  cases h with
  | drop hp hc => exact runDue_cancelled hp hc
  | skip hp hc hdead => exact runDue_dropped hp hc hdead
  | run hp hc halive hr => exact runDue_run hp hc halive hr

/-- **The loop and its course.** The loop does what its course says, if its bound is not less than the number of passes. -/
theorem Drains.runDue {l : List (Arrival α)} {r : EStateM.Result (Fault α) (World α κ σ) Unit} (h : Drains expand w l r)
    {passes : Nat} (hl : l.length ≤ passes) (done : List ShapeId) :
    runDue expand passes done w = concluded done l r := by
  induction h generalizing passes done with
  | rests hp => rw [runDue_none hp, concluded, shapesRun, List.filter_nil, List.map_nil, List.append_nil]
  | fails hp hc halive hr =>
    obtain ⟨passes, rfl⟩ : ∃ n, passes = n + 1 := Nat.exists_eq_add_one.2 hl
    exact runDue_failed hp hc halive hr
  | @pass w v x l r hpass _ ih =>
    obtain ⟨passes, rfl⟩ : ∃ n, passes = n + 1 := Nat.exists_eq_add_one.2 (Nat.lt_of_lt_of_le (Nat.succ_pos _) hl)
    rw [hpass.runDue, ih (Nat.le_of_succ_le_succ hl)]
    have happend : shapesRun (x :: l) = shapesRun [x] ++ shapesRun l := shapesRun_append [x] l
    cases r with
    | ok _ u => simp only [concluded, happend, List.reverse_append, List.reverse_reverse, List.append_assoc]
    | error f u => rfl

/-- an answer of the loop is one of a drain -/
theorem exists_drains {passes : Nat} {done ran : List ShapeId} (h : World.runDue expand passes done w = .ok ran v) :
    ∃ l, Drains expand w l (.ok () v) := by
  induction passes generalizing done w with
  | zero =>
    cases hp : w.agenda.popDue with
    | none =>
      rw [runDue_none hp] at h
      cases h
      exact ⟨[], .rests hp⟩
    | some q =>
      rw [runDue_zero hp] at h
      cases h
  | succ passes ih =>
    have hgo {x : Arrival α} {u : World α κ σ} (hx : Pass expand w x u) : ∃ l, Drains expand w l (.ok () v) := by
      rw [hx.runDue] at h
      obtain ⟨l, hl⟩ := ih h
      exact ⟨x :: l, .pass hx hl⟩
    cases hp : w.agenda.popDue with
    | none =>
      rw [runDue_none hp] at h
      cases h
      exact ⟨[], .rests hp⟩
    | some q =>
      obtain ⟨e, a⟩ := q
      cases hc : e.cancelled with
      | true => exact hgo (.drop hp hc)
      | false =>
        by_cases halive : w.shapeAlive e.shape = true
        · cases hr : runExpansion expand e.shape (w.rebook (a.settle e.node)) with
          | error f u =>
            rw [runDue_failed hp hc halive hr] at h
            cases h
          | ok _ u => exact hgo (.run hp hc halive hr)
        · exact hgo (.skip hp hc halive)

/-- what a drain comes to, if it does not come to a fault, has nothing due -/
theorem Drains.rested {l : List (Arrival α)} (h : Drains expand w l (.ok () v)) : v.agenda.popDue = none := by
  generalize hr : (.ok () v : EStateM.Result (Fault α) (World α κ σ) Unit) = r at h
  induction h with
  | rests hp =>
    cases hr
    exact hp
  | fails => cases hr
  | pass _ _ ih => exact ih hr

/-- a drain comes to a fault only if a rule does -/
theorem Drains.failed {l : List (Arrival α)} {f : Fault α} (h : Drains expand w l (.error f v)) :
    ∃ s u, runExpansion expand s u = .error f v := by
  generalize hr : (.error f v : EStateM.Result (Fault α) (World α κ σ) Unit) = r at h
  induction h with
  | rests => cases hr
  | fails _ _ _ hx =>
    cases hr
    exact ⟨_, _, hx⟩
  | pass _ _ ih => exact ih hr

/-- an advance moves the clock and drains -/
theorem Drains.advance {l : List (Arrival α)} {r : EStateM.Result (Fault α) (World α κ σ) Unit} {dt : α}
    (h : Drains expand (w.rebook (w.agenda.tick dt)) l r) (hdt : ¬ dt < Scalar.zero) {spare : Nat}
    (hl : l.length ≤ w.agenda.heap.size + spare) : advance expand spare dt w = concluded [] l r := by
  unfold World.advance
  rw [if_neg hdt]
  exact h.runDue hl []

end World

/-! ## Rules that keep a budget -/

section

variable [Scalar α] [SymbolKind κ]

open World

/-- an expansion that is the same when its rules fail where they do not pass a test -/
def Grammar.Expands (g : Grammar α κ σ) (ok : World α κ σ → Op α κ σ → Bool) (s : ShapeId) (w : World α κ σ) : Prop :=
  runExpansion ((g.guarded ok).expandWithin g.nesting) s w = runExpansion (g.expandWithin g.nesting) s w

/-- an advance all of whose rules pass a test, each in the world in which its turn comes; the clock has been moved -/
def Grammar.Abides (g : Grammar α κ σ) (ok : World α κ σ → Op α κ σ → Bool) (w : World α κ σ) : Prop :=
  ∀ u, Relation.ReflTransGen (fun u v => ∃ x, Pass (g.expandWithin g.nesting) u x v) w u →
    ∀ e a, u.agenda.popDue = some (e, a) → e.cancelled = false → u.shapeAlive e.shape = true →
      g.Expands ok e.shape (u.rebook (a.settle e.node))

/-- rules that pass a test wherever they run pass it during every advance -/
theorem Grammar.abides_of_passes {g : Grammar α κ σ} {ok : World α κ σ → Op α κ σ → Bool}
    (hg : ∀ kind s, (g.rule kind s).Passes ok) (w : World α κ σ) : g.Abides ok w := by
  intro u _ e a _ _ _
  unfold Expands
  rw [Grammar.expandWithin_guarded hg]

variable {g : Grammar α κ σ} {ok : World α κ σ → Op α κ σ → Bool} {w v : World α κ σ}

theorem Grammar.Abides.pass (h : g.Abides ok w) {x : Arrival α} (hx : Pass (g.expandWithin g.nesting) w x v) :
    g.Abides ok v := fun u hu => h u (hu.head ⟨x, hx⟩)

/-- a pass is the same when the rules fail where they do not pass the test -/
theorem Grammar.Abides.pass_iff (h : g.Abides ok w) {x : Arrival α} :
    Pass ((g.guarded ok).expandWithin g.nesting) w x v ↔ Pass (g.expandWithin g.nesting) w x v := by
  constructor
  · intro hx
    cases hx with
    | drop hp hc => exact .drop hp hc
    | skip hp hc hdead => exact .skip hp hc hdead
    | run hp hc halive hr => exact .run hp hc halive ((h w .refl _ _ hp hc halive).symm.trans hr)
  · intro hx
    cases hx with
    | drop hp hc => exact .drop hp hc
    | skip hp hc hdead => exact .skip hp hc hdead
    | run hp hc halive hr => exact .run hp hc halive ((h w .refl _ _ hp hc halive).trans hr)

/-- a drain is the same when the rules fail where they do not pass the test -/
theorem Grammar.Abides.drains_iff (h : g.Abides ok w) {l : List (Arrival α)}
    {r : EStateM.Result (Fault α) (World α κ σ) Unit} :
    Drains ((g.guarded ok).expandWithin g.nesting) w l r ↔ Drains (g.expandWithin g.nesting) w l r := by
  constructor
  · intro hd
    induction hd with
    | rests hp => exact .rests hp
    | fails hp hc halive hr => exact .fails hp hc halive ((h _ .refl _ _ hp hc halive).symm.trans hr)
    | pass hx _ ih => exact .pass (h.pass_iff.1 hx) (ih (h.pass (h.pass_iff.1 hx)))
  · intro hd
    induction hd with
    | rests hp => exact .rests hp
    | fails hp hc halive hr => exact .fails hp hc halive ((h _ .refl _ _ hp hc halive).trans hr)
    | pass hx _ ih => exact .pass (h.pass_iff.2 hx) (ih (h.pass hx))

/-- a budget that every change at a pace keeps, and of which every pass spends some -/
structure Agenda.Budgets (p : Pace α) (I : Nat → Agenda α → Prop) : Prop where
  upholds : ∀ n, Upholds p (I n)
  spent : ∀ {a b : Agenda α} {e : Appointment α} {n : Nat}, I n a → a.popDue = some (e, b) → ∃ m, n = m + 1 ∧
    (e.cancelled = true → I m b) ∧ (e.cancelled = false → I m (b.settle e.node))

variable {p : Pace α} {I : Nat → Agenda α → Prop} {n : Nat}

/-- what the rules of an expansion keep that pass the test -/
theorem Grammar.Expands.keeps {J : Agenda α → Prop} (hJ : Agenda.Upholds p J) {s : ShapeId} (h : g.Expands p.permits s w)
    (hw : J w.agenda) : J ((runExpansion (g.expandWithin g.nesting) s).after w).agenda := by
  have hkept := hJ.runExpansion g g.nesting s hw
  unfold Expands at h
  rwa [Act.after_congr h] at hkept

/-- **One pass.** When its appointment has been taken, it keeps whatever every change at the pace keeps. -/
theorem Grammar.Abides.pass_keeps (h : g.Abides p.permits w) {x : Arrival α}
    (hx : Pass (g.expandWithin g.nesting) w x v) : ∃ a, w.agenda.popDue = some (x.entry, a) ∧
      ∀ J : Agenda α → Prop, Agenda.Upholds p J → (x.entry.cancelled = true → J a) →
        (x.entry.cancelled = false → J (a.settle x.entry.node)) → J v.agenda := by
  cases hx with
  | drop hp hc => exact ⟨_, hp, fun J _ hdrop _ => hdrop hc⟩
  | skip hp hc => exact ⟨_, hp, fun J _ _ hsettle => hsettle hc⟩
  | @run _ e a hp hc halive hr =>
    refine ⟨a, hp, fun J hJ _ hsettle => ?_⟩
    have hkept := (h w .refl _ _ hp hc halive).keeps hJ (hsettle hc)
    rwa [Act.after_ok hr] at hkept

theorem Grammar.Abides.pass_upholds {J : Agenda α → Prop} (hJ : Agenda.Upholds p J) (h : g.Abides p.permits w)
    {x : Arrival α} (hx : Pass (g.expandWithin g.nesting) w x v) (hw : J w.agenda) : J v.agenda := by
  obtain ⟨a, hp, hkeeps⟩ := h.pass_keeps hx
  exact hkeeps J hJ (hJ.drop hw hp) (hJ.settle hw hp)

/-- **One drain** keeps what every change at the pace keeps, also if a rule fails. -/
theorem Grammar.Abides.drains_upholds {J : Agenda α → Prop} (hJ : Agenda.Upholds p J) (h : g.Abides p.permits w)
    {l : List (Arrival α)} {r : EStateM.Result (Fault α) (World α κ σ) Unit}
    (hd : Drains (g.expandWithin g.nesting) w l r) (hw : J w.agenda) : J (endOf r).agenda := by
  induction hd with
  | rests => exact hw
  | fails hp hc halive hr =>
    have hkept := (h _ .refl _ _ hp hc halive).keeps hJ (hJ.settle hw hp hc)
    rwa [Act.after_error hr] at hkept
  | pass hx _ ih => exact ih (h.pass hx) (h.pass_upholds hJ hx hw)

/-- a pass spends some of the budget -/
theorem Grammar.Abides.pass_spends (hI : Agenda.Budgets p I) (h : g.Abides p.permits w) {x : Arrival α}
    (hx : Pass (g.expandWithin g.nesting) w x v) (hw : I n w.agenda) : ∃ m, n = m + 1 ∧ I m v.agenda := by
  obtain ⟨a, hp, hkeeps⟩ := h.pass_keeps hx
  obtain ⟨m, rfl, hdrop, hsettle⟩ := hI.spent hw hp
  exact ⟨m, rfl, hkeeps (I m) (hI.upholds m) hdrop hsettle⟩

/-- **A drain has no more passes than its budget.** -/
theorem Grammar.Abides.length_le (hI : Agenda.Budgets p I) (h : g.Abides p.permits w) {l : List (Arrival α)}
    {r : EStateM.Result (Fault α) (World α κ σ) Unit} (hd : Drains (g.expandWithin g.nesting) w l r) (hw : I n w.agenda) :
    l.length ≤ n := by
  induction hd generalizing n with
  | rests => exact Nat.zero_le n
  | fails hp =>
    obtain ⟨m, rfl, -⟩ := hI.spent hw hp
    exact Nat.succ_le_succ (Nat.zero_le m)
  | pass hx _ ih =>
    obtain ⟨m, rfl, hv⟩ := h.pass_spends hI hx hw
    exact Nat.succ_le_succ (ih (h.pass hx) hv)

/-- **An advance ends**, with an answer or because a rule fails. -/
theorem Grammar.Abides.drains (hI : Agenda.Budgets p I) (h : g.Abides p.permits w) (hw : I n w.agenda) :
    ∃ l r, Drains (g.expandWithin g.nesting) w l r := by
  induction n using Nat.strongRecOn generalizing w with
  | _ n ih =>
    have hgo {x : Arrival α} {v : World α κ σ} (hx : Pass (g.expandWithin g.nesting) w x v) :
        ∃ l r, Drains (g.expandWithin g.nesting) w l r := by
      obtain ⟨m, rfl, hv⟩ := h.pass_spends hI hx hw
      obtain ⟨l, r, hd⟩ := ih m (Nat.lt_succ_self m) (h.pass hx) hv
      exact ⟨x :: l, r, .pass hx hd⟩
    cases hp : w.agenda.popDue with
    | none => exact ⟨[], _, .rests hp⟩
    | some q =>
      obtain ⟨e, a⟩ := q
      cases hc : e.cancelled with
      | true => exact hgo (.drop hp hc)
      | false =>
        by_cases halive : w.shapeAlive e.shape = true
        · cases hr : runExpansion (g.expandWithin g.nesting) e.shape (w.rebook (a.settle e.node)) with
          | error f v => exact ⟨_, _, .fails hp hc halive hr⟩
          | ok _ v => exact hgo (.run hp hc halive hr)
        · exact hgo (.skip hp hc halive)

end

end SceneGrammar

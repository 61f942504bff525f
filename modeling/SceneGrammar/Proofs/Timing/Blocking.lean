/-
Appointments that stand in the way of others.

An advance looks at the first appointment of the heap only. A delay is refused if it is below zero; the undefined one is
not, nor is it anything else. What is planned with it is never due and before nothing, so it may stand above what is due,
which then does not come up, even if the one above has been cancelled (`blocked_by_undefined`).

Delays at zero or above, infinite ones included, are ranked, and comparisons that agree on what is in a heap do the same
to it: the heap is in order (`Timed`), and its first appointment is a first one.

- `World.Attained.advance_leaves_later`: if all delays and steps are at zero or above, then all that an advance leaves is
  due later.
-/
import SceneGrammar.Proofs.Timing.Course
import SceneGrammar.Proofs.Timing.Doubles

namespace SceneGrammar

variable {κ σ : Type}

open Binary64

/-- the pace at which delays and steps are at zero or above, so not undefined -/
def Pace.defined : Pace Float := ⟨fun delay => Scalar.zero ≤ delay, fun dt => Scalar.zero ≤ dt, fun _ => true⟩

/-- an order of all appointments, that of those which are due at zero or later -/
def Appointment.earlier (e f : Appointment Float) : Bool :=
  toLex (rank e.due, e.number) < toLex (rank f.due, f.number)

theorem Appointment.before_agrees :
    Heap.Agree Appointment.before Appointment.earlier fun e : Appointment Float => Scalar.zero ≤ e.due := by
  intro e f he hf
  unfold before earlier
  by_cases heq : rank e.due = rank f.due
  · rw [if_pos ((beq_iff_rank he hf).2 heq), heq]
    simp [Prod.Lex.toLex_lt_toLex]
  · rw [if_neg fun hc => heq ((beq_iff_rank he hf).1 hc)]
    simp [Prod.Lex.toLex_lt_toLex, lt_iff_rank he hf, heq]

theorem earlierRanks : Heap.Ranks Appointment.earlier where
  total e f := by
    simp only [Heap.Atop, Appointment.earlier, decide_eq_false_iff_not, not_lt]
    exact le_total _ _
  trans e f g hef hfg := by
    simp only [Heap.Atop, Appointment.earlier, decide_eq_false_iff_not, not_lt] at hef hfg ⊢
    exact hef.trans hfg

namespace Agenda

/-- the clock and all due times are at zero or above, and the heap is in order -/
structure Timed (a : Agenda Float) : Prop where
  sound : a.Sound
  now : Scalar.zero ≤ a.now
  dues : ∀ e ∈ a.heap, Scalar.zero ≤ e.due
  ordered : Heap.IsHeap Appointment.earlier a.heap

variable {a b : Agenda Float} {e : Appointment Float}

theorem timed_empty : Timed .empty where
  sound := by constructor <;> simp [empty]
  now := by decide +kernel
  dues e he := absurd he (by simp [empty])
  ordered := Heap.isHeap_empty

theorem Timed.cancel (h : Timed a) (n : Nat) : Timed (a.cancel n).2 where
  sound := h.sound.cancel n
  now := (now_cancel a n).symm ▸ h.now
  dues e he := by
    obtain ⟨f, hf, hef⟩ := recalls_of_mem_cancel he
    rw [hef.due]
    exact h.dues f hf
  ordered := by
    unfold Agenda.cancel
    cases a.pending.lookup n with
    | none => exact h.ordered
    | some k =>
      refine Heap.IsHeap.map h.ordered (strike k) fun x y => ?_
      unfold strike Appointment.earlier
      split_ifs <;> rfl

theorem Timed.schedule (h : Timed a) (n s : Nat) {delay : Float} (hd : Scalar.zero ≤ delay) :
    Timed (a.schedule n s delay) := by
  have hc := h.cancel n
  have hdue : Scalar.zero ≤ (a.cancel n).2.now + delay := zero_le_add hc.now hd
  refine ⟨h.sound.schedule n s delay, hc.now, fun e he => ?_, ?_⟩
  · rcases mem_heap_schedule.1 he with rfl | he
    · exact zero_le_add h.now hd
    · exact hc.dues e he
  · have hpush := Heap.push_agree Appointment.before_agrees hc.dues
      (a := ⟨(a.cancel n).2.now + delay, (a.cancel n).2.nextNumber, n, s, false⟩) hdue
    show Heap.IsHeap Appointment.earlier (Heap.push Appointment.before (a.cancel n).2.heap _)
    rw [hpush]
    exact Heap.push_isHeap earlierRanks hc.ordered _

theorem Timed.tick (h : Timed a) {dt : Float} (hdt : Scalar.zero ≤ dt) : Timed (a.tick dt) :=
  ⟨h.sound.tick dt, zero_le_add h.now hdt, h.dues, h.ordered⟩

/-- what is left when an appointment has come up -/
theorem Timed.popDue (h : Timed a) (hp : a.popDue = some (e, b)) :
    b.now = a.now ∧ (∀ f ∈ b.heap, Scalar.zero ≤ f.due) ∧ Heap.IsHeap Appointment.earlier b.heap := by
  refine ⟨now_popDue hp, fun f hf => h.dues f ((mem_of_popDue hp).2 (.inr hf)), ?_⟩
  obtain ⟨-, -, rest, hpop, rfl⟩ := popDue_cases hp
  rw [Heap.pop_agree Appointment.before_agrees h.dues] at hpop
  exact Heap.pop_isHeap earlierRanks h.ordered hpop

/-- **What is not due.** If nothing comes up, nothing in the heap is due. -/
theorem Timed.later (h : Timed a) (hp : a.popDue = none) (he : e ∈ a.heap) : a.now < e.due := by
  obtain ⟨i, hi, -⟩ := Array.mem_iff_getElem.1 he
  have hf : a.heap[0]? = some a.heap[0] := Array.getElem?_eq_getElem (Nat.zero_lt_of_lt hi)
  have hzero : Scalar.zero ≤ a.heap[0].due := h.dues _ (Array.getElem_mem _)
  have hfirst : ¬ a.heap[0].due ≤ a.now := first_not_due hp hf
  rw [le_iff_rank hzero h.now, not_le] at hfirst
  have hleast := h.ordered.first_least earlierRanks hf he
  simp only [Heap.Atop, Appointment.earlier, decide_eq_false_iff_not, not_lt] at hleast
  rw [lt_iff_rank h.now (h.dues e he)]
  exact hfirst.trans_le (Prod.Lex.monotone_fst _ _ hleast)

theorem upholds_timed : Upholds Pace.defined Timed where
  cancel n h := h.cancel n
  clear h _ := ⟨h.sound.clear, h.now, fun e he => absurd he (by simp [clear]), Heap.isHeap_empty⟩
  schedule n s _ h _ hp := h.schedule n s (of_decide_eq_true hp)
  tick _ h _ hp := h.tick (of_decide_eq_true hp)
  drop {a b e} h hp hc := by
    obtain ⟨hnow, hdues, hordered⟩ := h.popDue hp
    exact ⟨h.sound.pop_dropped hp hc, hnow ▸ h.now, hdues, hordered⟩
  settle {a b e} h hp hc := by
    obtain ⟨hnow, hdues, hordered⟩ := h.popDue hp
    exact ⟨h.sound.pop_settled hp hc, hnow ▸ h.now, hdues, hordered⟩

end Agenda

open World

variable [SymbolKind κ]

/-- **Nothing stands in the way.** Whatever has been run with delays and steps at zero or above, infinite ones included, and
whatever the rules of the next advance do with such: if it answers, all that is left in the heap is due later, cancelled
or not, and so is all that is pending. -/
theorem World.Attained.advance_leaves_later {g : Grammar Float κ σ} {w v : World Float κ σ} {dt : Float}
    {ran : List ShapeId} (hw : Attained Pace.defined.permits w)
    (hdt : (Prog.act (.advance dt)).HeedsBy Pace.defined.permits g w)
    (hr : (Prog.act (.advance dt)).run g w = .ok ran v) : (∀ e ∈ v.agenda.heap, v.agenda.now < e.due) ∧
      ∀ p ∈ v.agenda.pending, ∃ e ∈ v.agenda.heap, e.node = p.1 ∧ e.number = p.2 ∧ v.agenda.now < e.due := by
  have hv : Attained Pace.defined.permits v := by
    have hrun := hw.run g _ hdt
    rwa [Act.after_ok hr] at hrun
  have htimed : v.agenda.Timed := hv.upholds Agenda.upholds_timed Agenda.timed_empty
  have hrested : v.agenda.popDue = none := by
    have hadvance : World.advance (g.expandWithin g.nesting) g.spare dt w = .ok ran v := (Prog.run_act _ w).symm.trans hr
    unfold World.advance at hadvance
    split_ifs at hadvance
    obtain ⟨l, hl⟩ := exists_drains hadvance
    exact hl.rested
  have hlater (e : Appointment Float) (he : e ∈ v.agenda.heap) : v.agenda.now < e.due := htimed.later hrested he
  refine ⟨hlater, fun p hp => ?_⟩
  obtain ⟨e, he, hnode, hnumber⟩ := htimed.sound.held p hp
  exact ⟨e, he, hnode, hnumber, hlater e he⟩

/-- no rule does anything -/
def dormant : Grammar Float (City.Kind Float) Unit := { rule := fun _ _ => .done (), nesting := 1, spare := 0 }

/-- two roofs in a live world with an appointment each, and what is done last -/
def agreed (first second : Float) (last : Op Float (City.Kind Float) Unit) : Prog Float (City.Kind Float) Unit Unit :=
  .perform (.setLive true) fun _ => .perform (.createRoot (.of .roof) "mill" none .rest none) fun mill =>
    .perform (.createRoot (.of .roof) "barn" none .rest none) fun barn => .perform (.schedule mill first) fun _ =>
      .perform (.schedule barn second) fun _ => .perform last fun _ => .done ()

/-- an appointment that is infinitely far off does not come up, nor does it stand in the way when it has been replaced -/
theorem advance_leaves_later_agreed :
    let w := ((agreed (1 / 0) 1 (.schedule 0 2)).run dormant).after (.fresh ⟨fun _ => 0, 0⟩ ())
    Attained Pace.defined.permits w ∧ (Prog.act (.advance 2)).HeedsBy Pace.defined.permits dormant w ∧
      ∃ v, (Prog.act (.advance 2)).run dormant w = .ok [1, 0] v ∧ v.agenda.heap.size = 1 ∧
        (∀ e ∈ v.agenda.heap, v.agenda.now < e.due) ∧
        ∀ p ∈ v.agenda.pending, ∃ e ∈ v.agenda.heap, e.node = p.1 ∧ e.number = p.2 ∧ v.agenda.now < e.due := by
  intro w
  have hpasses : (agreed (1 / 0) 1 (.schedule 0 2)).Passes Pace.defined.permits := by
    have hfar : Scalar.zero ≤ (1 / 0 : Float) := by decide +kernel
    have hone : Scalar.zero ≤ (1 : Float) := by decide +kernel
    have htwo : Scalar.zero ≤ (2 : Float) := by decide +kernel
    simp [agreed, Pace.permits, Pace.defined, hfar, hone, htwo]
  have hdormant (kind : City.Kind Float) (s : ShapeId) : (dormant.rule kind s).Passes Pace.defined.permits := trivial
  have hw : Attained Pace.defined.permits w := .run dormant _ (.start rfl) (hpasses.heedsBy hdormant _)
  have hadvance : (Prog.act (.advance 2) : Prog Float (City.Kind Float) Unit (List ShapeId)).Passes
      Pace.defined.permits := by
    have hstep : Scalar.zero ≤ (2 : Float) := by decide +kernel
    simp [Prog.act, Pace.permits, Pace.defined, hstep]
  have hdt := hadvance.heedsBy hdormant w
  have hran : ((Prog.act (.advance 2)).run dormant).answer? w = some [1, 0] := by decide +kernel
  have hsize : (((Prog.act (.advance 2)).run dormant).after w).agenda.heap.size = 1 := by decide +kernel
  obtain ⟨v, hv⟩ := Act.answer?_eq_some_iff.1 hran
  rw [Act.after_ok hv] at hsize
  exact ⟨hw, hdt, v, hv, hsize, hw.advance_leaves_later hdt hv⟩

/-- there is an appointment that is due and has not been cancelled -/
def Agenda.overdue (a : Agenda Float) : Bool := a.heap.any fun e => ! e.cancelled && decide (e.due ≤ a.now)

/-- **In the way.** An undefined delay is accepted. The appointment that is made with it does not come up, and another one
that is due does not either; nor does it when the first has been cancelled or replaced. -/
theorem blocked_by_undefined :
    let w (last : Op Float (City.Kind Float) Unit) :=
      ((agreed (0 / 0) 1 last).run dormant).after (.fresh ⟨fun _ => 0, 0⟩ ())
    let E := dormant.expandWithin dormant.nesting
    ¬ (0 / 0 : Float) < Scalar.zero ∧ (∀ last, Attained Pace.any.permits (w last)) ∧
      ((advance E 0 2).answer? (w (.setLive true)) = some [] ∧
        ((advance E 0 2).after (w (.setLive true))).agenda.overdue = true) ∧
      ((advance E 0 2).answer? (w (.cancel 1)) = some [] ∧
        ((advance E 0 2).after (w (.cancel 1))).agenda.overdue = true) ∧
      ((advance E 0 2).answer? (w (.schedule 0 1)) = some [] ∧
        ((advance E 0 2).after (w (.schedule 0 1))).agenda.overdue = true) := by
  intro w E
  have hw (last : Op Float (City.Kind Float) Unit) : Attained Pace.any.permits (w last) :=
    .run dormant _ (.start rfl) ((Prog.passes_of_forall Pace.any_permits _).heedsBy
      (fun kind s => Prog.passes_of_forall Pace.any_permits (dormant.rule kind s)) _)
  exact ⟨by decide +kernel, hw, ⟨by decide +kernel, by decide +kernel⟩, ⟨by decide +kernel, by decide +kernel⟩,
    by decide +kernel, by decide +kernel⟩

end SceneGrammar

/-
Rules that put off their own expansions.

While an advance runs, rules may plan expansions, cancel others and tear the scene down. If they plan with positive delays
only and leave the clock where it is, what they plan is due later than the advance reaches: the appointments that come up
are among those that were there at its start.

`Succeeds a b`: `b` has come of `a` in this way. It has nothing older than what `a` had, cancelled or not, and all newer
appointments are due later; each stage of the advance keeps this up (`upholds_succeeds`). So what comes up has been there
(`Succeeds.popped`), in the order of the heap (`Abides.drains_increasing`), and the passes are bounded by the number of
appointments that are due at the start (`budgets_forward`).

- `advance_forward`: how such an advance goes.
- `advance_astray`: why the clock must stay and no shape may be put on a second node.
-/
import SceneGrammar.Proofs.Timing.Splitting

namespace SceneGrammar

variable {α κ σ β : Type}

/-- the pace of rules that plan with positive delays and leave the clock where it is -/
def Pace.forward [Scalar α] : Pace α :=
  ⟨fun delay => Scalar.zero < delay, fun dt => ! decide (Scalar.zero < dt), fun _ => true⟩

/-- the same, if besides the agenda is not cleared once a number has been given out -/
def Pace.sparing [Scalar α] (k : Nat) : Pace α := { Pace.forward with clears := fun a => decide (a.nextNumber ≤ k) }

theorem Appointment.not_before_self [Scalar α] [OrderedScalar α] {e : Appointment α} : ¬ e.before e = true := by
  rw [before_iff]
  exact fun h => h.elim (OrderedScalar.lt_irrefl _) fun h => lt_irrefl _ h.2

namespace Agenda

variable [Scalar α] {a b c : Agenda α}

/-- an agenda that is left of another one, with nothing new but what is due later -/
structure Succeeds (a b : Agenda α) : Prop where
  sound : b.Sound
  ordered : b.Ordered
  now : b.now = a.now
  next : a.nextNumber ≤ b.nextNumber
  old : ∀ e ∈ b.heap, e.number < a.nextNumber → ∃ f ∈ a.heap, e.Recalls f
  new : ∀ e ∈ b.heap, a.nextNumber ≤ e.number → a.now < e.due

theorem Succeeds.refl (hs : a.Sound) (ho : a.Ordered) : Succeeds a a where
  sound := hs
  ordered := ho
  now := rfl
  next := le_rfl
  old e he _ := ⟨e, he, .inl rfl⟩
  new e he hn := absurd (hs.fresh e he) (Nat.not_lt.2 hn)

/-- what has nothing that was not there -/
theorem Succeeds.shrink (h : Succeeds a b) (hs : c.Sound) (ho : c.Ordered) (hnow : c.now = b.now)
    (hnext : c.nextNumber = b.nextNumber) (hheap : ∀ e ∈ c.heap, ∃ f ∈ b.heap, e.Recalls f) : Succeeds a c where
  sound := hs
  ordered := ho
  now := hnow.trans h.now
  next := h.next.trans_eq hnext.symm
  old e he hn := by
    obtain ⟨f, hf, hef⟩ := hheap e he
    obtain ⟨g, hg, hfg⟩ := h.old f hf (hef.number ▸ hn)
    exact ⟨g, hg, hef.trans hfg⟩
  new e he hn := by
    obtain ⟨f, hf, hef⟩ := hheap e he
    rw [hef.due]
    exact h.new f hf (hef.number ▸ hn)

theorem Succeeds.cancel (h : Succeeds a b) (n : Nat) : Succeeds a (b.cancel n).2 :=
  h.shrink (h.sound.cancel n) (h.ordered.cancel n) (now_cancel b n) (nextNumber_cancel b n) fun _ => recalls_of_mem_cancel

variable [ExactTimes α]

theorem tick_zero (a : Agenda α) : a.tick Scalar.zero = a := by
  rw [tick, ExactTimes.add_zero]

/-- what comes up has been there before -/
theorem Succeeds.popped (h : Succeeds a b) {e : Appointment α} (hp : b.popDue = some (e, c)) :
    e.due ≤ a.now ∧ e.number < a.nextNumber ∧ ∃ f ∈ a.heap, e.Recalls f := by
  have he : e ∈ b.heap := (mem_of_popDue hp).2 (.inl rfl)
  have hdue : e.due ≤ a.now := h.now ▸ (popDue_cases hp).2.1
  have hnumber : e.number < a.nextNumber := by
    by_contra hn
    exact (OrderedScalar.le_iff _ _).1 hdue (h.new e he (Nat.le_of_not_lt hn))
  exact ⟨hdue, hnumber, h.old e he hnumber⟩

/-- **One change.** What is planned with a positive delay is due later. -/
theorem upholds_succeeds (a : Agenda α) : Upholds Pace.forward (Succeeds a) where
  cancel n h := h.cancel n
  clear h _ := h.shrink h.sound.clear Heap.isHeap_empty rfl rfl fun e he => absurd he (by simp [clear])
  schedule {b} n s delay h _ hp := by
    have hpos : Scalar.zero < delay := by simpa [Pace.forward] using hp
    refine ⟨h.sound.schedule n s delay, h.ordered.schedule beforeRanks n s delay, ?_, ?_, fun e he hn => ?_,
      fun e he hn => ?_⟩
    · exact (now_cancel b n).trans h.now
    · rw [nextNumber_schedule]
      exact h.next.trans (Nat.le_succ _)
    · rcases mem_heap_schedule.1 he with rfl | he
      · exact absurd hn (Nat.not_lt.2 h.next)
      · exact (h.cancel n).old e he hn
    · rcases mem_heap_schedule.1 he with rfl | he
      · rw [h.now]
        exact ExactTimes.lt_add hpos
      · exact (h.cancel n).new e he hn
  tick {b} dt h hneg hp := by
    have hnot : ¬ Scalar.zero < dt := by simpa [Pace.forward] using hp
    obtain rfl := (ExactTimes.eq_zero_or_pos hneg).resolve_right hnot
    rwa [tick_zero]
  drop h hp hc :=
    h.shrink (h.sound.pop_dropped hp hc) (h.ordered.popDue beforeRanks hp) (now_popDue hp) (nextNumber_popDue hp)
      fun f hf => ⟨f, (mem_of_popDue hp).2 (.inr hf), .inl rfl⟩
  settle {b c e} h hp hc := by
    have hordered : c.Ordered := h.ordered.popDue beforeRanks hp
    have hnow : c.now = b.now := now_popDue hp
    have hnext : c.nextNumber = b.nextNumber := nextNumber_popDue hp
    exact h.shrink (h.sound.pop_settled hp hc) hordered hnow hnext
      fun f hf => ⟨f, (mem_of_popDue hp).2 (.inr hf), .inl rfl⟩

/-! ## How many come up -/

/-- the number of appointments that are due -/
def dueCount (a : Agenda α) : Nat := a.heap.toList.countP fun e => decide (e.due ≤ a.now)

omit [ExactTimes α] in
theorem dueCount_le (a : Agenda α) : a.dueCount ≤ a.heap.size := by
  rw [← Array.length_toList]
  exact List.countP_le_length

omit [ExactTimes α] in
theorem dueCount_cancel (a : Agenda α) (n : Nat) : (a.cancel n).2.dueCount = a.dueCount := by
  unfold dueCount
  rw [now_cancel]
  unfold cancel
  cases a.pending.lookup n with
  | none => rfl
  | some k =>
    simp only [Array.toList_map, List.countP_map]
    refine List.countP_congr fun e _ => ?_
    simp only [Function.comp, strike]
    split_ifs <;> rfl

theorem dueCount_schedule (a : Agenda α) (n s : Nat) {delay : α} (hpos : Scalar.zero < delay) :
    (a.schedule n s delay).dueCount = a.dueCount := by
  have hlater : ¬ (a.cancel n).2.now + delay ≤ (a.cancel n).2.now := by
    rw [OrderedScalar.le_iff, not_not]
    exact ExactTimes.lt_add hpos
  have hperm := @Heap.push_perm _ Appointment.before (a.cancel n).2.heap
    ⟨(a.cancel n).2.now + delay, (a.cancel n).2.nextNumber, n, s, false⟩
  rw [← dueCount_cancel a n]
  refine (hperm.countP_eq _).trans (List.countP_cons_of_neg ?_)
  rwa [decide_eq_true_iff]

omit [ExactTimes α] in
/-- one appointment less is due when one has been taken -/
theorem dueCount_popDue {e : Appointment α} (hp : a.popDue = some (e, b)) : a.dueCount = b.dueCount + 1 := by
  obtain ⟨-, hdue, rest, hpop, rfl⟩ := popDue_cases hp
  simp only [dueCount]
  rw [← (Heap.pop_perm hpop).countP_eq, List.countP_cons_of_pos (by simpa using hdue)]

/-- **The passes are bounded by what is due at the start.** -/
theorem budgets_forward : Budgets Pace.forward fun n (a : Agenda α) => a.dueCount ≤ n where
  upholds n := {
    cancel := fun m h => (dueCount_cancel _ m).trans_le h
    clear := fun _ _ => Nat.zero_le n
    schedule := fun m s delay h _ hp => (dueCount_schedule _ m s (by simpa [Pace.forward] using hp)).trans_le h
    tick := fun dt h hneg hp => by
      have hnot : ¬ Scalar.zero < dt := by simpa [Pace.forward] using hp
      obtain rfl := (ExactTimes.eq_zero_or_pos hneg).resolve_right hnot
      rwa [tick_zero]
    drop := fun h hp _ => (Nat.le_succ _).trans ((dueCount_popDue hp).symm.trans_le h)
    settle := fun h hp _ => (Nat.le_succ _).trans ((dueCount_popDue hp).symm.trans_le h) }
  spent {a b e n} h hp := by
    rw [dueCount_popDue hp] at h
    obtain ⟨m, rfl⟩ : ∃ m, n = m + 1 := Nat.exists_eq_add_one.2 (Nat.lt_of_lt_of_le (Nat.succ_pos _) h)
    exact ⟨m, rfl, fun _ => Nat.le_of_succ_le_succ h, fun _ => Nat.le_of_succ_le_succ h⟩

/-! ## What comes up first -/

/-- the appointment that comes up is before all others -/
theorem Ordered.first {e : Appointment α} (h : a.Ordered) (hs : a.Sound) (hp : a.popDue = some (e, b))
    {f : Appointment α} (hf : f ∈ b.heap) : e.before f = true := by
  have hne : e.number ≠ f.number := fun hn =>
    (List.nodup_cons.1 (popDue_distinct hs hp)).1 (hn ▸ List.mem_map.2 ⟨f, Array.mem_toList_iff.2 hf, rfl⟩)
  have hatop : f.before e = false :=
    h.first_least beforeRanks (popDue_cases hp).1 ((mem_of_popDue hp).2 (.inr hf))
  rw [← Bool.not_eq_true, Appointment.before_iff, not_or] at hatop
  rw [Appointment.before_iff]
  rcases OrderedScalar.lt_connex e.due f.due with hlt | heq | hgt
  · exact .inl hlt
  · exact .inr ⟨heq, lt_of_le_of_ne (Nat.le_of_not_lt fun hn => hatop.2 ⟨heq.symm, hn⟩) hne⟩
  · exact absurd hgt hatop.1

/-- an agenda that keeps its books, in order -/
theorem upholds_books : Upholds Pace.any fun a : Agenda α => a.Sound ∧ a.Ordered where
  cancel n h := ⟨h.1.cancel n, h.2.cancel n⟩
  clear h _ := ⟨h.1.clear, Heap.isHeap_empty⟩
  schedule n s delay h _ _ := ⟨h.1.schedule n s delay, h.2.schedule beforeRanks n s delay⟩
  tick dt h _ _ := ⟨h.1.tick dt, h.2⟩
  drop {b c e} h hp hc := ⟨h.1.pop_dropped hp hc, h.2.popDue beforeRanks hp⟩
  settle {b c e} h hp hc := by
    have hordered : c.Ordered := h.2.popDue beforeRanks hp
    exact ⟨h.1.pop_settled hp hc, hordered⟩

/-! ## What comes in the meantime -/

/-- there is an appointment of a number, cancelled or not -/
def Holds (a : Agenda α) (k : Nat) : Prop := k ∈ a.heap.toList.map (·.number)

omit [ExactTimes α] [Scalar α] in
theorem holds_iff {k : Nat} : a.Holds k ↔ ∃ e ∈ a.heap, e.number = k := by
  simp only [Holds, List.mem_map, Array.mem_toList_iff]

/-- an appointment that comes up has another number than those that came after it was made -/
theorem Succeeds.holds_popped (h : Succeeds a b) {e : Appointment α} (hp : b.popDue = some (e, c)) {k : Nat}
    (hk : a.nextNumber ≤ k) (hb : b.Holds k) : c.Holds k := by
  obtain ⟨f, hf, rfl⟩ := holds_iff.1 hb
  rcases (mem_of_popDue hp).1 hf with rfl | hf
  · exact absurd (h.popped hp).2.1 (Nat.not_lt.2 hk)
  · exact holds_iff.2 ⟨f, hf, rfl⟩

/-- what is planned in the meantime stays, if the agenda is not cleared -/
theorem upholds_newcomer (a : Agenda α) {k : Nat} (hk : a.nextNumber ≤ k) :
    Upholds (Pace.sparing k) fun b => Succeeds a b ∧ (k < b.nextNumber → b.Holds k) where
  cancel {b} n h := by
    refine ⟨h.1.cancel n, fun hlt => ?_⟩
    rw [Holds, numbers_cancel]
    exact h.2 (by rwa [nextNumber_cancel] at hlt)
  clear {b} h hp := by
    have hle : b.nextNumber ≤ k := by simpa [Pace.sparing] using hp
    exact ⟨(upholds_succeeds a).clear h.1 rfl, fun hlt => absurd hle (Nat.not_le.2 hlt)⟩
  schedule {b} n s delay h hneg hp := by
    refine ⟨(upholds_succeeds a).schedule n s delay h.1 hneg hp, fun hlt => holds_iff.2 ?_⟩
    rw [nextNumber_schedule] at hlt
    rcases Nat.lt_succ_iff_lt_or_eq.1 hlt with hold | rfl
    · have hheld := h.2 hold
      rw [Holds, ← numbers_cancel b n] at hheld
      obtain ⟨e, he, hek⟩ := List.mem_map.1 hheld
      exact ⟨e, mem_heap_schedule.2 (.inr (Array.mem_toList_iff.1 he)), hek⟩
    · exact ⟨_, mem_heap_schedule.2 (.inl rfl), rfl⟩
  tick dt h hneg hp := ⟨(upholds_succeeds a).tick dt h.1 hneg hp, h.2⟩
  drop {b c e} h hp hc := by
    refine ⟨(upholds_succeeds a).drop h.1 hp hc, fun hlt => h.1.holds_popped hp hk (h.2 ?_)⟩
    rwa [nextNumber_popDue hp] at hlt
  settle {b c e} h hp hc := by
    have hnext : c.nextNumber = b.nextNumber := nextNumber_popDue hp
    exact ⟨(upholds_succeeds a).settle h.1 hp hc, fun hlt => h.1.holds_popped hp hk (h.2 (hnext ▸ hlt))⟩

end Agenda

open World Agenda

section

variable [Scalar α] [SymbolKind κ] [ExactTimes α] {g : Grammar α κ σ} {w : World α κ σ} {l : List (Arrival α)}
  {r : EStateM.Result (Fault α) (World α κ σ) Unit}

/-- **Where it comes from.** What comes up has been there, if it can have been. -/
theorem Grammar.Abides.drains_from (h : g.Abides Pace.forward.permits w) {c : Agenda α} (hc : Succeeds c w.agenda)
    (hd : Drains (g.expandWithin g.nesting) w l r) :
    ∀ y ∈ l, y.entry.due ≤ c.now ∧ y.entry.number < c.nextNumber ∧ ∃ f ∈ c.heap, y.entry.Recalls f := by
  induction hd with
  | rests => exact fun y hy => absurd hy List.not_mem_nil
  | fails hp =>
    intro y hy
    obtain rfl := List.mem_singleton.1 hy
    exact hc.popped hp
  | pass hx _ ih =>
    intro y hy
    rcases List.mem_cons.1 hy with rfl | hy
    · obtain ⟨a, hp⟩ := hx.popDue
      exact hc.popped hp
    · exact ih (h.pass hx) (h.pass_upholds (upholds_succeeds c) hx hc) y hy

/-- **In which order it comes.** The earlier due first; of two due at one time, the one made first. -/
theorem Grammar.Abides.drains_increasing (h : g.Abides Pace.forward.permits w)
    (hw : w.agenda.Sound ∧ w.agenda.Ordered) (hd : Drains (g.expandWithin g.nesting) w l r) :
    (l.map (·.entry)).Pairwise fun e f => e.before f = true := by
  induction hd with
  | rests => exact .nil
  | fails => exact List.pairwise_singleton _ _
  | @pass w v x l r hx hd ih =>
    have hv := h.pass hx
    obtain ⟨a, hp, hkeeps⟩ := h.pass_keeps hx
    -- all that is left has come of what was left when the appointment had been taken
    have hleft : ∃ c : Agenda α, c.heap = a.heap ∧ Succeeds c v.agenda := by
      have hordered : a.Ordered := hw.2.popDue beforeRanks hp
      cases hc : x.entry.cancelled with
      | true =>
        exact ⟨a, rfl, hkeeps _ (upholds_succeeds a) (fun _ => .refl (hw.1.pop_dropped hp hc) hordered)
          fun hf => absurd (hc.symm.trans hf) Bool.noConfusion⟩
      | false =>
        exact ⟨a.settle x.entry.node, rfl, hkeeps _ (upholds_succeeds _)
          (fun ht => absurd (hc.symm.trans ht) Bool.noConfusion) fun _ => .refl (hw.1.pop_settled hp hc) hordered⟩
    obtain ⟨c, hheap, hc⟩ := hleft
    refine List.pairwise_cons.2 ⟨fun f hf => ?_, ih hv ⟨hc.sound, hc.ordered⟩⟩
    obtain ⟨y, hy, rfl⟩ := List.mem_map.1 hf
    obtain ⟨-, -, q, hq, hyq⟩ := hv.drains_from hc hd y hy
    have hfirst := hw.2.first hw.1 hp (hheap ▸ hq)
    rw [Appointment.before_iff] at hfirst ⊢
    rwa [hyq.due, hyq.number]

/-! ## The advance -/

omit [SymbolKind κ] [ExactTimes α] in
/-- what runs has not been cancelled -/
theorem World.Drains.uncancelled {expand : ShapeId → Act α κ σ Unit} (hd : Drains expand w l r) :
    ∀ x ∈ l, x.runs = true → x.entry.cancelled = false := by
  induction hd with
  | rests => exact fun x hx => absurd hx List.not_mem_nil
  | fails _ hc =>
    intro x hx _
    obtain rfl := List.mem_singleton.1 hx
    exact hc
  | pass hp _ ih =>
    intro x hx hruns
    rcases List.mem_cons.1 hx with rfl | hx
    · cases hp with
      | drop => cases hruns
      | skip => cases hruns
      | run _ hc => exact hc
    · exact ih x hx hruns

/-- how an advance goes whose rules put off what they plan, from a world `w` on: `l` is what comes up, `r` how it ends -/
structure Grammar.Forward (g : Grammar α κ σ) (w : World α κ σ) (dt : α) (l : List (Arrival α))
    (r : EStateM.Result (Fault α) (World α κ σ) Unit) : Prop where
  /-- it answers what is expanded, unless a rule fails -/
  answers : advance (g.expandWithin g.nesting) g.spare dt w = concluded [] l r
  fails : ∀ f v, r = .error f v → ∃ s u, runExpansion (g.expandWithin g.nesting) s u = .error f v
  /-- there are not more passes than appointments at the start -/
  bounded : l.length ≤ w.agenda.heap.size
  /-- what comes up was there at the start, and is due -/
  old : ∀ x ∈ l, x.entry.due ≤ w.agenda.now + dt ∧ ∃ f ∈ w.agenda.heap, x.entry.Recalls f
  /-- what is expanded was pending at the start -/
  pending : ∀ x ∈ l, x.runs = true → x.entry ∈ w.agenda.heap ∧ (x.entry.node, x.entry.number) ∈ w.agenda.pending
  increasing : (l.map (·.entry)).Pairwise fun e f => e.before f = true
  /-- no shape is expanded twice, unless shapes have been put on second nodes -/
  distinct : World.Reached World.names w → (shapesRun l).Nodup
  clock : (endOf r).agenda.now = w.agenda.now + dt
  /-- what is left is not due -/
  rested : ∀ v, r = .ok () v → ∀ e ∈ v.agenda.heap, v.agenda.now < e.due
  /-- what is planned in the meantime is there at the end and due later, pending if it has not been cancelled -/
  newcomers : ∀ k, w.agenda.nextNumber ≤ k → k < (endOf r).agenda.nextNumber →
    g.Abides (Pace.sparing k).permits (w.rebook (w.agenda.tick dt)) → ∃ e ∈ (endOf r).agenda.heap, e.number = k ∧
      (endOf r).agenda.now < e.due ∧ (e.cancelled = false → (e.node, k) ∈ (endOf r).agenda.pending)

omit [Scalar α] [SymbolKind κ] [ExactTimes α] in
/-- two pending appointments of one shape are one where shapes and their nodes go together -/
theorem World.Housed.number_eq (h : Housed w) {e f : Appointment α} (he : e ∈ w.agenda.heap) (hf : f ∈ w.agenda.heap)
    (hec : e.cancelled = false) (hfc : f.cancelled = false) (hs : e.shape = f.shape) : e.number = f.number := by
  have hnode : e.node = f.node := by
    have hhome := h.planned e he hec
    rw [hs, h.planned f hf hfc] at hhome
    exact (Option.some.inj hhome).symm
  have hp := (h.agenda_sound.live e he).1 hec
  rw [hnode] at hp
  exact h.agenda_sound.number_unique hp ((h.agenda_sound.live f hf).1 hfc)

omit [SymbolKind κ] in
/-- so the shapes that are expanded by pending appointments, one after another, are distinct -/
theorem World.Housed.shapesRun_nodup (h : Housed w) (hl : (l.map (·.entry)).Pairwise fun e f => e.before f = true)
    (hruns : ∀ x ∈ l, x.runs = true → x.entry ∈ w.agenda.heap ∧ x.entry.cancelled = false) : (shapesRun l).Nodup := by
  refine List.pairwise_map.2 (((List.pairwise_map.1 hl).filter _).imp_of_mem ?_)
  intro x y hx hy hbefore hshape
  obtain ⟨hx, hxr⟩ := List.mem_filter.1 hx
  obtain ⟨hy, hyr⟩ := List.mem_filter.1 hy
  obtain ⟨hxh, hxc⟩ := hruns x hx hxr
  obtain ⟨hyh, hyc⟩ := hruns y hy hyr
  have hsame := h.agenda_sound.eq_of_number hxh hyh (h.number_eq hxh hyh hxc hyc hshape)
  exact Appointment.not_before_self (hsame ▸ hbefore)

/-- **Rules that put off their expansions.** In whatever world an advance starts, reached with known names or not, in the
midst of rules or not: if its rules plan with positive delays only and do not move the clock, it ends, and does so
within the appointments that were there (`Forward`). -/
theorem advance_forward {ok : World α κ σ → Op α κ σ → Bool} (hw : Reached ok w) {dt : α} (hdt : ¬ dt < Scalar.zero)
    (h : g.Abides Pace.forward.permits (w.rebook (w.agenda.tick dt))) :
    ∃ l r, Drains (g.expandWithin g.nesting) (w.rebook (w.agenda.tick dt)) l r ∧ g.Forward w dt l r := by
  have hbooks : w.agenda.Sound ∧ w.agenda.Ordered :=
    hw.upholds upholds_books (fun a dt ha => ⟨ha.1.tick dt, ha.2⟩) fun a hheap hpending =>
      ⟨by constructor <;> simp [hheap, hpending], by rw [Agenda.Ordered, hheap]; exact Heap.isHeap_empty⟩
  have hticked : (w.agenda.tick dt).Sound ∧ (w.agenda.tick dt).Ordered := ⟨hbooks.1.tick dt, hbooks.2⟩
  have hself : Succeeds (w.agenda.tick dt) (w.agenda.tick dt) := .refl hticked.1 hticked.2
  obtain ⟨l, r, hd⟩ := h.drains budgets_forward (n := w.agenda.heap.size) (dueCount_le _)
  have hlength : l.length ≤ w.agenda.heap.size := h.length_le budgets_forward hd (dueCount_le _)
  have hfrom := h.drains_from hself hd
  have hend : Succeeds (w.agenda.tick dt) (endOf r).agenda := h.drains_upholds (upholds_succeeds _) hd hself
  have hruns (x : Arrival α) (hx : x ∈ l) (hr : x.runs = true) : x.entry ∈ w.agenda.heap := by
    obtain ⟨-, -, f, hf, hxf⟩ := hfrom x hx
    rwa [hxf.eq (hd.uncancelled x hx hr)]
  have hincreasing := h.drains_increasing hticked hd
  refine ⟨l, r, hd, ?_⟩
  exact {
    answers := hd.advance hdt (Nat.le_add_right_of_le hlength)
    fails := fun f v hr => (hr ▸ hd).failed
    bounded := hlength
    old := fun x hx => ⟨(hfrom x hx).1, (hfrom x hx).2.2⟩
    pending := fun x hx hr =>
      ⟨hruns x hx hr, (hbooks.1.live _ (hruns x hx hr)).1 (hd.uncancelled x hx hr)⟩
    increasing := hincreasing
    distinct := fun hnames => (hnames.housed fun _ _ => id).shapesRun_nodup hincreasing fun x hx hr =>
      ⟨hruns x hx hr, hd.uncancelled x hx hr⟩
    clock := hend.now
    rested := fun v hr e he => by
      subst hr
      have hlate := hend.ordered.not_due hd.rested he
      rwa [OrderedScalar.le_iff, not_not] at hlate
    newcomers := fun k hk hlt hspares => by
      have hkept := hspares.drains_upholds (upholds_newcomer (w.agenda.tick dt) hk) hd
        ⟨hself, fun hlt => absurd hk (Nat.not_le.2 hlt)⟩
      obtain ⟨e, he, rfl⟩ := holds_iff.1 (hkept.2 hlt)
      refine ⟨e, he, rfl, ?_, (hend.sound.live e he).1⟩
      rw [hend.now]
      exact hend.new e he hk }

end

/-- a building asks for its next expansion in a unit of time and drops what is planned for the third node -/
def postponing : Grammar ℚ (City.Kind ℚ) Unit :=
  { rule := fun kind self => match kind with
      | .building _ => .perform (.generate self 1) fun _ => .perform (.cancel 3) fun _ => .done ()
      | _ => .done ()
    nesting := 2, spare := 0 }

/-- two buildings and a roof in a live world, the roof due last -/
def yard : Prog ℚ (City.Kind ℚ) Unit Unit :=
  .perform (.setLive true) fun _ =>
    .perform (.createRoot (.of (.building 0)) "mill" none .rest none) fun mill =>
      .perform (.createRoot (.of (.building 0)) "barn" none .rest none) fun barn =>
        .perform (.createRoot (.of .roof) "shed" none .rest none) fun shed =>
          .perform (.schedule shed 2) fun _ => .perform (.schedule mill 1) fun _ =>
            .perform (.schedule barn 1) fun _ => .done ()

/-- **The yard.** The buildings are expanded and wait for their next turn; the roof has been cancelled. -/
theorem advance_forward_yard :
    let E := postponing.expandWithin postponing.nesting
    let w := (yard.run postponing).after (.fresh ⟨fun _ => 0, 0⟩ ())
    let v := (advance E postponing.spare 2).after w
    World.Reached World.names w ∧ ¬ (2 : ℚ) < Scalar.zero ∧
      postponing.Abides Pace.forward.permits (w.rebook (w.agenda.tick 2)) ∧
      v.agenda.pending = [(2, 4), (1, 3)] ∧ (advance E postponing.spare 2).answer? w = some [0, 1] ∧
      ∃ l r, Drains E (w.rebook (w.agenda.tick 2)) l r ∧ postponing.Forward w 2 l r := by
  intro E w v
  have hpos : Scalar.zero < (1 : ℚ) := by decide +kernel
  have hpasses (kind : City.Kind ℚ) (s : ShapeId) : (postponing.rule kind s).Passes Pace.forward.permits := by
    unfold postponing
    dsimp only
    split <;> simp [Pace.permits, Pace.forward, hpos]
  have hnames (kind : City.Kind ℚ) (s : ShapeId) : (postponing.rule kind s).Passes World.names := by
    unfold postponing
    dsimp only
    split <;> simp [World.names]
  have hyard : yard.Passes World.names := by simp [yard, World.names, World.knows]
  have hreached : World.Reached World.names w :=
    (Reached.start (pristine_fresh _ _)).run splits_names (hyard.heedsBy hnames _)
  have hstep : ¬ (2 : ℚ) < Scalar.zero := by decide +kernel
  have habides := Grammar.abides_of_passes hpasses (w.rebook (w.agenda.tick 2))
  exact ⟨hreached, hstep, habides, by decide +kernel, by decide +kernel, advance_forward hreached hstep habides⟩

/-- a building with floors asks for its next expansion, loses its floors, and lets two units of time pass -/
def impatient : Grammar ℚ (City.Kind ℚ) Unit :=
  { rule := fun kind self => match kind with
      | .building 0 => .done ()
      | .building _ =>
        .perform (.generate self 1) fun _ => .perform (.setKind self (.building 0)) fun _ =>
          .perform (.advance 2) fun _ => .done ()
      | _ => .done ()
    nesting := 3, spare := 0 }

/-- a building of a floor in a live world, due in a unit of time -/
def storey : Prog ℚ (City.Kind ℚ) Unit Unit :=
  .perform (.setLive true) fun _ => .perform (.createRoot (.of (.building 1)) "mill" none .rest none) fun mill =>
    .perform (.schedule mill 1) fun _ => .done ()

/-- a roof that is put on a second node, with an appointment at either -/
def twofold : Prog ℚ (City.Kind ℚ) Unit Unit :=
  .perform (.createRoot (.of .roof) "shed" none .rest none) fun shed =>
    .perform (.createNode "barn" none .rest) fun barn => .perform (.schedule shed 1) fun _ =>
      .perform (.bind shed barn none) fun _ => .perform (.schedule shed 1) fun _ => .done ()

/-- **Two ways astray.** A rule that plans with a positive delay only, and then lets time pass itself, has its new
appointment come up within the same advance: two expansions where one appointment was there, and what was planned is
pending no more. And a shape that has been put on a second node is expanded twice. -/
theorem advance_astray :
    let E := impatient.expandWithin impatient.nesting
    let w := (storey.run impatient).after (.fresh ⟨fun _ => 0, 0⟩ ())
    let v := (advance E impatient.spare 1).after w
    let x := (twofold.run impatient).after (.fresh ⟨fun _ => 0, 0⟩ ())
    (∀ kind s, (impatient.rule kind s).Passes
        (Pace.permits ⟨fun delay => Scalar.zero < delay, fun _ => true, fun _ => false⟩)) ∧
      (World.Reached World.names w ∧ w.live = true ∧ w.agenda.heap.size = 1 ∧ w.agenda.nextNumber = 1 ∧
        (advance E impatient.spare 1).answer? w = some [0] ∧ w.journal.toList.count (.began 0) = 0 ∧
        v.journal.toList.count (.began 0) = 2 ∧ v.agenda.nextNumber = 2 ∧ v.agenda.pending = []) ∧
      World.Reached (fun _ _ => true) x ∧ (advance E impatient.spare 1).answer? x = some [0, 0] := by
  intro E w v x
  have hpos : Scalar.zero < (1 : ℚ) := by decide +kernel
  have hpasses (kind : City.Kind ℚ) (s : ShapeId) : (impatient.rule kind s).Passes
      (Pace.permits ⟨fun delay => Scalar.zero < delay, fun _ => true, fun _ => false⟩) := by
    unfold impatient
    dsimp only
    split <;> simp [Pace.permits, hpos]
  have hnames (kind : City.Kind ℚ) (s : ShapeId) : (impatient.rule kind s).Passes World.names := by
    unfold impatient
    dsimp only
    split <;> simp [World.names]
  have hstorey : storey.Passes World.names := by simp [storey, World.names, World.knows]
  have hreached : World.Reached World.names w :=
    (Reached.start (pristine_fresh _ _)).run splits_names (hstorey.heedsBy hnames _)
  exact ⟨hpasses, ⟨hreached, by decide +kernel, by decide +kernel, by decide +kernel, by decide +kernel,
    by decide +kernel, by decide +kernel, by decide +kernel, by decide +kernel⟩,
    (pristine_fresh _ _).reached_run impatient twofold, by decide +kernel⟩

end SceneGrammar

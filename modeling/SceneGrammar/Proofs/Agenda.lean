/-
The agenda keeps its books.

`Agenda.Sound` links the heap and the table of pending appointments: numbers are distinct, and an appointment is pending
iff it is in the heap and not cancelled. Every operation keeps it (`Sound.cancel`, `Sound.schedule`, `Sound.pop_dropped`,
`Sound.pop_settled`), and says what becomes of the appointments that are not cancelled. If due times and numbers rank
appointments, the heap stays in order, too (`Ordered`).
-/
import Mathlib.Tactic
import SceneGrammar.Agenda
import SceneGrammar.Proofs.Heap

namespace SceneGrammar

variable {α : Type}

/-- an appointment, perhaps cancelled since -/
def Appointment.Recalls (e f : Appointment α) : Prop := e = f ∨ e = { f with cancelled := true }

namespace Appointment.Recalls

variable {e f g : Appointment α}

theorem trans (h : e.Recalls f) (i : f.Recalls g) : e.Recalls g := by
  rcases h with rfl | rfl
  · exact i
  · rcases i with rfl | rfl
    · exact .inr rfl
    · exact .inr rfl

theorem due (h : e.Recalls f) : e.due = f.due := by rcases h with rfl | rfl <;> rfl

theorem number (h : e.Recalls f) : e.number = f.number := by rcases h with rfl | rfl <;> rfl

theorem eq (h : e.Recalls f) (hc : e.cancelled = false) : e = f :=
  h.resolve_right fun he => by rw [he] at hc; cases hc

end Appointment.Recalls

namespace Agenda

/-- the heap and the table of pending appointments agree -/
structure Sound (a : Agenda α) : Prop where
  distinct : (a.heap.toList.map (·.number)).Nodup
  fresh : ∀ e ∈ a.heap, e.number < a.nextNumber
  live : ∀ e ∈ a.heap, e.cancelled = false ↔ (e.node, e.number) ∈ a.pending
  held : ∀ p ∈ a.pending, ∃ e ∈ a.heap, e.node = p.1 ∧ e.number = p.2
  keys : (a.pending.map Prod.fst).Nodup

/-- two appointments of one number are one -/
theorem Sound.eq_of_number {a : Agenda α} (h : a.Sound) {e f : Appointment α} (he : e ∈ a.heap) (hf : f ∈ a.heap)
    (hn : e.number = f.number) : e = f :=
  List.inj_on_of_nodup_map h.distinct (Array.mem_toList_iff.2 he) (Array.mem_toList_iff.2 hf) hn

/-- a node has at most one pending number -/
theorem Sound.number_unique {a : Agenda α} (h : a.Sound) {n i j : Nat} (hi : (n, i) ∈ a.pending)
    (hj : (n, j) ∈ a.pending) : i = j :=
  congrArg Prod.snd (List.inj_on_of_nodup_map h.keys hi hj rfl)

theorem mem_of_lookup {l : List (Nat × Nat)} {n k : Nat} (h : l.lookup n = some k) : (n, k) ∈ l := by
  obtain ⟨pre, post, rfl, -⟩ := List.lookup_eq_some_iff.1 h
  simp

theorem notMem_of_lookup {l : List (Nat × Nat)} {n : Nat} (h : l.lookup n = none) : ∀ p ∈ l, p.1 ≠ n := by
  intro p hp hn
  have := List.lookup_eq_none_iff.1 h p hp
  simp [hn] at this

/-! ## Cancelling -/

theorem pending_cancel (a : Agenda α) (n : Nat) : (a.cancel n).2.pending = a.pending.filter (·.1 != n) := by
  unfold cancel
  cases hl : a.pending.lookup n with
  | some k => rfl
  | none =>
    refine (List.filter_eq_self.2 fun p hp => ?_).symm
    simpa using notMem_of_lookup hl p hp

theorem now_cancel (a : Agenda α) (n : Nat) : (a.cancel n).2.now = a.now := by
  unfold cancel
  cases a.pending.lookup n <;> rfl

theorem nextNumber_cancel (a : Agenda α) (n : Nat) : (a.cancel n).2.nextNumber = a.nextNumber := by
  unfold cancel
  cases a.pending.lookup n <;> rfl

theorem size_cancel (a : Agenda α) (n : Nat) : (a.cancel n).2.heap.size = a.heap.size := by
  unfold cancel
  cases a.pending.lookup n with
  | none => rfl
  | some k => exact Array.size_map

/-- what is left by a cancellation has been there, in any agenda -/
theorem recalls_of_mem_cancel {a : Agenda α} {n : Nat} {e : Appointment α} (he : e ∈ (a.cancel n).2.heap) :
    ∃ f ∈ a.heap, e.Recalls f := by
  unfold cancel at he
  cases hl : a.pending.lookup n with
  | none =>
    rw [hl] at he
    exact ⟨e, he, .inl rfl⟩
  | some k =>
    rw [hl] at he
    obtain ⟨f, hf, rfl⟩ := Array.mem_map.1 he
    refine ⟨f, hf, ?_⟩
    unfold strike
    split_ifs
    · exact .inr rfl
    · exact .inl rfl

/-- an entry of the heap after a cancellation is one of before, perhaps marked -/
theorem mem_heap_cancel {a : Agenda α} (h : a.Sound) (n : Nat) (e : Appointment α) :
    e ∈ (a.cancel n).2.heap ↔
      ∃ f ∈ a.heap, e = if f.cancelled = false ∧ f.node = n then { f with cancelled := true } else f := by
  unfold cancel
  cases hl : a.pending.lookup n with
  | none =>
    simp only
    refine ⟨fun he => ⟨e, he, ?_⟩, ?_⟩
    · rw [if_neg fun hc => notMem_of_lookup hl _ ((h.live e he).1 hc.1) hc.2]
    · rintro ⟨f, hf, rfl⟩
      rwa [if_neg fun hc => notMem_of_lookup hl _ ((h.live f hf).1 hc.1) hc.2]
  | some k =>
    have hk := mem_of_lookup hl
    have hstrike (f : Appointment α) (hf : f ∈ a.heap) :
        strike k f = if f.cancelled = false ∧ f.node = n then { f with cancelled := true } else f := by
      obtain ⟨g, hg, hgn, hgk⟩ := h.held _ hk
      unfold strike
      by_cases hfk : f.number = k
      · obtain rfl := h.eq_of_number hf hg (hfk.trans hgk.symm)
        have hlive : f.cancelled = false := (h.live f hf).2 (by rw [hgn, hgk]; exact hk)
        rw [if_pos hfk, if_pos ⟨hlive, hgn⟩]
      · rw [if_neg hfk, if_neg]
        rintro ⟨hlive, hfn⟩
        exact hfk (h.number_unique (hfn ▸ (h.live f hf).1 hlive) hk)
    simp only [Array.mem_map]
    refine ⟨?_, ?_⟩
    · rintro ⟨f, hf, rfl⟩
      exact ⟨f, hf, hstrike f hf⟩
    · rintro ⟨f, hf, rfl⟩
      exact ⟨f, hf, hstrike f hf⟩

/-- what is still to run after a cancellation -/
theorem mem_heap_cancel_live {a : Agenda α} (h : a.Sound) (n : Nat) (e : Appointment α) :
    e ∈ (a.cancel n).2.heap ∧ e.cancelled = false ↔ e ∈ a.heap ∧ e.cancelled = false ∧ e.node ≠ n := by
  rw [mem_heap_cancel h]
  constructor
  · rintro ⟨⟨f, hf, he⟩, hc⟩
    split_ifs at he with hcond
    · rw [he] at hc
      exact absurd hc (by simp)
    · subst he
      exact ⟨hf, hc, fun hn => hcond ⟨hc, hn⟩⟩
  · rintro ⟨he, hc, hn⟩
    exact ⟨⟨e, he, by rw [if_neg fun hcond => hn hcond.2]⟩, hc⟩

theorem numbers_cancel (a : Agenda α) (n : Nat) :
    (a.cancel n).2.heap.toList.map (·.number) = a.heap.toList.map (·.number) := by
  unfold cancel
  cases a.pending.lookup n with
  | none => rfl
  | some k =>
    simp only [Array.toList_map, List.map_map]
    refine List.map_congr_left fun e _ => ?_
    simp only [Function.comp, strike]
    split_ifs <;> rfl

theorem Sound.cancel {a : Agenda α} (h : a.Sound) (n : Nat) : (a.cancel n).2.Sound where
  distinct := by rw [numbers_cancel]; exact h.distinct
  fresh := by
    intro e he
    obtain ⟨f, hf, rfl⟩ := (mem_heap_cancel h n e).1 he
    rw [nextNumber_cancel]
    split_ifs <;> exact h.fresh f hf
  live := by
    intro e he
    rw [pending_cancel, List.mem_filter]
    obtain ⟨f, hf, rfl⟩ := (mem_heap_cancel h n e).1 he
    split_ifs with hcond
    · simp [hcond.2]
    · rw [← h.live f hf]
      simp only [bne_iff_ne, ne_eq]
      exact ⟨fun hc => ⟨hc, fun hn => hcond ⟨hc, hn⟩⟩, fun hc => hc.1⟩
  held := by
    intro p hp
    rw [pending_cancel, List.mem_filter] at hp
    obtain ⟨e, he, hen, hek⟩ := h.held p hp.1
    have hlive : e.cancelled = false := (h.live e he).2 (by rw [hen, hek]; exact hp.1)
    have hne : e.node ≠ n := by rw [hen]; simpa using hp.2
    exact ⟨e, ((mem_heap_cancel_live h n e).2 ⟨he, hlive, hne⟩).1, hen, hek⟩
  keys := by
    rw [pending_cancel]
    exact (List.filter_sublist.map Prod.fst).nodup h.keys

/-! ## Planning -/

section

variable [Add α] [LT α] [DecidableLT α] [BEq α]

theorem mem_heap_schedule {a : Agenda α} {node shape : Nat} {delay : α} {e : Appointment α} :
    e ∈ (a.schedule node shape delay).heap ↔
      e = ⟨a.now + delay, a.nextNumber, node, shape, false⟩ ∨ e ∈ (a.cancel node).2.heap := by
  simp only [schedule, Heap.mem_push, now_cancel, nextNumber_cancel]

theorem pending_schedule (a : Agenda α) (node shape : Nat) (delay : α) :
    (a.schedule node shape delay).pending = (node, a.nextNumber) :: a.pending.filter (·.1 != node) := by
  simp only [schedule, pending_cancel, nextNumber_cancel]

theorem nextNumber_schedule (a : Agenda α) (node shape : Nat) (delay : α) :
    (a.schedule node shape delay).nextNumber = a.nextNumber + 1 := by
  simp only [schedule, nextNumber_cancel]

theorem Sound.schedule {a : Agenda α} (h : a.Sound) (node shape : Nat) (delay : α) :
    (a.schedule node shape delay).Sound := by
  have hc := h.cancel node
  have hnum (e : Appointment α) (he : e ∈ (a.cancel node).2.heap) : e.number < a.nextNumber := by
    have := hc.fresh e he
    rwa [nextNumber_cancel] at this
  refine ⟨?_, ?_, ?_, ?_, ?_⟩
  · have hp := (@Heap.push_perm _ Appointment.before (a.cancel node).2.heap
      ⟨(a.cancel node).2.now + delay, (a.cancel node).2.nextNumber, node, shape, false⟩).map (·.number)
    refine hp.nodup_iff.2 ?_
    simp only [List.map_cons, List.nodup_cons]
    refine ⟨fun hm => ?_, hc.distinct⟩
    obtain ⟨e, he, hen⟩ := List.mem_map.1 hm
    exact absurd hen (ne_of_lt (hc.fresh e (Array.mem_toList_iff.1 he)))
  · intro e he
    rw [nextNumber_schedule]
    rcases mem_heap_schedule.1 he with rfl | he
    · exact Nat.lt_succ_self _
    · exact Nat.lt_succ_of_lt (hnum e he)
  · intro e he
    rw [pending_schedule, ← pending_cancel, List.mem_cons]
    rcases mem_heap_schedule.1 he with rfl | he
    · simp
    · rw [hc.live e he]
      refine ⟨Or.inr, fun hor => hor.resolve_left fun heq => ?_⟩
      exact absurd (congrArg Prod.snd heq) (ne_of_lt (hnum e he))
  · intro p hp
    rw [pending_schedule, ← pending_cancel, List.mem_cons] at hp
    rcases hp with rfl | hp
    · exact ⟨_, mem_heap_schedule.2 (Or.inl rfl), rfl, rfl⟩
    · obtain ⟨e, he, hen⟩ := hc.held p hp
      exact ⟨e, mem_heap_schedule.2 (Or.inr he), hen⟩
  · rw [pending_schedule, List.map_cons, List.nodup_cons]
    refine ⟨fun hm => ?_, ?_⟩
    · obtain ⟨p, hp, hpn⟩ := List.mem_map.1 hm
      have := (List.mem_filter.1 hp).2
      rw [hpn] at this
      simp at this
    · rw [← pending_cancel]
      exact hc.keys

end

/-! ## The clock -/

theorem Sound.tick [Add α] {a : Agenda α} (h : a.Sound) (dt : α) : (a.tick dt).Sound := ⟨h.1, h.2, h.3, h.4, h.5⟩

theorem Sound.clear {a : Agenda α} (_ : a.Sound) : a.clear.Sound := by
  constructor <;> simp [Agenda.clear]

section

variable [LT α] [DecidableLT α] [LE α] [DecidableLE α] [BEq α]

/-- what `popDue` takes and leaves -/
theorem popDue_cases {a b : Agenda α} {e : Appointment α} (h : a.popDue = some (e, b)) :
    a.heap[0]? = some e ∧ e.due ≤ a.now ∧ ∃ rest, Heap.pop Appointment.before a.heap = some (e, rest) ∧
      b = { a with heap := rest } := by
  unfold popDue at h
  split at h
  · exact absurd h (by simp)
  · rename_i first hf
    split_ifs at h with hdue
    obtain ⟨⟨f, rest⟩, hp, heq⟩ := Option.map_eq_some_iff.1 h
    simp only [Prod.mk.injEq] at heq
    obtain ⟨rfl, rfl⟩ := heq
    have hfirst : first = f := Option.some.inj (hf.symm.trans (Heap.pop_cases hp).1)
    subst hfirst
    exact ⟨hf, hdue, rest, hp, rfl⟩

theorem now_popDue {a b : Agenda α} {e : Appointment α} (hp : a.popDue = some (e, b)) : b.now = a.now := by
  obtain ⟨-, -, rest, -, rfl⟩ := popDue_cases hp
  rfl

theorem nextNumber_popDue {a b : Agenda α} {e : Appointment α} (hp : a.popDue = some (e, b)) :
    b.nextNumber = a.nextNumber := by
  obtain ⟨-, -, rest, -, rfl⟩ := popDue_cases hp
  rfl

/-- if nothing is taken, the first appointment is not due -/
theorem first_not_due {a : Agenda α} (hp : a.popDue = none) {first : Appointment α} (hf : a.heap[0]? = some first) :
    ¬ first.due ≤ a.now := by
  intro hle
  obtain ⟨rest, hpop⟩ := @Heap.exists_pop _ Appointment.before _ _ hf
  rw [popDue, hf] at hp
  simp [hle, hpop] at hp

theorem popDue_distinct {a b : Agenda α} {e : Appointment α} (h : a.Sound) (hp : a.popDue = some (e, b)) :
    (e.number :: b.heap.toList.map (·.number)).Nodup := by
  obtain ⟨-, -, rest, hpop, rfl⟩ := popDue_cases hp
  have hperm := (Heap.pop_perm hpop).map (·.number)
  exact hperm.nodup_iff.2 h.distinct

theorem mem_of_popDue {a b : Agenda α} {e : Appointment α} (hp : a.popDue = some (e, b)) {f : Appointment α} :
    f ∈ a.heap ↔ f = e ∨ f ∈ b.heap := by
  obtain ⟨-, -, rest, hpop, rfl⟩ := popDue_cases hp
  exact Heap.mem_of_pop hpop

/-- a marked appointment is dropped when it comes up -/
theorem Sound.pop_dropped {a b : Agenda α} {e : Appointment α} (h : a.Sound) (hp : a.popDue = some (e, b))
    (hc : e.cancelled = true) : b.Sound := by
  have hmem {f : Appointment α} := mem_of_popDue hp (f := f)
  have hd := List.nodup_cons.1 (popDue_distinct h hp)
  obtain ⟨-, -, rest, hpop, rfl⟩ := popDue_cases hp
  refine ⟨hd.2, fun f hf => h.fresh f (hmem.2 (Or.inr hf)), fun f hf => h.live f (hmem.2 (Or.inr hf)), ?_, h.keys⟩
  intro p hp'
  obtain ⟨f, hf, hfp⟩ := h.held p hp'
  rcases hmem.1 hf with rfl | hf
  · have hlive := (h.live f hf).2 (by rw [hfp.1, hfp.2]; exact hp')
    rw [hc] at hlive
    exact absurd hlive (by simp)
  · exact ⟨f, hf, hfp⟩

/-- an appointment that comes up unmarked is pending no longer -/
theorem Sound.pop_settled {a b : Agenda α} {e : Appointment α} (h : a.Sound) (hp : a.popDue = some (e, b))
    (hc : e.cancelled = false) : (b.settle e.node).Sound := by
  have hmem {f : Appointment α} := mem_of_popDue hp (f := f)
  have hd := List.nodup_cons.1 (popDue_distinct h hp)
  have he : e ∈ a.heap := hmem.2 (Or.inl rfl)
  have hne (f : Appointment α) (hf : f ∈ b.heap) (hlive : f.cancelled = false) : f.node ≠ e.node := by
    intro hn
    have h1 := (h.live f (hmem.2 (Or.inr hf))).1 hlive
    have hnum := h.number_unique (hn ▸ h1) ((h.live e he).1 hc)
    exact hd.1 (hnum ▸ List.mem_map.2 ⟨f, Array.mem_toList_iff.2 hf, rfl⟩)
  obtain ⟨-, -, rest, hpop, rfl⟩ := popDue_cases hp
  refine ⟨hd.2, fun f hf => h.fresh f (hmem.2 (Or.inr hf)), ?_, ?_, (List.filter_sublist.map Prod.fst).nodup h.keys⟩
  · intro f hf
    rw [h.live f (hmem.2 (Or.inr hf))]
    simp only [settle, List.mem_filter, bne_iff_ne, ne_eq]
    refine ⟨fun hpend => ⟨hpend, ?_⟩, fun hpend => hpend.1⟩
    exact hne f hf ((h.live f (hmem.2 (Or.inr hf))).2 hpend)
  · intro p hp'
    simp only [settle, List.mem_filter, bne_iff_ne, ne_eq] at hp'
    obtain ⟨f, hf, hfn, hfk⟩ := h.held p hp'.1
    rcases hmem.1 hf with rfl | hf
    · exact absurd hfn.symm hp'.2
    · exact ⟨f, hf, hfn, hfk⟩

end

/-! ## The order of the heap -/

section

variable [LT α] [DecidableLT α] [BEq α]

/-- no appointment stands above an earlier one -/
def Ordered (a : Agenda α) : Prop := Heap.IsHeap Appointment.before a.heap

theorem Ordered.cancel {a : Agenda α} (h : a.Ordered) (n : Nat) : (a.cancel n).2.Ordered := by
  unfold Agenda.cancel
  cases a.pending.lookup n with
  | none => exact h
  | some k =>
    refine Heap.IsHeap.map h (strike k) fun x y => ?_
    unfold strike Appointment.before
    split_ifs <;> rfl

theorem Ordered.schedule [Add α] (r : Heap.Ranks (Appointment.before : Appointment α → Appointment α → Bool))
    {a : Agenda α} (h : a.Ordered) (node shape : Nat) (delay : α) : (a.schedule node shape delay).Ordered :=
  Heap.push_isHeap r (h.cancel node) _

theorem Ordered.popDue [LE α] [DecidableLE α]
    (r : Heap.Ranks (Appointment.before : Appointment α → Appointment α → Bool)) {a b : Agenda α} (h : a.Ordered)
    {e : Appointment α} (hp : a.popDue = some (e, b)) : b.Ordered := by
  obtain ⟨-, -, rest, hpop, rfl⟩ := popDue_cases hp
  exact Heap.pop_isHeap r h hpop

end

end Agenda

end SceneGrammar

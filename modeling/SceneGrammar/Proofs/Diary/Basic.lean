/-
A diary: what an agenda amounts to.

A diary is a clock and a finite map from nodes to bookings. `schedule` puts a booking with a fresh number in place of the
node's, `cancel` removes it, and `firstDue?` is the least booking, by due time and then by number, that is due.

`Agenda.Books`: an agenda keeps the books of a diary. What is done to an agenda with its heap and its cancelled entries
is then what is done to the diary (`Books.cancel`, `Books.schedule`, `Books.tick`, `Books.clear`), and what comes up in
the heap is either a cancelled entry, of which the diary knows nothing (`Books.pop_cancelled`), or the first booking due
(`Books.pop_booked`).
-/
import Mathlib.Data.List.AList
import SceneGrammar.Proofs.Order

namespace SceneGrammar

variable {α : Type}

/-- a planned expansion of a shape -/
structure Booking (α : Type) where
  due : α
  number : Nat
  shape : Nat

/-- earlier due first; of two due at one time, the one with the smaller number -/
def Booking.before [LT α] [DecidableLT α] (a b : Booking α) : Bool :=
  a.due < b.due ∨ ¬ b.due < a.due ∧ a.number < b.number

/-- a clock and the booking of every node that has one -/
structure Diary (α : Type) where
  now : α
  bookings : AList fun _ : Nat => Booking α
  nextNumber : Nat

namespace Diary

/-- nothing booked, at time zero -/
def empty [Scalar α] : Diary α := ⟨Scalar.zero, ∅, 0⟩

/-- the number of bookings -/
def pendingCount (d : Diary α) : Nat := d.bookings.keys.length

/-- whether a node has a booking -/
def isPending (d : Diary α) (node : Nat) : Bool := (d.bookings.lookup node).isSome

/-- the nodes that have bookings, with the numbers of these -/
def table (d : Diary α) : List (Nat × Nat) := d.bookings.entries.map fun e => (e.1, e.2.number)

/-- remove the booking of a node -/
def cancel (d : Diary α) (node : Nat) : Diary α := { d with bookings := d.bookings.erase node }

/-- book an expansion after a delay, in place of what is booked for the node -/
def schedule [Add α] (d : Diary α) (node shape : Nat) (delay : α) : Diary α :=
  { d with
    bookings := d.bookings.insert node ⟨d.now + delay, d.nextNumber, shape⟩
    nextNumber := d.nextNumber + 1 }

/-- move the clock -/
def tick [Add α] (d : Diary α) (dt : α) : Diary α := { d with now := d.now + dt }

/-- remove every booking; the clock stays -/
def clear (d : Diary α) : Diary α := { d with bookings := ∅ }

section

variable [LT α] [DecidableLT α] [LE α] [DecidableLE α]

/-- the bookings that are due -/
def due (d : Diary α) : List (Σ _ : Nat, Booking α) := d.bookings.entries.filter fun e => e.2.due ≤ d.now

/-- the least booking that is due, with its node -/
def firstDue? (d : Diary α) : Option (Σ _ : Nat, Booking α) :=
  d.due.find? fun e => d.due.all fun f => !f.2.before e.2

end

/-- to remove a key of a map is to keep the others -/
theorem kerase_eq_filter {l : List (Σ _ : Nat, Booking α)} (h : l.NodupKeys) (n : Nat) :
    l.kerase n = l.filter fun e => e.1 != n := by
  induction l with
  | nil => rfl
  | cons e l ih =>
    obtain ⟨hne, hl⟩ := List.nodupKeys_cons.1 h
    by_cases he : n = e.1
    · rw [List.kerase_cons_eq he, List.filter_cons_of_neg (by simp [he])]
      refine (List.filter_eq_self.2 fun f hf => ?_).symm
      have hnotin : f.1 ≠ n := fun hfn => hne (he ▸ hfn ▸ List.mem_map_of_mem hf)
      simpa using hnotin
    · rw [List.kerase_cons_ne he, List.filter_cons_of_pos (by simpa using Ne.symm he), ih hl]

theorem table_cancel (d : Diary α) (n : Nat) : (d.cancel n).table = d.table.filter (·.1 != n) := by
  show (d.bookings.entries.kerase n).map _ = _
  rw [kerase_eq_filter d.bookings.nodupKeys, table, List.filter_map]
  rfl

theorem table_schedule [Add α] (d : Diary α) (node shape : Nat) (delay : α) :
    (d.schedule node shape delay).table = (node, d.nextNumber) :: d.table.filter (·.1 != node) := by
  rw [← table_cancel]
  rfl

theorem length_table (d : Diary α) : d.table.length = d.pendingCount := by
  rw [table, pendingCount, List.length_map]
  exact (List.length_map _).symm

theorem mem_table_iff {d : Diary α} {n i : Nat} :
    (n, i) ∈ d.table ↔ ∃ b, d.bookings.lookup n = some b ∧ b.number = i := by
  simp only [table, List.mem_map, Prod.mk.injEq]
  constructor
  · rintro ⟨⟨m, b⟩, hb, rfl, rfl⟩
    exact ⟨b, AList.mem_lookup_iff.2 hb, rfl⟩
  · rintro ⟨b, hb, rfl⟩
    exact ⟨⟨n, b⟩, AList.mem_lookup_iff.1 hb, rfl, rfl⟩

end Diary

/-- what a diary holds of an appointment -/
def Appointment.booking (e : Appointment α) : Booking α := ⟨e.due, e.number, e.shape⟩

namespace Agenda

/-- the agenda keeps the books of the diary: what is in the heap and not cancelled is what is booked -/
structure Books [LT α] [DecidableLT α] [BEq α] (a : Agenda α) (d : Diary α) : Prop where
  sound : a.Sound
  ordered : a.Ordered
  now : a.now = d.now
  nextNumber : a.nextNumber = d.nextNumber
  pending : a.pending = d.table
  live : ∀ e ∈ a.heap, e.cancelled = false → d.bookings.lookup e.node = some e.booking

theorem books_empty [Scalar α] : (Agenda.empty : Agenda α).Books Diary.empty where
  sound := by constructor <;> simp [Agenda.empty]
  ordered := by
    intro i _ a b ha _
    simp [Agenda.empty] at ha
  now := rfl
  nextNumber := rfl
  pending := rfl
  live := by simp [Agenda.empty]

section

variable [LT α] [DecidableLT α] [BEq α] {a : Agenda α} {d : Diary α}

/-- a booking stands for an entry of the heap -/
theorem Books.booked (h : a.Books d) {n : Nat} {b : Booking α} (hb : d.bookings.lookup n = some b) :
    ∃ e ∈ a.heap, e.cancelled = false ∧ e.node = n ∧ e.booking = b := by
  have hpending : (n, b.number) ∈ a.pending := h.pending ▸ Diary.mem_table_iff.2 ⟨b, hb, rfl⟩
  obtain ⟨e, he, hn, hi⟩ := h.sound.held _ hpending
  have hlive : e.cancelled = false := (h.sound.live e he).2 (by rw [hn, hi]; exact hpending)
  refine ⟨e, he, hlive, hn, ?_⟩
  have hlookup := h.live e he hlive
  rw [hn, hb] at hlookup
  exact (Option.some.inj hlookup).symm

theorem Books.pendingCount (h : a.Books d) : a.pendingCount = d.pendingCount := by
  rw [Agenda.pendingCount, h.pending, Diary.length_table]

theorem Books.isPending (h : a.Books d) (n : Nat) : a.isPending n = d.isPending n := by
  rw [Bool.eq_iff_iff, Agenda.isPending, h.pending, List.any_eq_true, Diary.isPending, Option.isSome_iff_exists]
  constructor
  · rintro ⟨⟨m, i⟩, hm, hn⟩
    obtain rfl : m = n := by simpa using hn
    obtain ⟨b, hb, -⟩ := Diary.mem_table_iff.1 hm
    exact ⟨b, hb⟩
  · rintro ⟨b, hb⟩
    exact ⟨(n, b.number), Diary.mem_table_iff.2 ⟨b, hb, rfl⟩, by simp⟩

/-- a cancellation finds an appointment just if there is a booking -/
theorem Books.cancel_fst (h : a.Books d) (n : Nat) : (a.cancel n).1 = d.isPending n := by
  rw [← h.isPending, Agenda.isPending]
  unfold Agenda.cancel
  cases hl : a.pending.lookup n with
  | none =>
    refine (List.any_eq_false.2 fun p hp => ?_).symm
    simpa using notMem_of_lookup hl p hp
  | some i => exact (List.any_eq_true.2 ⟨(n, i), mem_of_lookup hl, by simp⟩).symm

theorem Books.cancel (h : a.Books d) (n : Nat) : (a.cancel n).2.Books (d.cancel n) where
  sound := h.sound.cancel n
  ordered := h.ordered.cancel n
  now := (now_cancel a n).trans h.now
  nextNumber := (nextNumber_cancel a n).trans h.nextNumber
  pending := by rw [pending_cancel, h.pending, Diary.table_cancel]
  live e he hc := by
    obtain ⟨hmem, hlive, hne⟩ := (mem_heap_cancel_live h.sound n e).1 ⟨he, hc⟩
    exact (AList.lookup_erase_ne hne).trans (h.live e hmem hlive)

theorem Books.tick [Add α] (h : a.Books d) (dt : α) : (a.tick dt).Books (d.tick dt) where
  sound := h.sound.tick dt
  ordered := h.ordered
  now := congrArg (· + dt) h.now
  nextNumber := h.nextNumber
  pending := h.pending
  live := h.live

theorem Books.clear (h : a.Books d) : a.clear.Books d.clear where
  sound := h.sound.clear
  ordered := by
    intro i _ x y hx _
    simp [Agenda.clear] at hx
  now := h.now
  nextNumber := h.nextNumber
  pending := rfl
  live := by simp [Agenda.clear]

end

section

variable [Scalar α] [OrderedScalar α] {a : Agenda α} {d : Diary α}

theorem Books.schedule (h : a.Books d) (node shape : Nat) (delay : α) :
    (a.schedule node shape delay).Books (d.schedule node shape delay) where
  sound := h.sound.schedule node shape delay
  ordered := h.ordered.schedule beforeRanks node shape delay
  now := (now_cancel a node).trans h.now
  nextNumber := by
    show (a.cancel node).2.nextNumber + 1 = d.nextNumber + 1
    rw [nextNumber_cancel, h.nextNumber]
  pending := by rw [pending_schedule, Diary.table_schedule, h.pending, h.nextNumber]
  live e he hc := by
    rcases mem_heap_schedule.1 he with rfl | he
    · show (d.bookings.insert node _).lookup node = _
      rw [AList.lookup_insert, ← h.now, ← h.nextNumber]
      rfl
    · obtain ⟨hmem, hlive, hne⟩ := (mem_heap_cancel_live h.sound node e).1 ⟨he, hc⟩
      exact (AList.lookup_insert_ne hne).trans (h.live e hmem hlive)

/-! ## What is due -/

/-- the order of bookings is that of the appointments they stand for -/
theorem before_booking (e f : Appointment α) : e.booking.before f.booking = e.before f := by
  rw [Bool.eq_iff_iff, Appointment.before_iff, Booking.before, decide_eq_true_iff]
  show e.due < f.due ∨ ¬ f.due < e.due ∧ e.number < f.number ↔ _
  constructor
  · rintro (hlt | ⟨hge, hn⟩)
    · exact Or.inl hlt
    · rcases OrderedScalar.lt_connex e.due f.due with hlt | heq | hgt
      · exact Or.inl hlt
      · exact Or.inr ⟨heq, hn⟩
      · exact absurd hgt hge
  · rintro (hlt | ⟨heq, hn⟩)
    · exact Or.inl hlt
    · exact Or.inr ⟨heq ▸ OrderedScalar.lt_irrefl _, hn⟩

omit [OrderedScalar α] in
theorem Books.mem_due_iff (h : a.Books d) {n : Nat} {b : Booking α} :
    (⟨n, b⟩ : Σ _ : Nat, Booking α) ∈ d.due ↔
      ∃ e ∈ a.heap, e.cancelled = false ∧ e.node = n ∧ e.booking = b ∧ e.due ≤ a.now := by
  rw [Diary.due, List.mem_filter, ← AList.mem_lookup_iff, decide_eq_true_iff, ← h.now]
  constructor
  · rintro ⟨hb, hdue⟩
    obtain ⟨e, he, hlive, hn, rfl⟩ := h.booked hb
    exact ⟨e, he, hlive, hn, rfl, hdue⟩
  · rintro ⟨e, he, hlive, rfl, rfl, hdue⟩
    exact ⟨h.live e he hlive, hdue⟩

/-- of two appointments neither of which is before the other, one is the other -/
theorem Sound.eq_of_not_before (h : a.Sound) {e f : Appointment α} (he : e ∈ a.heap) (hf : f ∈ a.heap)
    (hef : e.before f = false) (hfe : f.before e = false) : e = f := by
  rw [← Bool.not_eq_true, Appointment.before_iff, not_or] at hef hfe
  have hdue : e.due = f.due := OrderedScalar.eq_of_not_lt hef.1 hfe.1
  have hnumber : e.number = f.number :=
    le_antisymm (not_lt.1 fun hlt => hfe.2 ⟨hdue.symm, hlt⟩) (not_lt.1 fun hlt => hef.2 ⟨hdue, hlt⟩)
  exact h.eq_of_number he hf hnumber

/-- while nothing comes up in the heap, no booking is due -/
theorem Books.pop_none (h : a.Books d) (hp : a.popDue = none) : d.firstDue? = none := by
  have hdue : d.due = [] := by
    refine List.eq_nil_iff_forall_not_mem.2 fun ⟨n, b⟩ hb => ?_
    obtain ⟨e, he, -, -, -, hnow⟩ := h.mem_due_iff.1 hb
    exact h.ordered.not_due hp he hnow
  rw [Diary.firstDue?, hdue]
  rfl

omit [OrderedScalar α] in
theorem size_popDue {e : Appointment α} {b : Agenda α} (hp : a.popDue = some (e, b)) : b.heap.size < a.heap.size := by
  obtain ⟨-, -, rest, hpop, rfl⟩ := popDue_cases hp
  have hlength := (Heap.pop_perm hpop).length_eq
  rw [List.length_cons, Array.length_toList, Array.length_toList] at hlength
  exact Nat.lt_of_succ_le hlength.le

/-- a cancelled entry that comes up is dropped, and the books are as they were -/
theorem Books.pop_cancelled (h : a.Books d) {e : Appointment α} {b : Agenda α} (hp : a.popDue = some (e, b))
    (hc : e.cancelled = true) : b.Books d := by
  have hsound := h.sound.pop_dropped hp hc
  have hordered := h.ordered.popDue beforeRanks hp
  have hmem {f : Appointment α} := mem_of_popDue hp (f := f)
  obtain ⟨-, -, rest, -, rfl⟩ := popDue_cases hp
  exact ⟨hsound, hordered, h.now, h.nextNumber, h.pending, fun f hf hlive => h.live f (hmem.2 (Or.inr hf)) hlive⟩

/-- another entry that comes up is the first booking due, and the books are without it afterwards -/
theorem Books.pop_booked (h : a.Books d) {e : Appointment α} {b : Agenda α} (hp : a.popDue = some (e, b))
    (hc : e.cancelled = false) :
    d.firstDue? = some ⟨e.node, e.booking⟩ ∧ (b.settle e.node).Books (d.cancel e.node) := by
  have hmem {f : Appointment α} := mem_of_popDue hp (f := f)
  have he : e ∈ a.heap := hmem.2 (Or.inl rfl)
  obtain ⟨hfirst, hnow, -, -, -⟩ := popDue_cases hp
  have hleast {f : Appointment α} (hf : f ∈ a.heap) : f.before e = false :=
    Heap.IsHeap.first_least beforeRanks h.ordered hfirst hf
  have hdue : (⟨e.node, e.booking⟩ : Σ _ : Nat, Booking α) ∈ d.due := h.mem_due_iff.2 ⟨e, he, hc, rfl, rfl, hnow⟩
  refine ⟨?_, ?_⟩
  · have hall : (d.due.all fun f => !f.2.before e.booking) = true := by
      refine List.all_eq_true.2 fun ⟨n, c⟩ hn => ?_
      obtain ⟨f, hf, -, -, rfl, -⟩ := h.mem_due_iff.1 hn
      rw [before_booking, hleast hf]
      rfl
    rw [Diary.firstDue?]
    cases hfind : d.due.find? fun e => d.due.all fun f => !f.2.before e.2 with
    | none => exact absurd hall (by simpa using List.find?_eq_none.1 hfind _ hdue)
    | some x =>
      -- what is found is no later than `e`, and of two least bookings one is the other
      obtain ⟨n, c⟩ := x
      obtain ⟨f, hf, -, rfl, rfl, -⟩ := h.mem_due_iff.1 (List.mem_of_find?_eq_some hfind)
      have hleastf := List.find?_some hfind
      have hef : e.booking.before f.booking = false := by simpa using List.all_eq_true.1 hleastf _ hdue
      rw [before_booking] at hef
      rw [h.sound.eq_of_not_before he hf hef (hleast hf)]
  · have hsound := h.sound.pop_settled hp hc
    have hordered := h.ordered.popDue beforeRanks hp
    have hnew := (List.nodup_cons.1 (popDue_distinct h.sound hp)).1
    obtain ⟨-, -, rest, -, rfl⟩ := popDue_cases hp
    refine ⟨hsound, hordered, h.now, h.nextNumber, ?_, fun f hf hlive => ?_⟩
    · rw [Diary.table_cancel, ← h.pending]
      rfl
    · have hfa : f ∈ a.heap := hmem.2 (Or.inr hf)
      have hne : f.node ≠ e.node := by
        intro hn
        have hpending := (h.sound.live f hfa).1 hlive
        have hnumber := h.sound.number_unique (hn ▸ hpending) ((h.sound.live e he).1 hc)
        exact hnew (List.mem_map.2 ⟨f, Array.mem_toList_iff.2 hf, hnumber⟩)
      exact (AList.lookup_erase_ne hne).trans (h.live f hfa hlive)

end

end Agenda

end SceneGrammar

/-
Scalars in order.

`OrderedScalar`: equality and order are what they say. Nothing is asked of arithmetic.

`beforeRanks`: the order of appointments, by due time and then by number, is one that a heap can keep, so the first of
an agenda in order is the earliest (`Agenda.Ordered.not_due`).
-/
import SceneGrammar.Proofs.Agenda

namespace SceneGrammar

/-- scalars with a true order -/
class OrderedScalar (α : Type) [Scalar α] : Prop where
  beq_iff : ∀ a b : α, (a == b) = true ↔ a = b
  lt_irrefl : ∀ a : α, ¬ a < a
  lt_trans : ∀ a b c : α, a < b → b < c → a < c
  lt_connex : ∀ a b : α, a < b ∨ a = b ∨ b < a
  le_iff : ∀ a b : α, a ≤ b ↔ ¬ b < a

namespace OrderedScalar

variable {α : Type} [Scalar α] [OrderedScalar α]

theorem lt_asymm {a b : α} (h : a < b) : ¬ b < a := fun hb => lt_irrefl a (lt_trans a b a h hb)

/-- of two scalars neither of which is below the other, one is the other -/
theorem eq_of_not_lt {a b : α} (h : ¬ a < b) (k : ¬ b < a) : a = b :=
  (lt_connex a b).resolve_left h |>.resolve_right k

end OrderedScalar

/-! ## Appointments -/

section

variable {α : Type} [Scalar α] [OrderedScalar α]

/-- earlier due first, then the smaller number -/
theorem Appointment.before_iff {a b : Appointment α} :
    a.before b = true ↔ a.due < b.due ∨ a.due = b.due ∧ a.number < b.number := by
  unfold Appointment.before
  by_cases h : a.due = b.due
  · rw [if_pos ((OrderedScalar.beq_iff _ _).2 h), decide_eq_true_iff, h]
    exact ⟨fun hn => Or.inr ⟨rfl, hn⟩, fun ho => (ho.resolve_left (OrderedScalar.lt_irrefl _)).2⟩
  · rw [if_neg fun hc => h ((OrderedScalar.beq_iff _ _).1 hc), decide_eq_true_iff]
    exact ⟨Or.inl, fun ho => ho.resolve_right fun hc => h hc.1⟩

/-- appointments can be kept in a heap -/
theorem beforeRanks : Heap.Ranks (Appointment.before : Appointment α → Appointment α → Bool) where
  total a b := by
    unfold Heap.Atop
    simp only [← Bool.not_eq_true, Appointment.before_iff]
    by_contra hc
    obtain ⟨hba, hab⟩ := not_or.1 hc
    rcases not_not.1 hba with hlt | ⟨heq, hlt⟩
    · rcases not_not.1 hab with hgt | ⟨heq, -⟩
      · exact OrderedScalar.lt_asymm hlt hgt
      · exact OrderedScalar.lt_irrefl _ (heq ▸ hlt)
    · rcases not_not.1 hab with hgt | ⟨-, hgt⟩
      · exact OrderedScalar.lt_irrefl _ (heq ▸ hgt)
      · exact absurd hgt hlt.le.not_gt
  trans a b c hab hbc := by
    unfold Heap.Atop at hab hbc ⊢
    simp only [← Bool.not_eq_true, Appointment.before_iff, not_or, not_and, not_lt] at hab hbc ⊢
    refine ⟨fun hca => ?_, fun hca => ?_⟩
    · rcases OrderedScalar.lt_connex b.due a.due with h | h | h
      · exact hab.1 h
      · exact hbc.1 (h ▸ hca)
      · exact hbc.1 (OrderedScalar.lt_trans _ _ _ hca h)
    · have hcb : c.due = b.due := by
        refine OrderedScalar.eq_of_not_lt hbc.1 fun h => hab.1 (hca ▸ h)
      exact (hab.2 (hcb.symm.trans hca)).trans (hbc.2 hcb)

/-- while nothing is taken from an agenda in order, nothing in it is due -/
theorem Agenda.Ordered.not_due {a : Agenda α} (h : a.Ordered) (hp : a.popDue = none) {e : Appointment α}
    (he : e ∈ a.heap) : ¬ e.due ≤ a.now := by
  obtain ⟨i, hi, -⟩ := Array.mem_iff_getElem.1 he
  have hf : a.heap[0]? = some a.heap[0] := Array.getElem?_eq_getElem (Nat.zero_lt_of_lt hi)
  have hfirst : ¬ a.heap[0].due ≤ a.now := first_not_due hp hf
  have hleast := Heap.IsHeap.first_least beforeRanks h hf he
  unfold Heap.Atop at hleast
  rw [← Bool.not_eq_true, Appointment.before_iff, not_or] at hleast
  rw [OrderedScalar.le_iff, not_not] at hfirst ⊢
  rcases OrderedScalar.lt_connex a.heap[0].due e.due with hlt | heq | hgt
  · exact OrderedScalar.lt_trans _ _ _ hfirst hlt
  · exact heq ▸ hfirst
  · exact absurd hgt hleast.1

end

end SceneGrammar

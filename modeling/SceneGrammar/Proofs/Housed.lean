/-
Worlds in which shapes and their nodes go together.

`Housed`: a shape and its node point at each other, what is on lists has been there, and what may still come up in the
agenda belongs to the shape on its node. It asks for less than `Orderly`: nodes may be hung elsewhere, shapes may be made
without nodes, and any node may come on any list. A move brings something or is a teardown (`Move.turns`), and of the
agenda it adds nothing to what was there, unless it plans (`Move.onlyDrops`).

- `Reached.housed`: whatever is reached when the names that are used are known is housed.
-/
import SceneGrammar.Proofs.Teardown.Pruning
import SceneGrammar.Proofs.Turns

namespace SceneGrammar

variable {α κ σ β : Type}

/-! ## The agenda -/

namespace Agenda

variable {a b c : Agenda α}

/-- an agenda that keeps its own books and has nothing that another one has not -/
structure OnlyDrops (a b : Agenda α) : Prop where
  sound : b.Sound
  heap : ∀ e ∈ b.heap, e.cancelled = false → e ∈ a.heap
  pending : ∀ p ∈ b.pending, p ∈ a.pending

theorem OnlyDrops.refl (h : a.Sound) : OnlyDrops a a := ⟨h, fun _ he _ => he, fun _ => id⟩

theorem OnlyDrops.trans (h : OnlyDrops a b) (i : OnlyDrops b c) : OnlyDrops a c where
  sound := i.sound
  heap e he hc := h.heap e (i.heap e he hc) hc
  pending p hp := h.pending p (i.pending p hp)

theorem onlyDrops_cancel (h : a.Sound) (n : Nat) : OnlyDrops a (a.cancel n).2 where
  sound := h.cancel n
  heap e he hc := ((mem_heap_cancel_live h n e).1 ⟨he, hc⟩).1
  pending p hp := by
    rw [pending_cancel] at hp
    exact (List.mem_filter.1 hp).1

theorem onlyDrops_clear (h : a.Sound) : OnlyDrops a a.clear := ⟨h.clear, by simp [clear], by simp [clear]⟩

end Agenda

open Agenda World

theorem Act.Blind.onlyDrops {a : Act α κ σ β} {w : World α κ σ} (ha : a.Blind) (h : w.agenda.Sound) :
    OnlyDrops w.agenda (a.after w).agenda := by
  obtain ⟨es, hafter⟩ := ha.after_rebook w
  have hagenda : (a.after w).agenda = w.cancelAll (endedIn es) w.agenda := congrArg World.agenda (hafter w.agenda)
  obtain ⟨hsound, hold⟩ := cancelAll_sound (w := w) (endedIn es) h
  rw [hagenda]
  refine ⟨hsound, fun e he hc => (hold e he hc).1, fun p hp => ?_⟩
  rw [pending_cancelAll] at hp
  exact (List.mem_filter.1 hp).1

namespace World

variable {w v u : World α κ σ} {es : List Entry} {tops : List ShapeId}

variable [Scalar α] [SymbolKind κ]

/-- an operation that runs no rules adds nothing to the agenda, unless it plans -/
theorem performs_onlyDrops {o : Op α κ σ} (ho : o.isPlain = true) (hs : ∀ s delay, o ≠ .schedule s delay)
    (h : w.agenda.Sound) : OnlyDrops w.agenda ((does o).after w).agenda := by
  have hidle (hi : o.Idle) : OnlyDrops w.agenda ((does o).after w).agenda := (perform_blind 0 _ hi).onlyDrops h
  cases o with
  | createSymbol | expand | generate | advance => cases ho
  | schedule s delay => exact absurd rfl (hs s delay)
  | cancel n => exact onlyDrops_cancel h n
  | clearAgenda => exact onlyDrops_clear h
  | clear => exact (onlyDrops_clear h).trans (blind_sweep.onlyDrops (w := w.rebook w.agenda.clear) h.clear)
  | _ => exact hidle trivial

/-! ## Worlds in which shapes and nodes go together -/

omit [Scalar α] [SymbolKind κ] in
/-- shapes and their nodes point at each other, listed nodes have been there, and what may still come up belongs to the
shape on its node -/
structure Housed (w : World α κ σ) : Prop where
  home_iff : ∀ s n, w.homeOf s = some n ↔ w.shapeOn? n = some s
  listed : ∀ s, ∀ g ∈ w.generatedBy s, g ≤ w.nodes.size
  agenda_sound : w.agenda.Sound
  planned : ∀ e ∈ w.agenda.heap, e.cancelled = false → w.homeOf e.shape = some e.node

section

omit [Scalar α] [SymbolKind κ]

theorem Pristine.housed (h : w.Pristine) : Housed w where
  home_iff _ _ := h.sound.home_iff
  listed s g hg := by
    have hnone : w.shape? s = none := shape?_eq_none_iff.2 (by rw [h.shapes]; exact Nat.zero_le _)
    simp [generatedBy, hnone] at hg
  agenda_sound := h.sound.agenda_sound
  planned e he hc := h.sound.orderly.home_iff.2 (h.sound.orderly.planned e he hc)

theorem Housed.brings (h : Housed w) (b : Brings w v es) (t : OnlyDrops w.agenda v.agenda) : Housed v where
  home_iff := b.home_iff h.home_iff
  listed s g hg := by
    rw [b.list, List.mem_append] at hg
    exact hg.elim (fun hg => (h.listed s g hg).trans b.size) fun hg => b.listed s g ((mem_trackedIn s es).1 hg)
  agenda_sound := t.sound
  planned e he hc := b.homes _ _ (h.planned e (t.heap e he hc) hc)

theorem Housed.ends (h : Housed w) (e : Ends w v tops) (t : OnlyDrops w.agenda v.agenda) : Housed v where
  home_iff s n := by rw [e.homeOf, e.carries, h.home_iff]
  listed s g hg := by
    rw [e.sizes.1]
    rcases e.generatedBy s with hs | ⟨hs, -⟩
    · exact h.listed s g (hs ▸ hg)
    · simp [hs] at hg
  agenda_sound := t.sound
  planned a ha hc := (e.homeOf _).trans (h.planned a (t.heap a ha hc) hc)

end

theorem Housed.schedule (h : Housed w) (s : ShapeId) (delay : α) : Housed ((World.schedule s delay).after w) := by
  rcases schedule_cases w s delay with hs | ⟨n, hn, hs⟩ <;> rw [hs]
  · exact h
  · show Housed (w.rebook (w.agenda.schedule n s delay))
    refine ⟨fun t m => ?_, h.listed, h.agenda_sound.schedule n s delay, fun e he hc => ?_⟩
    · rw [homeOf_rebook, shapeOn?_rebook, h.home_iff]
    · rcases mem_heap_schedule.1 he with rfl | he
      · exact hn
      · exact h.planned e ((onlyDrops_cancel h.agenda_sound n).heap e he hc) hc

/-! ## One move -/

/-- a test that asks for known names, at least -/
def AsksNames (ok : World α κ σ → Op α κ σ → Bool) : Prop := ∀ w o, ok w o = true → w.names o = true

variable {ok : World α κ σ → Op α κ σ → Bool}

/-- of the agenda, a move adds nothing to what is there, unless it plans -/
theorem Move.onlyDrops (m : Move ok w v) (h : w.agenda.Sound) : OnlyDrops w.agenda v.agenda ∨
    ∃ s delay, ok w (.schedule s delay) = true ∧ v = (World.schedule s delay).after w := by
  cases m with
  | plain o ho hp =>
    by_cases hs : ∃ s delay, o = .schedule s delay
    · obtain ⟨s, delay, rfl⟩ := hs
      exact .inr ⟨s, delay, hp, rfl⟩
    · exact .inl (performs_onlyDrops ho (fun s delay hc => hs ⟨s, delay, hc⟩) h)
  | place creator offer name parent pose hp => exact .inl ((blind_placeSymbol creator offer name parent pose).onlyDrops h)
  | begins | finishes => exact .inl (.refl h)
  | tick dt => exact .inl ⟨h.tick dt, fun _ he _ => he, fun _ => id⟩
  | drop hp hc =>
    refine .inl ⟨h.pop_dropped hp hc, fun f hf _ => (mem_of_popDue hp).2 (Or.inr hf), fun p hpp => ?_⟩
    obtain ⟨-, -, rest, -, rfl⟩ := popDue_cases hp
    exact hpp
  | settle hp hc =>
    refine .inl ⟨h.pop_settled hp hc, fun f hf _ => (mem_of_popDue hp).2 (Or.inr hf), fun p hpp => ?_⟩
    obtain ⟨-, -, rest, -, rfl⟩ := popDue_cases hp
    exact (List.mem_filter.1 hpp).1

/-- a move brings something, or it is a teardown -/
theorem Move.turns (m : Move ok w v) (hok : AsksNames ok) (h : Housed w) : (∃ es, Brings w v es) ∨
    ∃ o t, o.emptied? = some t ∧ ok w o = true ∧ v = (does o).after w := by
  have hw (s : ShapeId) (n : NodeId) : w.homeOf s = some n → w.shapeOn? n = some s := (h.home_iff s n).1
  cases m with
  | plain o ho hp =>
    cases hf : o.emptied? with
    | none => exact .inl (performs_brings hw ho (hok w o hp) hf)
    | some t => exact .inr ⟨o, t, hf, hp, rfl⟩
  | place creator offer name parent pose hp => exact .inl (brings_placeSymbol hw (hok w _ hp) creator offer name pose)
  | begins s => exact .inl ⟨_, brings_markExpanded w s⟩
  | finishes s => exact .inl ⟨[.finished s], brings_of_eq (by simp [note]) (by simp [Entry.framesRule]) rfl rfl⟩
  | _ => exact .inl ⟨[], brings_of_eq (List.append_nil _).symm (by simp) rfl rfl⟩

theorem Move.housed (m : Move ok w v) (hok : AsksNames ok) (h : Housed w) : Housed v := by
  rcases m.onlyDrops h.agenda_sound with t | ⟨s, delay, -, rfl⟩
  · rcases m.turns hok h with ⟨es, b⟩ | ⟨o, r, hf, -, rfl⟩
    · exact h.brings b t
    · exact h.ends (performs_ends hf) t
  · exact h.schedule s delay

theorem Moves.housed (m : Moves ok w v) (hok : AsksNames ok) (h : Housed w) : Housed v := by
  induction m with
  | refl => exact h
  | tail _ hmove ih => exact hmove.housed hok ih

/-- **Houses.** What is reached with known names is housed, in the midst of rules and after failures, too. -/
theorem Reached.housed (h : Reached ok w) (hok : AsksNames ok) : Housed w :=
  h.invariant (fun _ hw => hw.housed) fun _ _ hw m => m.housed hok hw

omit [Scalar α] [SymbolKind κ] in
theorem splits_names : Splits (World.names : World α κ σ → Op α κ σ → Bool) :=
  ⟨fun _ _ _ _ => rfl, fun _ _ _ _ _ _ => rfl, fun _ _ _ _ _ => rfl⟩

end World

end SceneGrammar

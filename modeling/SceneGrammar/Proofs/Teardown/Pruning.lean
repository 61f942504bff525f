/-
What a deletion takes away, and what it leaves as it was.

`Pruned w v s dead`: `v` is `w` after what `s` has generated was deleted. Dead is what was reached from the list of `s`
through children and generated content, no more and no less; what survives keeps all but the dead among its children, in
their order; the shapes that survive keep their lists and states, that of `s` aside; registrations and appointments go
with the dead alone; and nothing is drawn from any source.

- `Reached.deletion_prunes`: so it is for every living shape in a world reached in order, whoever listens and objects.
  The deletion does not fail, and another one right after it does nothing.
-/
import SceneGrammar.Proofs.Orderly
import SceneGrammar.Proofs.Teardown.Objections
import SceneGrammar.Proofs.Teardown.Loss

namespace SceneGrammar

namespace World

variable {α κ σ : Type} {w v : World α κ σ} {s : ShapeId} {dead : List NodeId}

/-- the world `v` is `w` without what `s` has generated, which came to the nodes `dead` -/
structure Pruned (w v : World α κ σ) (s : ShapeId) (dead : List NodeId) : Prop where
  reached : ∀ m, m ∈ dead ↔ ∃ g ∈ w.generatedBy s, Reach w g m
  killed : ∀ m, m ∈ dead ↔ w.isAlive m = true ∧ ¬ v.isAlive m = true
  counted : dead.Nodup ∧ v.destroyed = w.destroyed + dead.length
  /-- who survives keeps its record, but for the dead among its children -/
  kept : ∀ m ∉ dead, v.node? m = (w.node? m).map fun x => { x with children := x.children.filter (· ∉ dead) }
  alive : v.shapeAlive s = true
  emptied : v.generatedBy s = []
  shapes : ∀ t ≠ s, (∀ m ∈ dead, w.homeOf t ≠ some m) → v.shape? t = w.shape? t
  registry : v.registry = w.registry.filter (· ∉ dead)
  bound : v.bound = w.bound.filter (·.1 ∉ dead)
  pending : v.agenda.pending = w.agenda.pending.filter (·.1 ∉ dead)
  planned : ∀ e, e ∈ v.agenda.heap ∧ e.cancelled = false ↔
    e ∈ w.agenda.heap ∧ e.cancelled = false ∧ e.node ∉ dead
  surroundings : v.surroundings = w.surroundings

/-! ## Appointments of the dead -/

theorem cancelAll_cons (w : World α κ σ) (n : NodeId) (a : Agenda α) :
    w.cancelAll (n :: dead) a = w.cancelAll dead (if (w.shapeOn? n).isSome then (a.cancel n).2 else a) := rfl

theorem pending_cancelAll (w : World α κ σ) (dead : List NodeId) (a : Agenda α) :
    (w.cancelAll dead a).pending = a.pending.filter fun p => ¬ (p.1 ∈ dead ∧ (w.shapeOn? p.1).isSome) := by
  induction dead generalizing a with
  | nil => simp [cancelAll]
  | cons n dead ih =>
    rw [cancelAll_cons, ih]
    by_cases hs : (w.shapeOn? n).isSome = true
    · rw [if_pos hs, Agenda.pending_cancel, List.filter_filter]
      refine List.filter_congr fun p _ => ?_
      by_cases hp : p.1 = n <;> simp [hp, hs]
    · rw [if_neg hs]
      refine List.filter_congr fun p _ => ?_
      by_cases hp : p.1 = n <;> simp [hp, hs]

theorem mem_heap_cancelAll_live (w : World α κ σ) (dead : List NodeId) {a : Agenda α} (h : a.Sound)
    (e : Appointment α) : e ∈ (w.cancelAll dead a).heap ∧ e.cancelled = false ↔
      e ∈ a.heap ∧ e.cancelled = false ∧ ¬ (e.node ∈ dead ∧ (w.shapeOn? e.node).isSome = true) := by
  induction dead generalizing a with
  | nil => simp [cancelAll]
  | cons n dead ih =>
    rw [cancelAll_cons]
    by_cases hs : (w.shapeOn? n).isSome = true
    · rw [if_pos hs, ih (h.cancel n), ← and_assoc, Agenda.mem_heap_cancel_live h]
      by_cases he : e.node = n <;> simp [he, hs, and_assoc]
    · rw [if_neg hs, ih h]
      by_cases he : e.node = n <;> simp [he, hs]

/-! ## One deletion -/

/-- a list that is empty already is as it was after it is cleaned -/
theorem cleanWithin_idle {x : Shape α κ} (hx : w.shape? s = some x) (hg : x.generated = some []) (hc : x.state = .cleared)
    (depth : Nat) : w.cleanWithin depth s = w := by
  cases depth with
  | zero => rw [cleanWithin]
  | succ depth =>
    have hsame (f : Shape α κ → Shape α κ) (hf : f x = x) : w.modifyShape s f = w := by
      obtain ⟨hlt, hget⟩ := Array.getElem?_eq_some_iff.1 hx
      have harray : w.shapes.modify s f = w.shapes := by
        refine Array.ext (by simp) fun i h1 h2 => ?_
        rw [Array.getElem_modify]
        split_ifs with hi
        · subst hi
          rw [hget, hf]
        · rfl
      rw [modifyShape, harray]
    have hlist : (w.shape? s).bind (·.generated) = some [] := by rw [hx, Option.bind_some, hg]
    rw [cleanWithin_some hlist, List.foldl_nil, takeGenerated, hsame _ (by rw [← hg]), markCleared,
      hsame _ (by rw [← hc])]

variable [SymbolKind κ]

/-- after a deletion there is nothing to delete -/
theorem deleteGenerated_idle {n : NodeId} (hn : w.homeOf s = some n)
    (hg : ∀ x, w.shape? s = some x → x.generated = none ∨ x = spentShape x) : deleteGenerated s w = .ok () w := by
  obtain ⟨x, hx, -⟩ := Option.bind_eq_some_iff.1 hn
  rcases hg x hx with hg | hg
  · rw [deleteGenerated, hx, Option.bind_some, hg]
  · rw [deleteGenerated_eq hn, cleanWithin_idle hx (by rw [hg]; rfl) (by rw [hg]; rfl)]

/-- **One deletion.** In an orderly world a deletion for a living shape does not fail, prunes, and leaves nothing to
delete. -/
theorem Orderly.prunes (h : Orderly w) (hs : w.shapeAlive s = true) :
    ∃ v dead, deleteGenerated s w = .ok () v ∧ Pruned w v s dead ∧ deleteGenerated s v = .ok () v := by
  obtain ⟨n, hn, hl⟩ := shapeAlive_iff.1 hs
  obtain ⟨dead, cleaned, hf, hnil⟩ := clean_killsFrom h.tame s
  have t := hf.torn
  refine ⟨_, dead, deleteGenerated_eq hn, ?_, deleteGenerated_idle ((t.homeOf s).trans hn) (clean_spends w s).2.2⟩
  -- what is registered or has an appointment stands on its node
  have hbound (p : NodeId × ShapeId) (hp : p ∈ w.bound) : (w.shapeOn? p.1).isSome = true := by
    rw [((h.mem_bound p.1 p.2).1 hp).2]
    rfl
  have hheap (e : Appointment α) (he : e ∈ w.agenda.heap) (hc : e.cancelled = false) :
      (w.shapeOn? e.node).isSome = true := by
    rw [h.planned e he hc]
    rfl
  have hpending (p : NodeId × Nat) (hp : p ∈ w.agenda.pending) : (w.shapeOn? p.1).isSome = true := by
    obtain ⟨e, he, hen, hek⟩ := h.agenda_sound.held p hp
    exact hen ▸ hheap e he ((h.agenda_sound.live e he).2 (by rw [hen, hek]; exact hp))
  exact
    { reached := hf.mem_dead_iff
      killed := fun m => by
        rw [t.isAlive]
        exact ⟨fun hm => ⟨hf.alive m hm, fun hv => hv.2 hm⟩, fun ⟨hm, hv⟩ => not_not.1 fun hd => hv ⟨hm, hd⟩⟩
      counted := ⟨hf.nodup, t.destroyed⟩
      kept := fun m hm => by simp [t.node, hm]
      alive := hf.shapeAlive h.tame hs
      emptied := hnil
      shapes := fun r hr hd => by
        have hnot : r ∉ cleaned := fun hc => by
          rcases hf.owned r hc with htop | ⟨m, hm, hh⟩
          · exact hr (by simpa using htop)
          · exact hd m hm hh
        simp [t.shape, hnot]
      registry := t.registry
      bound := by
        rw [t.bound]
        exact List.filter_congr fun p hp => by simp [hbound p hp]
      pending := by
        rw [t.agenda, pending_cancelAll]
        exact List.filter_congr fun p hp => by simp [hpending p hp]
      planned := fun e => by
        rw [t.agenda, mem_heap_cancelAll_live w dead h.agenda_sound]
        refine and_congr_right fun he => and_congr_right fun hc => ?_
        simp [hheap e he hc]
      surroundings := t.surroundings }

end World

open World

section

variable {α κ σ : Type} [Scalar α] [SymbolKind κ]

/-- **Deletion.** In any world reached in order, in the midst of rules or not, a deletion for a living shape kills what is
reached from its list and leaves everything else as it was, whoever listens and objects: it does not fail, and another
one right after it changes nothing at all. -/
theorem World.Reached.deletion_prunes {w : World α κ σ} (h : Reached World.orderly w)
    (listeners : List (Node α → Option (Fault α))) {s : ShapeId} (hs : w.shapeAlive s = true) :
    ∃ v dead, deleteGenerated s (w.heardBy listeners) = .ok () v ∧ Pruned (w.heardBy listeners) v s dead ∧
      deleteGenerated s v = .ok () v := by
  have hheard : Reached World.orderly (w.heardBy listeners) := h.moves (.single (.plain (.listen listeners) rfl rfl))
  exact hheard.orderly.prunes hs

end

/-- the lantern hangs under the second root and is generated by the first one's gardener; everyone objects to its end -/
theorem deletion_prunes_abroad :
    let w := (lanternAbroad.run idle).after (.fresh ⟨fun _ => 0, 0⟩ ())
    let heard := w.heardBy [fun _ => some .noChoice]
    heard.children 2 = [4] ∧ ((deleteGenerated 0).after heard).children 2 = [] ∧
      ((deleteGenerated 0).after heard).liveNodes = [1, 2] ∧
      ∃ v dead, deleteGenerated 0 heard = .ok () v ∧ Pruned heard v 0 dead ∧ deleteGenerated 0 v = .ok () v := by
  have heeds : lanternAbroad.HeedsBy World.orderly idle (.fresh ⟨fun _ => 0, 0⟩ ()) :=
    Prog.heedsBy_perform (by decide +kernel) rfl <| Prog.heedsBy_perform (by decide +kernel) rfl <|
      Prog.heedsBy_perform (by decide +kernel) rfl <| Prog.heedsBy_perform (by decide +kernel) rfl rfl
  have h := (Reached.start (pristine_fresh _ _)).run splits_orderly heeds
  exact ⟨by decide +kernel, by decide +kernel, by decide +kernel,
    h.deletion_prunes [fun _ => some .noChoice] (by decide +kernel)⟩

end SceneGrammar

/-
Scene, registries, counters and agenda agree in every reachable world.

`Consistent` says what a user of a scene may rely on between operations; `Reachable.consistent` proves it for every
world that arbitrary programs and rules can make, those that fail half-way and those whose listeners object included,
and says that no id is ever given out twice.
-/
import SceneGrammar.Binary64
import SceneGrammar.City
import SceneGrammar.Proofs.Reachable

namespace SceneGrammar

variable {α κ σ : Type}

/-- what a user of a scene may rely on -/
structure World.Consistent (w : World α κ σ) : Prop where
  /-- the registry holds the living nodes, each once, under their own ids -/
  registry : w.registry.Nodup ∧ ∀ n, n ∈ w.registry ↔ ∃ x, w.node? n = some x ∧ x.alive = true ∧ x.id = n
  /-- a living node is on the list of its parent and on no other -/
  parent_iff : ∀ n p, w.isAlive n = true → (w.parentOf n = some p ↔ n ∈ w.children p)
  once : ∀ n p, n ∈ w.children p → (w.children p).count n = 1
  /-- parents live and are older than their children, so there are no circles -/
  older : ∀ n p, w.isAlive n = true → w.parentOf n = some p → w.isAlive p = true ∧ p < n
  counters : w.created - w.destroyed = w.nodeCount ∧ w.destroyed ≤ w.created
  /-- registered are the living nodes that carry a shape, each with the shape that stands on it -/
  shapes : (w.bound.map Prod.fst).Nodup ∧
    ∀ n s, w.registered? n = some s ↔ w.isAlive n = true ∧ w.shapeOn? n = some s ∧ w.homeOf s = some n
  /-- what is pending is an appointment of a shape that is alive and registered -/
  pending : ∀ n number, (n, number) ∈ w.agenda.pending → ∃ e ∈ w.agenda.heap, e.number = number ∧ e.node = n ∧
    e.cancelled = false ∧ w.shapeAlive e.shape = true ∧ w.registered? n = some e.shape
  /-- what may still come up is pending -/
  queued : ∀ e ∈ w.agenda.heap, e.cancelled = false → (e.node, e.number) ∈ w.agenda.pending

namespace World

theorem Sound.books_agree {w : World α κ σ} (h : Sound w) : Consistent w where
  registry := by
    refine ⟨h.registry_nodup, fun n => ?_⟩
    rw [h.registered, isAlive_iff]
    refine exists_congr fun x => ⟨fun ⟨hx, hl⟩ => ⟨hx, hl, h.id_eq n x hx⟩, fun ⟨hx, hl, _⟩ => ⟨hx, hl⟩⟩
  parent_iff n p _ := (h.mem_children n p).symm
  once n p hn := List.count_eq_one_of_mem (h.children_nodup p) hn
  older n p _ hp := (h.parent_alive n p hp).2
  counters := by
    have := h.count_eq
    unfold nodeCount
    omega
  shapes := by
    refine ⟨h.bound_nodup, fun n s => ?_⟩
    rw [registered?_eq_some_iff h.bound_nodup, h.mem_bound]
    exact ⟨fun ⟨hl, hs⟩ => ⟨hl, hs, h.home n s hs⟩, fun ⟨hl, hs, _⟩ => ⟨hl, hs⟩⟩
  pending n number hp := by
    obtain ⟨e, he, hen, hek⟩ := h.agenda_sound.held _ hp
    have hc : e.cancelled = false := (h.agenda_sound.live e he).2 (by rw [hen, hek]; exact hp)
    have hb := h.planned e he hc
    rw [hen] at hb
    obtain ⟨hl, hs⟩ := (h.mem_bound _ _).1 hb
    refine ⟨e, he, hek, hen, hc, shapeAlive_iff.2 ⟨n, h.home n _ hs, hl⟩, ?_⟩
    exact (registered?_eq_some_iff h.bound_nodup).2 hb
  queued e he hc := (h.agenda_sound.live e he).1 hc

end World

section

variable [Scalar α] [SymbolKind κ]

/-- **Consistency.** A reachable world is consistent, and whatever is run in it later keeps every node and every shape
under its id: ids are never given out twice, and who is dead stays dead. -/
theorem Reachable.consistent {w : World α κ σ} (h : Reachable w) :
    w.Consistent ∧ ∀ (β : Type) (g : Grammar α κ σ) (p : Prog α κ σ β), p.Heeds g w →
      w.Later ((p.run g).after w) :=
  ⟨h.sound.books_agree, fun _ _ _ hp => (hp.steps h.sound).later⟩

end

/-- a grammar whose rules fail at once -/
def refusing : Grammar Float (City.Kind Float) Unit := { rule := fun _ _ => .fail .noChoice, nesting := 1, spare := 0 }

/-- make a root, put a terminal under it, and build the root again -/
def rebuild : Prog Float (City.Kind Float) Unit Unit :=
  .perform (.createRoot (.of .roof) "root" none (.displaced .origin) none) fun root =>
    .perform (.spawn root (.inline (.plain "leaf" "")) none (.displaced .origin)) fun _ =>
      .perform (.generate root Scalar.zero) .done

/-- after a build that failed the terminal is gone and the root is there, and all books are right -/
theorem consistent_after_failed_rebuild :
    ((rebuild.run refusing).after (.fresh ⟨fun _ => 0, 0⟩ ())).liveNodes = [1] ∧
      ((rebuild.run refusing).after (.fresh ⟨fun _ => 0, 0⟩ ())).Consistent := by
  have heeds : rebuild.Heeds refusing (.fresh ⟨fun _ => 0, 0⟩ ()) :=
    Prog.heeds_perform (by decide +kernel) rfl
      (Prog.heeds_perform (by decide +kernel) rfl (Prog.heeds_perform (by decide +kernel) rfl trivial))
  refine ⟨by decide +kernel, ?_⟩
  exact (Reachable.consistent (.run refusing rebuild (.start (World.pristine_fresh _ _)) heeds)).1

end SceneGrammar

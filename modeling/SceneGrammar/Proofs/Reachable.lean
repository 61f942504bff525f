/-
Runs are sequences of steps.

`steps_endure`: a permitted operation adds steps to those that led to a world, provided that running a rule does. Hence a
run that heeds `permits` is a sequence of steps (`Prog.Heeds.steps`), and every reachable world is sound
(`Reachable.sound`).
-/
import SceneGrammar.Proofs.Upkeep

namespace SceneGrammar.World

variable {α κ σ : Type} [SymbolKind κ] {w₀ w : World α κ σ}

/-- the parts of operations that run rules are sequences of steps -/
theorem keptByOperations_steps (h₀ : Sound w₀) : KeptByOperations (Itself (Steps w₀)) := by
  refine keptByOperations_itself (fun _ s => s.sound h₀) ?_ ?_ ?_ ?_ ?_
  · exact fun w t s => s.trans (markExpanded_steps w t)
  · exact fun w t s => s.tail (step_note _ _ (by simp))
  · exact fun w a s ha => s.tail (step_agenda ha)
  · exact fun creator offer name parent pose w s hc hk => s.trans (placeSymbol_steps hc hk offer name pose)
  · exact fun t w s => s.trans (deleteGenerated_steps (s.sound h₀) t)

variable [Scalar α]

/-- **One operation.** A permitted operation adds steps, if the rules that it runs do. -/
theorem steps_endure (h₀ : Sound w₀) (spare : Nat) : Endures spare permits (Steps w₀) := by
  intro expand he w o s hp
  have h := s.sound h₀
  have hlast := keptByOperations_steps h₀
  have hkeep := keeping_itself he
  cases o with
  | createNode name parent pose => exact s.trans (createNode_steps hp name pose)
  | instantiate t parent pose => exact s.trans (instantiate_steps hp t pose)
  | reparent _ _ => simp [permits] at hp
  | destroy n => exact s.trans (destroy_steps h n)
  | clearScene => exact s.trans (destroyAll_steps w.roots h)
  | clear => exact s.trans (clear_steps h)
  | register t => exact s.tail (step_elsewhere w)
  | newShape _ => simp [permits] at hp
  | bind _ _ _ => simp [permits] at hp
  | createRoot offer name parent pose source => exact s.trans (createRoot_steps hp offer name pose source)
  | createSymbol creator offer name parent pose =>
    rw [permits, Bool.and_eq_true] at hp
    exact alike_itself.1 (hlast.createSymbol hkeep ⟨rfl, s⟩ hp.1 hp.2 offer name pose)
  | spawn creator template parent pose =>
    rw [permits, Bool.and_eq_true] at hp
    exact s.trans (spawn_steps hp.1 hp.2 template pose)
  | track t n =>
    rw [permits, Bool.and_eq_true, Option.isSome_iff_exists] at hp
    obtain ⟨⟨x, hx⟩, hn⟩ := hp
    refine s.tail (.track (le_size_of_node? hx).2 fun m hm => ?_)
    simpa [hm] using hn
  | expand t => exact he t w s
  | generate t delay => exact alike_itself.1 (hlast.generate hkeep ⟨rfl, s⟩ hp delay)
  | deleteGenerated t => exact s.trans (deleteGenerated_steps h t)
  | setKind t kind =>
    exact s.tail (step_modifyShape (f := fun x => { x with kind }) (fun _ => rfl) (fun _ => rfl) (fun _ => rfl) w t)
  | setComponents t cs =>
    exact s.tail (step_modifyShape (f := fun x => { x with components := cs }) (fun _ => rfl) (fun _ => rfl)
      (fun _ => rfl) w t)
  | newSource seed => exact s.tail (step_elsewhere w)
  | reseed i seed => exact s.trans (reseed_steps w i seed)
  | randomInt t low high => exact s.trans (randomInt_steps w t low high)
  | randomFraction t => exact s.trans (randomFraction_steps w t)
  | schedule t delay => exact alike_itself.1 (hlast.schedule ⟨rfl, s⟩ hp delay)
  | cancel n => exact s.tail (step_agenda (h.cancel n))
  | advance dt => exact alike_itself.1 (hlast.advance hkeep ⟨rfl, s⟩ spare dt)
  | clearAgenda => exact s.tail (step_agenda h.clearAgenda)
  | setLive live => exact s.tail (step_elsewhere w)
  | listen listeners => exact s.tail (step_elsewhere w)
  | warn x => exact s.tail (step_elsewhere w)
  | setDesk desk => exact s.tail (step_elsewhere w)
  | setUser user => exact s.tail (step_elsewhere w)

end SceneGrammar.World

namespace SceneGrammar

variable {α κ σ β : Type} [Scalar α] [SymbolKind κ]

/-- **One run.** What a program does is a sequence of steps if everything in its run is permitted. -/
theorem Prog.Heeds.steps {g : Grammar α κ σ} {p : Prog α κ σ β} {w : World α κ σ} (hp : p.Heeds g w) (h : w.Sound) :
    World.Steps w ((p.run g).after w) :=
  Prog.HeedsBy.endures hp (World.steps_endure h g.spare) .refl

/-- **Soundness.** Every reachable world is sound. -/
theorem Reachable.sound {w : World α κ σ} (h : Reachable w) : w.Sound := by
  induction h with
  | start hw => exact hw.sound
  | run g p _ hp ih => exact (hp.steps ih).sound ih

end SceneGrammar

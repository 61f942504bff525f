/-
Shapes that have a node go on having one.

No operation leaves a shape without a node that had one: a teardown ends nodes, but the shapes go on pointing at them, and
binding a shape gives it another node. `KeepsHomes w v` says so of two worlds. One operation keeps homes
(`keepsHomes_does`), so one move of a run does (`Move.keepsHomes`), and so do whole runs, whatever the rules do
(`Moves.keepsHomes`, `expandWithin_moves`).
-/
import SceneGrammar.Proofs.Timing.Pace
import SceneGrammar.Proofs.Turns

namespace SceneGrammar

variable {α κ σ β : Type}

namespace World

variable {w v u : World α κ σ}

/-- a shape that had a node has one, the same or another -/
def KeepsHomes (w v : World α κ σ) : Prop := ∀ s, (w.homeOf s).isSome = true → (v.homeOf s).isSome = true

theorem KeepsHomes.refl (w : World α κ σ) : KeepsHomes w w := fun _ => id

theorem KeepsHomes.trans (h : KeepsHomes w v) (i : KeepsHomes v u) : KeepsHomes w u := fun s hs => i s (h s hs)

theorem keepsHomes_of_homeOf (h : ∀ s, v.homeOf s = w.homeOf s) : KeepsHomes w v := fun s hs => by rwa [h]

theorem keepsHomes_of_shapes (h : v.shapes = w.shapes) : KeepsHomes w v :=
  keepsHomes_of_homeOf fun s => by rw [homeOf, shape?, h, homeOf, shape?]

/-! ## Operations -/

mutual

theorem plant_shapes [Scalar α] : ∀ (t : Template α) (w : World α κ σ) (parent : Option NodeId) (pose : Pose α),
    (w.plant t parent pose).shapes = w.shapes
  | ⟨id, name, parts, offset, tags⟩, w, parent, pose => by rw [plant, plantParts_shapes, addNode_shapes]

theorem plantParts_shapes [Scalar α] : ∀ (ts : List (Template α)) (w : World α κ σ) (under : NodeId),
    (w.plantParts ts under).shapes = w.shapes
  | [], w, under => by rw [plantParts]
  | t :: ts, w, under => by rw [plantParts, plantParts_shapes, plant_shapes]

end

theorem keepsHomes_reparent (w : World α κ σ) (n : NodeId) (parent : Option NodeId) :
    KeepsHomes w (w.reparent n parent) := by
  refine keepsHomes_of_shapes ?_
  cases parent with
  | none => rw [reparent, detach_eq]
  | some p => rw [reparent, hang_eq, detach_eq]

theorem keepsHomes_addShape (w : World α κ σ) (kind : κ) : KeepsHomes w (w.addShape kind) := by
  intro s hs
  obtain ⟨n, hn⟩ := Option.isSome_iff_exists.1 hs
  rwa [homeOf, shape?_addShape, if_neg (lt_size_of_homeOf hn).ne]

/-- a shape that is bound gets another node -/
theorem keepsHomes_bind (w : World α κ σ) (s : ShapeId) (n : NodeId) (rootKey : Option NodeId) :
    KeepsHomes w (w.bind s n rootKey) := by
  intro t ht
  rw [homeOf] at ht
  rw [homeOf, shape?_bind]
  cases hx : w.shape? t with
  | none => simp [hx] at ht
  | some x =>
    rw [hx] at ht
    by_cases hts : t = s
    · simp [hts]
    · simpa [hts] using ht

theorem keepsHomes_seat (w : World α κ σ) (kind : κ) (name : String) (parent : Option NodeId) (pose : Pose α)
    (rootKey : Option NodeId) : KeepsHomes w (w.seat kind name parent pose rootKey) := by
  intro s hs
  rw [homeOf_seat]
  split_ifs
  · rfl
  · exact hs

theorem keepsHomes_modifyShape {f : Shape α κ → Shape α κ} (hf : ∀ x, (f x).node = x.node) (w : World α κ σ) (s : ShapeId) :
    KeepsHomes w (w.modifyShape s f) := keepsHomes_of_homeOf (homeOf_modifyShape hf w s)

theorem keepsHomes_take (w : World α κ σ) (creator : ShapeId) (first : NodeId) (count : Nat) :
    KeepsHomes w (w.take creator first count) := keepsHomes_of_homeOf (sameScene_take w creator first count).home

theorem keepsHomes_createRoot (w : World α κ σ) (offer : KindOffer κ) (name : String) (parent : Option NodeId)
    (pose : Pose α) (source : Option SourceId) : KeepsHomes w ((createRoot offer name parent pose source).after w) := by
  rcases createRoot_cases offer name parent pose source w with ⟨e, hr⟩ | ⟨kind, -, -, hr⟩
  · rw [Act.after_error hr]
    exact .refl w
  · rw [Act.after_ok hr]
    exact (keepsHomes_seat w kind name parent pose none).trans (keepsHomes_modifyShape
      (f := fun x => { x with components := x.components ++ source.toList.map .source }) (fun _ => rfl) _ _)

variable [SymbolKind κ]

theorem keepsHomes_placeSymbol (w : World α κ σ) (creator : ShapeId) (offer : KindOffer κ) (name : String)
    (parent : Option NodeId) (pose : Pose α) : KeepsHomes w ((placeSymbol creator offer name parent pose).after w) := by
  rcases placeSymbol_cases creator offer name parent pose w with ⟨e, hr⟩ | ⟨own, key, kind, -, -, -, -, hr⟩
  · rw [Act.after_error hr]
    exact .refl w
  · rw [Act.after_ok hr]
    exact (keepsHomes_seat w kind name _ pose (some key)).trans (keepsHomes_take _ _ _ _)

variable [Scalar α]

theorem keepsHomes_spawn (w : World α κ σ) (creator : ShapeId) (template : TemplateRef α) (parent : Option NodeId)
    (pose : Pose α) : KeepsHomes w ((spawn creator template parent pose).after w) := by
  rcases spawn_cases creator template parent pose w with ⟨e, hr⟩ | ⟨own, t, -, -, -, hr⟩
  · rw [Act.after_error hr]
    exact .refl w
  · rw [Act.after_ok hr]
    exact (keepsHomes_of_shapes (plant_shapes t w _ pose)).trans (keepsHomes_take _ _ _ _)

/-- **One operation** that runs no rules. -/
theorem keepsHomes_does (w : World α κ σ) (o : Op α κ σ) (ho : o.isPlain = true) : KeepsHomes w ((does o).after w) := by
  cases o with
  | createSymbol | expand | generate | advance => cases ho
  | destroy | clearScene | clear | deleteGenerated => exact keepsHomes_of_homeOf (performs_ends rfl).homeOf
  | createNode name parent pose =>
    show KeepsHomes w ((World.createNode name parent pose).after w)
    rcases createNode_cases name parent pose w with ⟨e, hr⟩ | ⟨-, hr⟩
    · rw [Act.after_error hr]
      exact .refl w
    · rw [Act.after_ok hr]
      exact keepsHomes_of_shapes (addNode_shapes w name .empty parent pose none)
  | instantiate t parent pose =>
    show KeepsHomes w ((World.instantiate t parent pose).after w)
    rcases instantiate_cases t parent pose w with ⟨e, hr⟩ | ⟨-, hr⟩
    · rw [Act.after_error hr]
      exact .refl w
    · rw [Act.after_ok hr]
      exact keepsHomes_of_shapes (plant_shapes t w parent pose)
  | reparent n parent => exact keepsHomes_reparent w n parent
  | newShape kind => exact keepsHomes_addShape w kind
  | bind s n rootKey => exact keepsHomes_bind w s n rootKey
  | createRoot offer name parent pose source => exact keepsHomes_createRoot w offer name parent pose source
  | spawn creator template parent pose => exact keepsHomes_spawn w creator template parent pose
  | track s n => exact keepsHomes_of_homeOf (sameScene_track w s n).home
  | setKind s kind => exact keepsHomes_modifyShape (f := fun x => { x with kind }) (fun _ => rfl) w s
  | setComponents s cs => exact keepsHomes_modifyShape (f := fun x => { x with components := cs }) (fun _ => rfl) w s
  | reseed i seed =>
    show KeepsHomes w ((World.reseed i seed).after w)
    rcases reseed_after w i seed with h | ⟨r, e, h⟩ <;> rw [h] <;> exact keepsHomes_of_shapes rfl
  | randomInt s low high =>
    show KeepsHomes w ((World.randomInt s low high).after w)
    rcases randomInt_after w s low high with h | ⟨i, r, e, -, h⟩ <;> rw [h] <;> exact keepsHomes_of_shapes rfl
  | randomFraction s =>
    show KeepsHomes w ((World.randomFraction s).after w)
    rcases randomFraction_after w s with h | ⟨i, r, e, -, h⟩ <;> rw [h] <;> exact keepsHomes_of_shapes rfl
  | schedule s delay =>
    show KeepsHomes w ((World.schedule s delay).after w)
    rcases schedule_cases w s delay with h | ⟨n, -, h⟩ <;> rw [h] <;> exact keepsHomes_of_shapes rfl
  | _ => exact keepsHomes_of_shapes rfl

/-! ## Runs -/

variable {ok : World α κ σ → Op α κ σ → Bool}

/-- **One move.** -/
theorem Move.keepsHomes (m : Move ok w v) : KeepsHomes w v := by
  cases m with
  | plain o ho _ => exact keepsHomes_does w o ho
  | place creator offer name parent pose _ => exact keepsHomes_placeSymbol w creator offer name parent pose
  | begins s => exact keepsHomes_modifyShape (f := fun x => { x with state := .expanded }) (fun _ => rfl) w s
  | _ => exact keepsHomes_of_shapes rfl

/-- **Runs.** -/
theorem Moves.keepsHomes (m : Moves ok w v) : KeepsHomes w v := by
  induction m with
  | refl => exact .refl w
  | tail _ hmove ih => exact ih.trans hmove.keepsHomes

/-- the test that everything passes -/
def anything (_ : World α κ σ) (_ : Op α κ σ) : Bool := true

omit [Scalar α] [SymbolKind κ] in
theorem splits_anything : Splits (anything : World α κ σ → Op α κ σ → Bool) :=
  ⟨fun _ _ _ _ => rfl, fun _ _ _ _ _ _ => rfl, fun _ _ _ _ _ => rfl⟩

/-- whatever the rules are, what they do is a sequence of moves -/
theorem expandWithin_moves (g : Grammar α κ σ) (depth : Nat) (s : ShapeId) {w₀ : World α κ σ} (m : Moves anything w₀ w) :
    Moves anything w₀ ((g.expandWithin depth s).after w) := by
  have hrun := Grammar.expandWithin_endures (moves_endure splits_anything w₀ g.spare) depth s w m
  have hpasses (kind : κ) (s : ShapeId) : (g.rule kind s).Passes anything := Prog.passes_of_forall (fun _ _ => rfl) _
  rwa [Grammar.expandWithin_guarded hpasses] at hrun

end World

end SceneGrammar

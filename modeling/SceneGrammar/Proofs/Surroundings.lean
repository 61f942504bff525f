/-
What a scene leaves to its surroundings.

Random sources, templates, the switches of a world, its listeners, the desk and what the driver keeps belong to no node,
shape or appointment (`Surroundings`). `Act.Secluded` says of an operation that it leaves them as they are, also where it
fails: making nodes, symbols and terminals, hanging them anew, planning, destroying and deleting do.
-/
import SceneGrammar.Proofs.Framing
import SceneGrammar.Proofs.Runs

namespace SceneGrammar

variable {α κ σ β : Type}

/-- whether an act fails or not, it leaves what surrounds the scene alone -/
def Act.Secluded (a : Act α κ σ β) : Prop := ∀ w : World α κ σ, (a.after w).surroundings = w.surroundings

theorem Act.Secluded.ok {a : Act α κ σ β} (h : a.Secluded) {w v : World α κ σ} {b : β} (hv : a w = .ok b v) :
    v.surroundings = w.surroundings := by rw [← h w, Act.after_ok hv]

theorem Act.Secluded.error {a : Act α κ σ β} (h : a.Secluded) {w v : World α κ σ} {e : Fault α}
    (hv : a w = .error e v) : v.surroundings = w.surroundings := by rw [← h w, Act.after_error hv]

namespace World

/-! ## Changes of the scene -/

@[simp] theorem surroundings_note (w : World α κ σ) (e : Entry) : (w.note e).surroundings = w.surroundings := rfl

@[simp] theorem surroundings_modifyShape (w : World α κ σ) (s : ShapeId) (f : Shape α κ → Shape α κ) :
    (w.modifyShape s f).surroundings = w.surroundings := rfl

@[simp] theorem surroundings_track (w : World α κ σ) (s : ShapeId) (n : NodeId) :
    (w.track s n).surroundings = w.surroundings := rfl

@[simp] theorem surroundings_addShape (w : World α κ σ) (kind : κ) : (w.addShape kind).surroundings = w.surroundings :=
  rfl

@[simp] theorem surroundings_addNode (w : World α κ σ) (name : String) (kind : NodeKind) (parent : Option NodeId)
    (pose : Pose α) (template : Option String) :
    (w.addNode name kind parent pose template).surroundings = w.surroundings := by
  rw [addNode_eq]
  rfl

@[simp] theorem surroundings_bind (w : World α κ σ) (s : ShapeId) (n : NodeId) (rootKey : Option NodeId) :
    (w.bind s n rootKey).surroundings = w.surroundings := by
  rw [bind_eq]
  rfl

@[simp] theorem surroundings_reparent (w : World α κ σ) (n : NodeId) (parent : Option NodeId) :
    (w.reparent n parent).surroundings = w.surroundings := by
  cases parent with
  | none =>
    rw [reparent, detach_eq]
    rfl
  | some p =>
    rw [reparent, hang_eq, detach_eq]
    rfl

mutual

@[simp] theorem surroundings_plant [Scalar α] : ∀ (t : Template α) (w : World α κ σ) (parent : Option NodeId)
    (pose : Pose α), (w.plant t parent pose).surroundings = w.surroundings
  | ⟨id, name, parts, offset, tags⟩, w, parent, pose => by rw [plant, surroundings_plantParts, surroundings_addNode]

@[simp] theorem surroundings_plantParts [Scalar α] : ∀ (ts : List (Template α)) (w : World α κ σ) (under : NodeId),
    (w.plantParts ts under).surroundings = w.surroundings
  | [], w, under => by rw [plantParts]
  | t :: ts, w, under => by rw [plantParts, surroundings_plantParts, surroundings_plant]

end

theorem destroy_secluded (n : NodeId) : (destroy n : Act α κ σ Unit).Secluded := by
  intro w
  obtain ⟨dead, h⟩ := (onlyCancels_within w.teardownBound).1 w n
  have hsur := h.surroundings
  unfold Act.after destroy
  generalize destroyWithin w.teardownBound n w = p at hsur ⊢
  rcases p with ⟨v, _ | fault⟩ <;> exact hsur

theorem destroyAll_secluded (ns : List NodeId) : (destroyAll ns : Act α κ σ Unit).Secluded :=
  destroyAll_leads (R := fun w v => v.surroundings = w.surroundings) (fun _ => rfl) (fun h₁ h₂ => h₂.trans h₁)
    destroy_secluded ns

theorem clear_secluded : (clear : Act α κ σ Unit).Secluded := by
  intro w
  unfold Act.after clear clearScene
  generalize hw : { w with agenda := w.agenda.clear } = u
  have hu : u.surroundings = w.surroundings := by
    rw [← hw]
    rfl
  have hscene := destroyAll_secluded (α := α) (κ := κ) (σ := σ) u.roots
  cases hd : destroyAll u.roots u with
  | ok b v => exact (hscene.ok hd).trans hu
  | error e v => exact (hscene.error hd).trans hu

section

variable [SymbolKind κ]

theorem deleteGenerated_secluded (s : ShapeId) : (deleteGenerated s : Act α κ σ Unit).Secluded := by
  intro w
  obtain ⟨dead, h⟩ := (onlyCancels_within w.teardownBound).2 w s
  rcases deleteGenerated_after w s with hs | hs <;> rw [hs]
  exact h.surroundings

theorem placeSymbol_secluded (creator : ShapeId) (offer : KindOffer κ) (name : String) (parent : Option NodeId)
    (pose : Pose α) : (placeSymbol creator offer name parent pose : Act α κ σ ShapeId).Secluded := by
  intro w
  rcases placeSymbol_cases creator offer name parent pose w with ⟨e, hr⟩ | ⟨own, key, kind, -, -, -, -, hr⟩
  · rw [Act.after_error hr]
  · rw [Act.after_ok hr]
    simp [take, seat]

end

theorem createNode_secluded (name : String) (parent : Option NodeId) (pose : Pose α) :
    (createNode name parent pose : Act α κ σ NodeId).Secluded := by
  intro w
  rcases createNode_cases name parent pose w with ⟨e, hr⟩ | ⟨-, hr⟩
  · rw [Act.after_error hr]
  · rw [Act.after_ok hr, surroundings_addNode]

theorem instantiate_secluded [Scalar α] (t : Template α) (parent : Option NodeId) (pose : Pose α) :
    (instantiate t parent pose : Act α κ σ NodeId).Secluded := by
  intro w
  rcases instantiate_cases t parent pose w with ⟨e, hr⟩ | ⟨-, hr⟩
  · rw [Act.after_error hr]
  · rw [Act.after_ok hr, surroundings_plant]

theorem createRoot_secluded (offer : KindOffer κ) (name : String) (parent : Option NodeId) (pose : Pose α)
    (source : Option SourceId) : (createRoot offer name parent pose source : Act α κ σ ShapeId).Secluded := by
  intro w
  rcases createRoot_cases offer name parent pose source w with ⟨e, hr⟩ | ⟨kind, -, -, hr⟩
  · rw [Act.after_error hr]
  · rw [Act.after_ok hr]
    simp [seat]

section

variable [Scalar α] [SymbolKind κ]

theorem spawn_secluded (creator : ShapeId) (template : TemplateRef α) (parent : Option NodeId) (pose : Pose α) :
    (spawn creator template parent pose : Act α κ σ NodeId).Secluded := by
  intro w
  rcases spawn_cases creator template parent pose w with ⟨e, hr⟩ | ⟨own, t, -, -, -, hr⟩
  · rw [Act.after_error hr]
  · rw [Act.after_ok hr]
    simp [take]

theorem schedule_secluded (s : ShapeId) (delay : α) : (schedule s delay : Act α κ σ Unit).Secluded := by
  intro w
  rcases schedule_cases w s delay with hs | ⟨n, -, hs⟩ <;> rw [hs]
  rfl

end

end World

end SceneGrammar

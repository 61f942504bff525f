/-
Operations that do not look at the agenda.

`Act.Blind`: of the agenda, an operation does no more than drop the appointments of nodes that end, and it comes to the
same whatever the agenda is. `perform_blind`: every operation is of this kind that neither plans nor runs rules
(`Op.Idle`).
-/
import SceneGrammar.Proofs.Framing
import SceneGrammar.Proofs.Runs

namespace SceneGrammar

variable {α κ σ β : Type}

namespace World

/-- the same outcome, with another agenda left -/
def rebooked (r : EStateM.Result (Fault α) (World α κ σ) β) (c : Agenda α) : EStateM.Result (Fault α) (World α κ σ) β :=
  match r with
  | .ok b w => .ok b (w.rebook c)
  | .error e w => .error e (w.rebook c)

end World

open World

/-- an operation to which the agenda is nothing but the appointments of the nodes that it ends -/
def Act.Blind (a : Act α κ σ β) : Prop :=
  ∀ w, ∃ es, (a.after w).journal.toList = w.journal.toList ++ es ∧
    ∀ c, a (w.rebook c) = rebooked (a w) (w.cancelAll (endedIn es) c)

theorem Act.Blind.after_rebook {a : Act α κ σ β} (ha : a.Blind) (w : World α κ σ) :
    ∃ es, ∀ c, a.after (w.rebook c) = (a.after w).rebook (w.cancelAll (endedIn es) c) := by
  obtain ⟨es, -, hblind⟩ := ha w
  refine ⟨es, fun c => ?_⟩
  unfold Act.after
  rw [hblind c]
  cases a w <;> rfl

/-- an operation that ends no node -/
theorem Act.blind_of_rebook {a : Act α κ σ β}
    (hjournal : ∀ w, ∃ es, endedIn es = [] ∧ (a.after w).journal.toList = w.journal.toList ++ es)
    (hrebook : ∀ w c, a (w.rebook c) = rebooked (a w) c) : a.Blind := by
  intro w
  obtain ⟨es, hended, hes⟩ := hjournal w
  refine ⟨es, hes, fun c => ?_⟩
  rw [hended]
  exact hrebook w c

/-- an operation that does not touch the journal either -/
theorem Act.blind_of_journal {a : Act α κ σ β} (hjournal : ∀ w, (a.after w).journal = w.journal)
    (hrebook : ∀ w c, a (w.rebook c) = rebooked (a w) c) : a.Blind := by
  refine Act.blind_of_rebook (fun w => ⟨[], rfl, ?_⟩) hrebook
  rw [hjournal w, List.append_nil]

namespace World

/-! ## Changes and look-ups -/

section

variable (w : World α κ σ) (c : Agenda α)

@[simp] theorem nextId_rebook : (w.rebook c).nextId = w.nextId := rfl

@[simp] theorem entropy_rebook : (w.rebook c).entropy = w.entropy := rfl

@[simp] theorem sources_rebook : (w.rebook c).sources = w.sources := rfl

@[simp] theorem resolve_rebook (t : TemplateRef α) : (w.rebook c).resolve t = w.resolve t := rfl

@[simp] theorem attach_rebook (s : ShapeId) (x : Component α) :
    (w.rebook c).attach s x = (w.attach s x).rebook c := rfl

mutual

theorem plant_rebook [Scalar α] : ∀ (t : Template α) (w : World α κ σ) (c : Agenda α) (parent : Option NodeId)
    (pose : Pose α), (w.rebook c).plant t parent pose = (w.plant t parent pose).rebook c
  | ⟨id, name, parts, offset, tags⟩, w, c, parent, pose => by
    simp only [plant, addNode_rebook, nextId_rebook]
    exact plantParts_rebook parts _ c _

theorem plantParts_rebook [Scalar α] : ∀ (ts : List (Template α)) (w : World α κ σ) (c : Agenda α) (under : NodeId),
    (w.rebook c).plantParts ts under = (w.plantParts ts under).rebook c
  | [], w, c, under => rfl
  | t :: ts, w, c, under => by
    simp only [plantParts, plant_rebook t w c]
    exact plantParts_rebook ts _ c under

end

section

variable [SymbolKind κ]

@[simp] theorem nodeOf_rebook (s : ShapeId) : (w.rebook c).nodeOf s = w.nodeOf s := rfl

@[simp] theorem typeName_rebook (s : ShapeId) : (w.rebook c).typeName s = w.typeName s := rfl

@[simp] theorem rootKeyOf_rebook (s : ShapeId) : (w.rebook c).rootKeyOf s = w.rootKeyOf s := rfl

@[simp] theorem sourceOf_rebook (s : ShapeId) : (w.rebook c).sourceOf s = w.sourceOf s := rfl

@[simp] theorem inContext_rebook (s : ShapeId) : (w.rebook c).inContext s = w.inContext s := rfl

end

end

@[simp] theorem journal_addNode (w : World α κ σ) (name : String) (kind : NodeKind) (parent : Option NodeId)
    (pose : Pose α) (template : Option String) : (w.addNode name kind parent pose template).journal = w.journal := by
  rw [addNode_eq]

@[simp] theorem journal_bind (w : World α κ σ) (s : ShapeId) (n : NodeId) (rootKey : Option NodeId) :
    (w.bind s n rootKey).journal = w.journal := by rw [bind_eq]

theorem journal_reparent (w : World α κ σ) (n : NodeId) (parent : Option NodeId) :
    (w.reparent n parent).journal = w.journal := by
  cases parent with
  | none => rw [reparent, detach_eq]
  | some p => rw [reparent, hang_eq, detach_eq]

mutual

@[simp] theorem journal_plant [Scalar α] : ∀ (t : Template α) (w : World α κ σ) (parent : Option NodeId) (pose : Pose α),
    (w.plant t parent pose).journal = w.journal
  | ⟨id, name, parts, offset, tags⟩, w, parent, pose => by rw [plant, journal_plantParts, journal_addNode]

@[simp] theorem journal_plantParts [Scalar α] : ∀ (ts : List (Template α)) (w : World α κ σ) (under : NodeId),
    (w.plantParts ts under).journal = w.journal
  | [], w, under => rfl
  | t :: ts, w, under => by rw [plantParts, journal_plantParts, journal_plant]

end

/-! ## Operations on the scene -/

theorem blind_createNode (name : String) (parent : Option NodeId) (pose : Pose α) :
    (createNode name parent pose : Act α κ σ NodeId).Blind := by
  apply Act.blind_of_journal
  · intro w
    rcases createNode_cases name parent pose w with ⟨e, hr⟩ | ⟨-, hr⟩
    · rw [Act.after_error hr]
    · rw [Act.after_ok hr, journal_addNode]
  · intro w c
    unfold createNode
    rw [parentFault?_rebook, addNode_rebook]
    rcases w.parentFault? name parent with _ | e <;> rfl

theorem blind_instantiate [Scalar α] (t : Template α) (parent : Option NodeId) (pose : Pose α) :
    (instantiate t parent pose : Act α κ σ NodeId).Blind := by
  apply Act.blind_of_journal
  · intro w
    rcases instantiate_cases t parent pose w with ⟨e, hr⟩ | ⟨-, hr⟩
    · rw [Act.after_error hr]
    · rw [Act.after_ok hr, journal_plant]
  · intro w c
    unfold instantiate
    rw [parentFault?_rebook, plant_rebook]
    rcases w.parentFault? t.displayName parent with _ | e <;> rfl

theorem blind_createRoot (offer : KindOffer κ) (name : String) (parent : Option NodeId) (pose : Pose α)
    (source : Option SourceId) : (createRoot offer name parent pose source : Act α κ σ ShapeId).Blind := by
  apply Act.blind_of_journal
  · intro w
    rcases createRoot_cases offer name parent pose source w with ⟨e, hr⟩ | ⟨kind, -, -, hr⟩
    · rw [Act.after_error hr]
    · rw [Act.after_ok hr]
      exact journal_seat w kind name parent pose none
  · intro w c
    unfold createRoot
    simp only [parentFault?_rebook, addShape_rebook, addNode_rebook, bind_rebook, attach_rebook, nextId_rebook]
    rcases offer.refusal? with _ | e
    · rcases offer.kind? with _ | kind
      · rfl
      · rcases w.parentFault? name parent with _ | e
        · cases source <;> rfl
        · rfl
    · rfl

theorem blind_reseed (i : SourceId) (seed : Option Int) : (reseed i seed : Act α κ σ Unit).Blind := by
  apply Act.blind_of_journal
  · intro w
    rcases reseed_after w i seed with h | ⟨r, e, h⟩ <;> rw [h]
    rfl
  · intro w c
    unfold reseed
    rw [sources_rebook]
    rcases w.sources[i]? with _ | r <;> rfl

section

variable [SymbolKind κ]

theorem blind_placeSymbol (creator : ShapeId) (offer : KindOffer κ) (name : String) (parent : Option NodeId)
    (pose : Pose α) : (placeSymbol creator offer name parent pose : Act α κ σ ShapeId).Blind := by
  apply Act.blind_of_rebook
  · intro w
    rcases placeSymbol_cases creator offer name parent pose w with ⟨e, hr⟩ | ⟨own, key, kind, -, -, -, -, hr⟩
    · rw [Act.after_error hr]
      exact ⟨[], rfl, (List.append_nil _).symm⟩
    · rw [Act.after_ok hr]
      refine ⟨[.made creator w.nextId 1, .tracked creator w.nextId], rfl, ?_⟩
      simp [take, track, note, modifyShape, journal_seat]
  · intro w c
    unfold placeSymbol
    simp only [nodeOf_rebook, rootKeyOf_rebook, typeName_rebook, parentFault?_rebook, addShape_rebook, addNode_rebook,
      note_rebook, track_rebook, bind_rebook, nextId_rebook]
    rcases offer.refusal? with _ | e
    swap
    · rfl
    rcases w.nodeOf creator with e | own
    · rfl
    rcases w.rootKeyOf creator with e | key
    · rfl
    rcases offer.kind? with _ | kind
    · rfl
    simp only
    rcases w.parentFault? name (some (parent.getD own)) with _ | e <;> rfl

theorem blind_spawn [Scalar α] (creator : ShapeId) (template : TemplateRef α) (parent : Option NodeId) (pose : Pose α) :
    (spawn creator template parent pose : Act α κ σ NodeId).Blind := by
  apply Act.blind_of_rebook
  · intro w
    rcases spawn_cases creator template parent pose w with ⟨e, hr⟩ | ⟨own, t, -, -, -, hr⟩
    · rw [Act.after_error hr]
      exact ⟨[], rfl, (List.append_nil _).symm⟩
    · rw [Act.after_ok hr]
      refine ⟨[.made creator w.nextId t.size, .tracked creator w.nextId], rfl, ?_⟩
      simp [take, track, note, modifyShape]
  · intro w c
    unfold spawn
    rw [nodeOf_rebook, typeName_rebook]
    rcases w.nodeOf creator with e | own
    · rfl
    simp only
    rw [resolve_rebook]
    rcases w.resolve template with e | t
    · rfl
    simp only [parentFault?_rebook, plant_rebook, note_rebook, track_rebook, nextId_rebook]
    rcases w.parentFault? t.displayName (some (parent.getD own)) with _ | e <;> rfl

omit [SymbolKind κ] in
theorem blind_track (s : ShapeId) (n : NodeId) : Act.Blind fun w : World α κ σ => .ok () (w.track s n) := by
  apply Act.blind_of_rebook
  · intro w
    exact ⟨[.tracked s n], rfl, by simp [Act.after, track, note, modifyShape]⟩
  · intro w c
    rfl

theorem blind_randomInt (s : ShapeId) (low high : Int) : (randomInt s low high : Act α κ σ Int).Blind := by
  apply Act.blind_of_journal
  · intro w
    rcases randomInt_after w s low high with h | ⟨i, r, e, -, h⟩ <;> rw [h]
    rfl
  · intro w c
    unfold randomInt
    rw [sourceOf_rebook, sources_rebook]
    rcases w.sourceOf s with e | i
    · rfl
    simp only
    rcases w.sources[i]? with _ | r
    · rfl
    simp only [entropy_rebook]
    rcases r.nextInt low high w.entropy with ⟨x | x, r', e⟩ <;> rfl

theorem blind_randomFraction (s : ShapeId) : (randomFraction s : Act α κ σ Nat).Blind := by
  apply Act.blind_of_journal
  · intro w
    rcases randomFraction_after w s with h | ⟨i, r, e, -, h⟩ <;> rw [h]
    rfl
  · intro w c
    unfold randomFraction
    rw [sourceOf_rebook, sources_rebook]
    rcases w.sourceOf s with e | i
    · rfl
    simp only
    rcases w.sources[i]? with _ | r <;> rfl

end

/-! ## Operations that end nodes -/

/-- the world that an act leaves and its answer or fault -/
def split (a : Act α κ σ β) (w : World α κ σ) : World α κ σ × Except (Fault α) β :=
  match a w with
  | .ok b v => (v, .ok b)
  | .error e v => (v, .error e)

/-- go on with an act unless there is a fault already -/
def splitAfter (a : Act α κ σ β) : Except (Fault α) β → World α κ σ → World α κ σ × Except (Fault α) β
  | .ok _, w => split a w
  | .error e, w => (w, .error e)

/-- what does no more than a teardown is of this kind -/
theorem blind_of_onlyCancels {a : Act α κ σ β} (h : ∀ w, ∃ dead, OnlyCancels (split a) w dead) : a.Blind := by
  intro w
  obtain ⟨dead, hdead⟩ := h w
  refine ⟨dead.map .announced, ?_, fun c => ?_⟩
  · have hjournal := hdead.journal
    unfold split at hjournal
    unfold Act.after
    cases ha : a w <;> rw [ha] at hjournal <;> exact hjournal
  · have hrebook := hdead.rebook c
    rw [endedIn_announced]
    unfold split at hrebook
    cases ha : a w <;> cases hc : a (w.rebook c) <;> rw [ha, hc] at hrebook <;> cases hrebook <;> rfl

theorem destroy_onlyCancels (n : NodeId) (w : World α κ σ) : ∃ dead, OnlyCancels (split (destroy n)) w dead := by
  obtain ⟨dead, h⟩ := (onlyCancels_within w.teardownBound).1 w n
  refine ⟨dead, (h.value fun fault => fault.elim (.ok ()) .error).congr fun c => ?_⟩
  have hbound : (w.rebook c).teardownBound = w.teardownBound := rfl
  unfold split destroy
  rw [hbound]
  rcases destroyWithin w.teardownBound n (w.rebook c) with ⟨v, _ | e⟩ <;> rfl

theorem destroyAll_onlyCancels (ns : List NodeId) (w : World α κ σ) :
    ∃ dead, OnlyCancels (split (destroyAll ns)) w dead := by
  induction ns generalizing w with
  | nil => exact ⟨[], OnlyCancels.refl (Except.ok ()) w⟩
  | cons n ns ih =>
    obtain ⟨d, hd⟩ := destroy_onlyCancels n w
    obtain ⟨e, he⟩ : ∃ e, OnlyCancels (splitAfter (destroyAll ns) (split (destroy n) w).2) (split (destroy n) w).1 e := by
      cases (split (destroy n) w).2 with
      | ok u => exact ih _
      | error x => exact ⟨[], OnlyCancels.refl _ _⟩
    refine ⟨d ++ e, (hd.andThen he).congr fun c => ?_⟩
    simp only [split, destroyAll]
    cases destroy n (w.rebook c) <;> rfl

theorem blind_destroy (n : NodeId) : (destroy n : Act α κ σ Unit).Blind := blind_of_onlyCancels (destroy_onlyCancels n)

theorem blind_clearScene : (clearScene : Act α κ σ Unit).Blind := by
  apply blind_of_onlyCancels
  intro w
  obtain ⟨dead, h⟩ := destroyAll_onlyCancels w.roots w
  refine ⟨dead, h.congr fun c => ?_⟩
  have hroots : (w.rebook c).roots = w.roots := by
    unfold roots
    simp only [node?_rebook]
    rfl
  unfold split clearScene
  rw [hroots]

/-- destroy every root and then drop every registration -/
def sweep : Act α κ σ Unit := fun w =>
  match clearScene w with
  | .ok _ v => .ok () { v with bound := [] }
  | .error e v => .error e v

theorem clear_eq (w : World α κ σ) : clear w = sweep (w.rebook w.agenda.clear) := rfl

theorem blind_sweep : (sweep : Act α κ σ Unit).Blind := by
  intro w
  obtain ⟨es, hes, hrebook⟩ := blind_clearScene (α := α) (κ := κ) (σ := σ) w
  refine ⟨es, ?_, fun c => ?_⟩
  · rw [← hes]
    unfold Act.after sweep
    cases clearScene w <;> rfl
  · unfold sweep
    rw [hrebook]
    cases clearScene w <;> rfl

theorem blind_deleteGenerated [SymbolKind κ] (s : ShapeId) : (deleteGenerated s : Act α κ σ Unit).Blind := by
  apply blind_of_onlyCancels
  intro w
  have hbound (c : Agenda α) : (w.rebook c).teardownBound = w.teardownBound := rfl
  rcases hg : (w.shape? s).bind (·.generated) with _ | gs
  · refine ⟨[], (OnlyCancels.refl (.ok ()) w).congr fun c => ?_⟩
    unfold split deleteGenerated
    rw [shape?_rebook, hg]
  rcases hin : w.inContext s with e | _
  · refine ⟨[], (OnlyCancels.refl (Except.error e) w).congr fun c => ?_⟩
    unfold split deleteGenerated
    rw [shape?_rebook, inContext_rebook, hg, hin]
  obtain ⟨dead, h⟩ := (onlyCancels_within w.teardownBound).2 w s
  refine ⟨dead, (h.value Except.ok).congr fun c => ?_⟩
  unfold split deleteGenerated
  rw [shape?_rebook, inContext_rebook, hg, hin, hbound]

/-! ## All of them -/

/-- a change of the world that nothing of this is part of -/
theorem blind_update {f : World α κ σ → World α κ σ} {k : World α κ σ → β} (hjournal : ∀ w, (f w).journal = w.journal)
    (hrebook : ∀ w c, f (w.rebook c) = (f w).rebook c) (hk : ∀ w c, k (w.rebook c) = k w) :
    Act.Blind fun w => .ok (k w) (f w) := by
  apply Act.blind_of_journal
  · exact hjournal
  · intro w c
    rw [hrebook, hk]
    rfl

end World

/-- an operation that neither plans nor runs rules -/
def Op.Idle : Op α κ σ → Prop
  | .clear | .createSymbol .. | .expand _ | .generate .. | .schedule .. | .cancel _ | .advance _ | .clearAgenda => False
  | _ => True

/-- **One operation.** To one that neither plans nor runs rules, the agenda is nothing but the appointments of the nodes
that it ends. -/
theorem World.perform_blind [Scalar α] [SymbolKind κ] (spare : Nat) (expand : ShapeId → Act α κ σ Unit) {o : Op α κ σ}
    (ho : o.Idle) : (World.perform spare expand o).Blind := by
  cases o with
  | createNode name parent pose => exact blind_createNode name parent pose
  | instantiate t parent pose => exact blind_instantiate t parent pose
  | reparent n parent =>
    exact blind_update (fun w => journal_reparent w n parent) (fun w c => reparent_rebook w c n parent) fun _ _ => rfl
  | destroy n => exact blind_destroy n
  | clearScene => exact blind_clearScene
  | register t => exact blind_update (fun _ => rfl) (fun _ _ => rfl) fun _ _ => rfl
  | newShape kind => exact blind_update (fun _ => rfl) (fun _ _ => rfl) fun _ _ => rfl
  | bind s n rootKey =>
    exact blind_update (fun w => journal_bind w s n rootKey) (fun w c => bind_rebook w c s n rootKey) fun _ _ => rfl
  | createRoot offer name parent pose source => exact blind_createRoot offer name parent pose source
  | spawn creator template parent pose => exact blind_spawn creator template parent pose
  | track s n => exact blind_track s n
  | deleteGenerated s => exact blind_deleteGenerated s
  | setKind s kind => exact blind_update (fun _ => rfl) (fun _ _ => rfl) fun _ _ => rfl
  | setComponents s cs => exact blind_update (fun _ => rfl) (fun _ _ => rfl) fun _ _ => rfl
  | newSource seed => exact blind_update (fun _ => rfl) (fun _ _ => rfl) fun _ _ => rfl
  | reseed i seed => exact blind_reseed i seed
  | randomInt s low high => exact blind_randomInt s low high
  | randomFraction s => exact blind_randomFraction s
  | setLive live => exact blind_update (fun _ => rfl) (fun _ _ => rfl) fun _ _ => rfl
  | listen listeners => exact blind_update (fun _ => rfl) (fun _ _ => rfl) fun _ _ => rfl
  | warn x => exact blind_update (fun _ => rfl) (fun _ _ => rfl) fun _ _ => rfl
  | setDesk desk => exact blind_update (fun _ => rfl) (fun _ _ => rfl) fun _ _ => rfl
  | setUser user => exact blind_update (fun _ => rfl) (fun _ _ => rfl) fun _ _ => rfl
  | clear | createSymbol | expand | generate | schedule | cancel | advance | clearAgenda => exact ho.elim

end SceneGrammar

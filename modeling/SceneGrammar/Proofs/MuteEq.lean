/-
Two worlds that differ in nothing a scene heeds.

Listeners, log and the keys to come are not looked at when symbols and terminals are made, nor when content is deleted.
`MuteEq w v`: the two worlds differ in these alone; `Alike R`: two acts end with the same answer or the same fault, in
worlds that are related by `R`. Placing a symbol, making a terminal and deleting content do alike in such worlds.
-/
import SceneGrammar.Proofs.Runs
import SceneGrammar.Proofs.Teardown.Unheeding
import SceneGrammar.World.Report

namespace SceneGrammar.World

variable {α κ σ β : Type}

/-- two worlds that differ in nothing that a scene heeds -/
def MuteEq (w v : World α κ σ) : Prop := v.mute = w.mute

/-- two acts end with the same answer or the same fault, in worlds that are related -/
def Alike (R : World α κ σ → World α κ σ → Prop) :
    EStateM.Result (Fault α) (World α κ σ) β → EStateM.Result (Fault α) (World α κ σ) β → Prop
  | .ok b w, .ok c v => b = c ∧ R w v
  | .error e w, .error f v => e = f ∧ R w v
  | _, _ => False

section

variable {R Q : World α κ σ → World α κ σ → Prop} {w v : World α κ σ}
  {a b : EStateM.Result (Fault α) (World α κ σ) β}

theorem MuteEq.refl (w : World α κ σ) : MuteEq w w := rfl

theorem MuteEq.nodes (h : MuteEq w v) : v.nodes = w.nodes := (congrArg World.nodes h :)

theorem MuteEq.shapes (h : MuteEq w v) : v.shapes = w.shapes := (congrArg World.shapes h :)

theorem MuteEq.agenda (h : MuteEq w v) : v.agenda = w.agenda := (congrArg World.agenda h :)

theorem MuteEq.eager (h : MuteEq w v) : v.eager = w.eager := (congrArg World.eager h :)

theorem MuteEq.live (h : MuteEq w v) : v.live = w.live := (congrArg World.live h :)

theorem MuteEq.sources (h : MuteEq w v) : v.sources = w.sources := (congrArg World.sources h :)

theorem MuteEq.desk (h : MuteEq w v) : v.desk = w.desk := (congrArg World.desk h :)

theorem MuteEq.shape? (h : MuteEq w v) (s : ShapeId) : v.shape? s = w.shape? s := by
  rw [World.shape?, h.shapes, World.shape?]

theorem MuteEq.homeOf (h : MuteEq w v) (s : ShapeId) : v.homeOf s = w.homeOf s := by
  rw [World.homeOf, h.shape?, World.homeOf]

theorem MuteEq.isAlive (h : MuteEq w v) (n : NodeId) : v.isAlive n = w.isAlive n := by
  rw [World.isAlive, node?_congr h.nodes, World.isAlive]

theorem MuteEq.shapeAlive (h : MuteEq w v) (s : ShapeId) : v.shapeAlive s = w.shapeAlive s := by
  simp only [World.shapeAlive, h.shape?, funext h.isAlive]

theorem MuteEq.sourceOf [SymbolKind κ] (h : MuteEq w v) (s : ShapeId) : v.sourceOf s = w.sourceOf s := by
  rw [eq_of_mute h]
  rfl

theorem MuteEq.reliefOf [SymbolKind κ] (h : MuteEq w v) (s : ShapeId) : v.reliefOf s = w.reliefOf s := by
  rw [eq_of_mute h]
  rfl

theorem carryUp_mute [Scalar α] (w : World α κ σ) (depth : Nat) (n : Option NodeId) (x : Vector3 α) :
    w.mute.carryUp depth n x = w.carryUp depth n x := by
  induction depth generalizing n x with
  | zero => rfl
  | succ depth ih => simp only [carryUp, ih, funext (node?_mute w)]

/-- what goes unheeded is in no snapshot -/
theorem MuteEq.snapshot [Scalar α] [SymbolKind κ] (h : MuteEq w v) (root : NodeId) (tick seed : Int) :
    v.snapshot root tick seed = w.snapshot root tick seed := by
  have hmute (u : World α κ σ) : u.mute.snapshot root tick seed = u.snapshot root tick seed := by
    have hshot (n : Node α) : u.mute.nodeSnapshot n = u.nodeSnapshot n := by
      simp only [nodeSnapshot, worldPosition, carryUp_mute, shape?_mute]
      rfl
    have hreach : u.mute.reachable root = u.reachable root := reachFrom_mute u _ _ _
    simp only [World.snapshot, hreach, funext hshot, funext (node?_mute u)]
    rfl
  rw [← hmute, h, hmute]

/-- a change that heeds no more -/
theorem MuteEq.map {f : World α κ σ → World α κ σ} (hf : ∀ w, (f w).mute = f w.mute) (h : MuteEq w v) :
    MuteEq (f w) (f v) := by
  rw [MuteEq, hf, hf, h]

theorem Alike.cases (h : Alike R a b) : (∃ x w v, a = .ok x w ∧ b = .ok x v ∧ R w v) ∨
    ∃ e w v, a = .error e w ∧ b = .error e v ∧ R w v := by
  cases a with
  | ok x w =>
    cases b with
    | ok y v => exact Or.inl ⟨x, w, v, rfl, by rw [h.1], h.2⟩
    | error e v => exact h.elim
  | error e w =>
    cases b with
    | ok y v => exact h.elim
    | error f v => exact Or.inr ⟨e, w, v, rfl, by rw [h.1], h.2⟩

theorem Alike.mono (h : Alike R a b) (hRQ : ∀ w v, R w v → Q w v) : Alike Q a b := by
  rcases h.cases with ⟨x, w, v, rfl, rfl, hR⟩ | ⟨e, w, v, rfl, rfl, hR⟩ <;> exact ⟨rfl, hRQ w v hR⟩

/-! ## Acts in both -/

/-- the end of an act with what goes unheeded left out -/
def muted : EStateM.Result (Fault α) (World α κ σ) β → EStateM.Result (Fault α) (World α κ σ) β
  | .ok b w => .ok b w.mute
  | .error e w => .error e w.mute

/-- an act that heeds no more does alike in worlds that differ in nothing a scene heeds -/
theorem alike_of_muted {a : Act α κ σ β} (ha : ∀ w, a w.mute = muted (a w)) (h : MuteEq w v) :
    Alike MuteEq (a w) (a v) := by
  have hm : muted (a v) = muted (a w) := by
    rw [← ha, ← ha]
    exact congrArg a h
  cases hw : a w with
  | ok x w' =>
    cases hv : a v with
    | ok y v' =>
      rw [hw, hv] at hm
      injection hm with hx hmute
      exact ⟨hx.symm, hmute⟩
    | error e v' =>
      rw [hw, hv] at hm
      cases hm
  | error e w' =>
    cases hv : a v with
    | ok y v' =>
      rw [hw, hv] at hm
      cases hm
    | error f v' =>
      rw [hw, hv] at hm
      injection hm with he hmute
      exact ⟨he.symm, hmute⟩

theorem Alike.and {J : World α κ σ → Prop} {a : Act α κ σ β} (h : Alike R (a w) b) (hJ : J (a.after w)) :
    Alike (fun w v => J w ∧ R w v) (a w) b := by
  unfold Act.after at hJ
  rcases h.cases with ⟨x, w', v', hw, rfl, h'⟩ | ⟨e, w', v', hw, rfl, h'⟩
  · rw [hw] at hJ ⊢
    exact ⟨rfl, hJ, h'⟩
  · rw [hw] at hJ ⊢
    exact ⟨rfl, hJ, h'⟩

section

variable (w : World α κ σ)

@[simp] theorem addNode_mute (name : String) (kind : NodeKind) (parent : Option NodeId) (pose : Pose α)
    (template : Option String) :
    w.mute.addNode name kind parent pose template = (w.addNode name kind parent pose template).mute := by
  cases parent with
  | none => rfl
  | some p => cases p <;> rfl

@[simp] theorem bind_mute (s : ShapeId) (n : NodeId) (rootKey : Option NodeId) :
    w.mute.bind s n rootKey = (w.bind s n rootKey).mute := by cases n <;> rfl

@[simp] theorem parentFault?_mute (name : String) (parent : Option NodeId) :
    w.mute.parentFault? name parent = w.parentFault? name parent := by
  simp only [parentFault?, funext (node?_mute w)]

end

mutual

@[simp] theorem plant_mute [Scalar α] : ∀ (t : Template α) (w : World α κ σ) (parent : Option NodeId) (pose : Pose α),
    w.mute.plant t parent pose = (w.plant t parent pose).mute
  | ⟨id, name, parts, offset, tags⟩, w, parent, pose => by
    simp only [plant, addNode_mute]
    exact plantParts_mute parts _ _

@[simp] theorem plantParts_mute [Scalar α] : ∀ (ts : List (Template α)) (w : World α κ σ) (under : NodeId),
    w.mute.plantParts ts under = (w.plantParts ts under).mute
  | [], w, under => rfl
  | t :: ts, w, under => by
    simp only [plantParts, plant_mute t w]
    exact plantParts_mute ts _ under

end

variable [SymbolKind κ]

theorem placeSymbol_muteEq (creator : ShapeId) (offer : KindOffer κ) (name : String) (parent : Option NodeId)
    (pose : Pose α) (h : MuteEq w v) :
    Alike MuteEq (placeSymbol creator offer name parent pose w) (placeSymbol creator offer name parent pose v) := by
  refine alike_of_muted (fun w => ?_) h
  have hnode : w.mute.nodeOf creator = w.nodeOf creator := rfl
  have hkey : w.mute.rootKeyOf creator = w.rootKeyOf creator := rfl
  have hadd (kind : κ) : w.mute.addShape kind = (w.addShape kind).mute := rfl
  unfold placeSymbol
  simp only [hnode, hkey, parentFault?_mute]
  rcases offer.refusal? with _ | e
  swap
  · rfl
  rcases w.nodeOf creator with e | own
  · rfl
  rcases w.rootKeyOf creator with e | key
  · rfl
  rcases offer.kind? with _ | kind
  · rfl
  simp only [hadd, addNode_mute]
  rcases w.parentFault? name (some (parent.getD own)) with _ | e
  · exact congrArg (EStateM.Result.ok _) (bind_mute (track (note _ _) _ _) _ _ _)
  · rfl

theorem spawn_muteEq [Scalar α] (creator : ShapeId) (template : TemplateRef α) (parent : Option NodeId) (pose : Pose α)
    (h : MuteEq w v) : Alike MuteEq (spawn creator template parent pose w) (spawn creator template parent pose v) := by
  refine alike_of_muted (fun w => ?_) h
  have hnode : w.mute.nodeOf creator = w.nodeOf creator := rfl
  have hresolve : w.mute.resolve template = w.resolve template := rfl
  unfold spawn
  simp only [hnode, hresolve, parentFault?_mute, plant_mute]
  rcases w.nodeOf creator with e | own
  · rfl
  simp only
  rcases w.resolve template with e | t
  · rfl
  simp only
  rcases w.parentFault? t.displayName (some (parent.getD own)) with _ | e <;> rfl

theorem deleteGenerated_muteEq (s : ShapeId) (h : MuteEq w v) :
    Alike MuteEq (deleteGenerated s w) (deleteGenerated s v) := by
  have hclean := (unheeding_within w.teardownBound).2 s v w h
  obtain ⟨hshape, hin, hbound⟩ : v.shape? s = w.shape? s ∧ v.inContext s = w.inContext s ∧
      v.teardownBound = w.teardownBound := by
    rw [eq_of_mute h]
    exact ⟨rfl, rfl, rfl⟩
  unfold deleteGenerated
  rw [hshape, hin, hbound]
  rcases (w.shape? s).bind (·.generated) with _ | gs
  · exact ⟨rfl, h⟩
  rcases w.inContext s with e | _
  · exact ⟨rfl, h⟩
  · exact ⟨rfl, hclean⟩

end

end SceneGrammar.World

/-
What the changes of a world do to what is looked up in it.

Every change is described by its effect on `node?`, `shape?` and the few tables; what it does not touch it leaves to
`rfl`. `parentOf`, `homeOf` and `rootKeyAt` are the look-ups that the model writes out in full. Nothing after this
module opens the arrays.
-/
import Mathlib.Tactic
import SceneGrammar.World.Symbol

namespace SceneGrammar.World

variable {α κ σ : Type}

/-- the node above a node -/
def parentOf (w : World α κ σ) (n : NodeId) : Option NodeId := (w.node? n).bind (·.parent)

/-- the node of a shape -/
def homeOf (w : World α κ σ) (s : ShapeId) : Option NodeId := (w.shape? s).bind (·.node)

/-- where a shape's root is registered -/
def rootKeyAt (w : World α κ σ) (s : ShapeId) : Option NodeId := (w.shape? s).bind (·.rootKey)

/-- the log, apart from troubles of teardowns -/
def told (w : World α κ σ) : List Warning :=
  w.warnings.toList.filter fun
    | .cleanupFailed .. => false
    | _ => true

/-- what surrounds a scene: all that belongs to no node, shape or appointment, the record of events aside -/
structure Surroundings (α σ : Type) where
  sources : Array RandomSource
  ambient : SourceId
  entropy : Entropy
  templates : TemplateLibrary α
  eager : Bool
  live : Bool
  listeners : List (Node α → Option (Fault α))
  desk : Desk α
  user : σ
  told : List Warning

/-- what surrounds the scene of a world -/
def surroundings (w : World α κ σ) : Surroundings α σ :=
  ⟨w.sources, w.ambient, w.entropy, w.templates, w.eager, w.live, w.listeners, w.desk, w.user, w.told⟩

/-! ## Nodes -/

theorem node?_eq_none_iff {w : World α κ σ} {n : NodeId} : w.node? n = none ↔ n = 0 ∨ w.nodes.size < n := by
  cases n with
  | zero => simp [node?]
  | succ i => simp [node?]

theorem node?_of_size_lt {w : World α κ σ} {n : NodeId} (h : w.nodes.size < n) : w.node? n = none :=
  node?_eq_none_iff.2 (Or.inr h)

theorem le_size_of_node? {w : World α κ σ} {n : NodeId} {x : Node α} (h : w.node? n = some x) :
    0 < n ∧ n ≤ w.nodes.size := by
  have h' : ¬ (n = 0 ∨ w.nodes.size < n) := fun hc => by
    rw [node?_eq_none_iff.2 hc] at h
    exact absurd h (by simp)
  rw [not_or, not_lt] at h'
  exact ⟨Nat.pos_of_ne_zero h'.1, h'.2⟩

/-- look-ups see nothing but the array of nodes -/
theorem node?_congr {w v : World α κ σ} (h : w.nodes = v.nodes) (n : NodeId) : w.node? n = v.node? n := by
  cases n <;> simp [node?, h]

theorem node?_modifyNode (w : World α κ σ) (n m : NodeId) (f : Node α → Node α) :
    (w.modifyNode n f).node? m = if m = n then (w.node? m).map f else w.node? m := by
  cases n with
  | zero =>
    cases m <;> simp [modifyNode, node?]
  | succ i =>
    cases m with
    | zero => simp [node?]
    | succ j =>
      simp only [modifyNode, node?, Array.getElem?_modify]
      by_cases h : j = i
      · simp [h]
      · simp [h, Ne.symm h]

theorem size_modifyNode (w : World α κ σ) (n : NodeId) (f : Node α → Node α) :
    (w.modifyNode n f).nodes.size = w.nodes.size := by
  cases n <;> simp [modifyNode]

/-- `modifyNode` leaves everything but the nodes alone -/
theorem modifyNode_eq (w : World α κ σ) (n : NodeId) (f : Node α → Node α) :
    w.modifyNode n f = { w with nodes := (w.modifyNode n f).nodes } := by
  cases n <;> rfl

theorem node?_hang (w : World α κ σ) (n p m : NodeId) :
    (w.hang n p).node? m = (w.node? m).map fun x =>
      { x with
        parent := if m = n then some p else x.parent
        children := if m = p then x.children ++ [n] else x.children } := by
  rw [hang, node?_modifyNode, node?_modifyNode]
  cases w.node? m with
  | none => simp
  | some x => split_ifs <;> rfl

theorem hang_eq (w : World α κ σ) (n p : NodeId) : w.hang n p = { w with nodes := (w.hang n p).nodes } := by
  rw [hang, modifyNode_eq, modifyNode_eq w n]

theorem size_hang (w : World α κ σ) (n p : NodeId) : (w.hang n p).nodes.size = w.nodes.size := by
  rw [hang, size_modifyNode, size_modifyNode]

theorem node?_detach (w : World α κ σ) (n m : NodeId) :
    (w.detach n).node? m = (w.node? m).map fun x =>
      { x with
        parent := if m = n then none else x.parent
        children := if w.parentOf n = some m then x.children.erase n else x.children } := by
  unfold detach
  cases hp : (w.node? n).bind (·.parent) with
  | none =>
    have hp' : w.parentOf n = none := hp
    cases hx : w.node? m with
    | none => simp
    | some x =>
      by_cases hm : m = n
      · subst hm
        have hx' : x.parent = none := by simpa [hx] using hp
        rw [hp', Option.map_some, if_pos rfl, if_neg (by simp), ← hx']
      · simp [hp', hm]
  | some p =>
    have hp' : w.parentOf n = some p := hp
    simp only [node?_modifyNode, hp', Option.some.injEq, eq_comm (a := p)]
    cases w.node? m with
    | none => simp
    | some x => split_ifs <;> rfl

theorem detach_eq (w : World α κ σ) (n : NodeId) : w.detach n = { w with nodes := (w.detach n).nodes } := by
  unfold detach
  cases (w.node? n).bind (·.parent) with
  | none => rfl
  | some p => simp only; rw [modifyNode_eq, modifyNode_eq w p]

theorem size_detach (w : World α κ σ) (n : NodeId) : (w.detach n).nodes.size = w.nodes.size := by
  unfold detach
  cases (w.node? n).bind (·.parent) with
  | none => rfl
  | some p => simp only [size_modifyNode]

theorem node?_bury (w : World α κ σ) (n m : NodeId) :
    (w.bury n).node? m = (w.node? m).map fun x =>
      { x with
        parent := if m = n then none else x.parent
        children := if w.parentOf n = some m then x.children.erase n else x.children
        alive := if m = n then false else x.alive } := by
  have h : (w.bury n).node? m = ((w.detach n).modifyNode n fun x => { x with alive := false }).node? m :=
    node?_congr rfl m
  rw [h, node?_modifyNode, node?_detach]
  cases w.node? m with
  | none => simp
  | some x => split_ifs <;> rfl

theorem bury_eq (w : World α κ σ) (n : NodeId) :
    w.bury n = { w with
      nodes := (w.bury n).nodes, registry := w.registry.erase n, destroyed := w.destroyed + 1 } := by
  unfold bury
  rw [modifyNode_eq, detach_eq]

theorem size_bury (w : World α κ σ) (n : NodeId) : (w.bury n).nodes.size = w.nodes.size := by
  show ((w.detach n).modifyNode n _).nodes.size = _
  rw [size_modifyNode, size_detach]

/-! ## New nodes -/

theorem addNode_eq (w : World α κ σ) (name : String) (kind : NodeKind) (parent : Option NodeId) (pose : Pose α)
    (template : Option String) :
    w.addNode name kind parent pose template = { w with
      nodes := (w.addNode name kind parent pose template).nodes
      registry := w.nextId :: w.registry, created := w.created + 1 } := by
  cases parent with
  | none => rfl
  | some p => simp only [addNode]; rw [hang_eq]

theorem size_addNode (w : World α κ σ) (name : String) (kind : NodeKind) (parent : Option NodeId) (pose : Pose α)
    (template : Option String) : (w.addNode name kind parent pose template).nodes.size = w.nodes.size + 1 := by
  cases parent with
  | none => simp [addNode]
  | some p => simp [addNode, size_hang]

theorem node?_addNode (w : World α κ σ) (name : String) (kind : NodeKind) (parent : Option NodeId) (pose : Pose α)
    (template : Option String) (h : parent ≠ some w.nextId) (m : NodeId) :
    (w.addNode name kind parent pose template).node? m =
      if m = w.nextId then
        some { id := w.nextId, name, kind, parent, children := [], pose, template, shape := none, alive := true }
      else (w.node? m).map fun x =>
        { x with children := if parent = some m then x.children ++ [w.nextId] else x.children } := by
  have hpush (x : Node α) : ({ w with nodes := w.nodes.push x } : World α κ σ).node? m =
      if m = w.nextId then some x else w.node? m := by
    cases m with
    | zero => simp [node?, nextId]
    | succ i => simp [node?, nextId, Array.getElem?_push]
  cases parent with
  | none =>
    refine (node?_congr rfl m).trans ((hpush _).trans ?_)
    by_cases hm : m = w.nextId
    · simp [hm]
    · simp [hm]
  | some p =>
    have hp : ¬ (w.nextId = p) := fun hp => h (by rw [hp])
    show (hang _ _ _).node? m = _
    rw [node?_hang]
    refine (congrArg _ ((node?_congr rfl m).trans (hpush _))).trans ?_
    by_cases hm : m = w.nextId
    · simp [hm, hp]
    · simp only [hm, if_false, Option.some.injEq, eq_comm (a := p)]

/-! ## Shapes -/

theorem shape?_eq_none_iff {w : World α κ σ} {s : ShapeId} : w.shape? s = none ↔ w.shapes.size ≤ s := by
  simp [shape?]

theorem lt_size_of_shape? {w : World α κ σ} {s : ShapeId} {x : Shape α κ} (h : w.shape? s = some x) :
    s < w.shapes.size := by
  by_contra hc
  rw [shape?_eq_none_iff.2 (not_lt.1 hc)] at h
  exact absurd h (by simp)

theorem lt_size_of_homeOf {w : World α κ σ} {s : ShapeId} {n : NodeId} (h : w.homeOf s = some n) :
    s < w.shapes.size := by
  obtain ⟨x, hx, -⟩ := Option.bind_eq_some_iff.1 h
  exact lt_size_of_shape? hx

theorem nodeOf_eq_ok_iff [SymbolKind κ] {w : World α κ σ} {s : ShapeId} {n : NodeId} :
    w.nodeOf s = .ok n ↔ w.homeOf s = some n := by
  unfold nodeOf homeOf
  cases (w.shape? s).bind (·.node) <;> simp

theorem inContext_eq [SymbolKind κ] {w : World α κ σ} {s : ShapeId} {n : NodeId} (h : w.homeOf s = some n) :
    w.inContext s = .ok () := by
  rw [homeOf] at h
  rw [inContext, h]

/-- a shape finds the start symbol that is registered for its key -/
theorem rootOf_eq [SymbolKind κ] {w : World α κ σ} {s root : ShapeId} {n key : NodeId} (h : w.homeOf s = some n)
    (hkey : w.rootKeyAt s = some key) (hroot : w.registered? key = some root) : w.rootOf s = .ok root := by
  rw [rootKeyAt] at hkey
  rw [rootOf, inContext_eq h, hkey]
  show Except.ok ((w.registered? key).getD s) = _
  rw [hroot, Option.getD_some]

theorem sourceOf_eq [SymbolKind κ] {w : World α κ σ} {s root : ShapeId} (h : w.rootOf s = .ok root) :
    w.sourceOf s = .ok ((firstSource? (w.componentsOf root)).getD w.ambient) := by
  rw [sourceOf, h]
  rfl

theorem shape?_modifyShape (w : World α κ σ) (s t : ShapeId) (f : Shape α κ → Shape α κ) :
    (w.modifyShape s f).shape? t = if t = s then (w.shape? t).map f else w.shape? t := by
  simp only [shape?, modifyShape, Array.getElem?_modify]
  by_cases h : t = s
  · simp [h]
  · simp [h, Ne.symm h]

theorem shape?_addShape (w : World α κ σ) (kind : κ) (t : ShapeId) :
    (w.addShape kind).shape? t =
      if t = w.shapes.size then
        some { kind, node := none, rootKey := none, generated := none, components := [], state := .uninitialized }
      else w.shape? t := by
  simp [shape?, addShape, Array.getElem?_push]

section

variable (w : World α κ σ) (name : String) (kind : NodeKind) (parent : Option NodeId) (pose : Pose α)
  (template : Option String)

/-- a new node leaves the shapes alone -/
theorem addNode_shapes : (w.addNode name kind parent pose template).shapes = w.shapes := by rw [addNode_eq]

theorem shape?_addNode (s : ShapeId) : (w.addNode name kind parent pose template).shape? s = w.shape? s := by
  rw [shape?, addNode_shapes, shape?]

theorem homeOf_addNode (s : ShapeId) : (w.addNode name kind parent pose template).homeOf s = w.homeOf s := by
  rw [homeOf, shape?_addNode, homeOf]

theorem rootKeyAt_addNode (s : ShapeId) :
    (w.addNode name kind parent pose template).rootKeyAt s = w.rootKeyAt s := by
  rw [rootKeyAt, shape?_addNode, rootKeyAt]

theorem generatedBy_addNode (s : ShapeId) :
    (w.addNode name kind parent pose template).generatedBy s = w.generatedBy s := by
  rw [generatedBy, shape?_addNode, generatedBy]

end

theorem shape?_track (w : World α κ σ) (s t : ShapeId) (n : NodeId) :
    (w.track s n).shape? t = (w.shape? t).map fun x =>
      { x with generated := if t = s then some (x.generated.getD [] ++ [n]) else x.generated } := by
  show (w.modifyShape s _).shape? t = _
  rw [shape?_modifyShape]
  cases w.shape? t with
  | none => simp
  | some x => split_ifs <;> rfl

theorem shape?_bind (w : World α κ σ) (s t : ShapeId) (n : NodeId) (rootKey : Option NodeId) :
    (w.bind s n rootKey).shape? t = (w.shape? t).map fun x =>
      { x with
        node := if t = s then some n else x.node
        rootKey := if t = s then some (rootKey.getD n) else x.rootKey } := by
  have h : (w.bind s n rootKey).shape? t =
      (w.modifyShape s fun x => { x with node := some n, rootKey := some (rootKey.getD n) }).shape? t := by
    unfold bind; simp only; rw [modifyNode_eq]; rfl
  rw [h, shape?_modifyShape]
  cases w.shape? t with
  | none => simp
  | some x => split_ifs <;> rfl

theorem node?_bind (w : World α κ σ) (s : ShapeId) (n m : NodeId) (rootKey : Option NodeId) :
    (w.bind s n rootKey).node? m = (w.node? m).map fun x =>
      { x with
        shape := if m = n then some s else x.shape
        kind := if m = n then .symbol else x.kind } := by
  have h : (w.bind s n rootKey).node? m =
      (w.modifyNode n fun x => { x with shape := some s, kind := .symbol }).node? m := by
    cases n <;> exact node?_congr rfl m
  rw [h, node?_modifyNode]
  cases w.node? m with
  | none => simp
  | some x => split_ifs <;> rfl

theorem bind_eq (w : World α κ σ) (s : ShapeId) (n : NodeId) (rootKey : Option NodeId) :
    w.bind s n rootKey = { w with
      nodes := (w.bind s n rootKey).nodes, shapes := (w.bind s n rootKey).shapes, bound := enter n s w.bound } := by
  cases n <;> rfl

theorem size_bind (w : World α κ σ) (s : ShapeId) (n : NodeId) (rootKey : Option NodeId) :
    (w.bind s n rootKey).nodes.size = w.nodes.size ∧ (w.bind s n rootKey).shapes.size = w.shapes.size := by
  cases n <;> simp [bind, modifyNode, modifyShape]

/-- a table gets a new entry at its end for a node it does not hold -/
theorem enter_of_notMem {n : NodeId} {s : ShapeId} {l : List (NodeId × ShapeId)} (h : n ∉ l.map Prod.fst) :
    enter n s l = l ++ [(n, s)] := by
  induction l with
  | nil => rfl
  | cons p l ih =>
    obtain ⟨m, t⟩ := p
    simp only [List.map_cons, List.mem_cons, not_or] at h
    simp [enter, Ne.symm h.1, ih h.2]

/-- what is entered is looked up -/
theorem lookup_enter_self (n : NodeId) (s : ShapeId) (l : List (NodeId × ShapeId)) :
    (enter n s l).lookup n = some s := by
  induction l with
  | nil => simp [enter]
  | cons p l ih =>
    obtain ⟨k, t⟩ := p
    unfold enter
    split_ifs with hk
    · simp
    · rw [List.lookup_cons, beq_eq_false_iff_ne.2 (Ne.symm hk)]
      exact ih

/-- and the entries of other nodes stay -/
theorem lookup_enter {n m : NodeId} (h : m ≠ n) (s : ShapeId) (l : List (NodeId × ShapeId)) :
    (enter n s l).lookup m = l.lookup m := by
  induction l with
  | nil => simp [enter, List.lookup_cons, beq_eq_false_iff_ne.2 h]
  | cons p l ih =>
    obtain ⟨k, t⟩ := p
    unfold enter
    split_ifs with hk
    · have hmk : (m == k) = false := beq_eq_false_iff_ne.2 (hk ▸ h)
      simp [List.lookup_cons, hmk, beq_eq_false_iff_ne.2 h]
    · simp only [List.lookup_cons, ih]

end SceneGrammar.World

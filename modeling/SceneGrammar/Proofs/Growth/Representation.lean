/-
Subtrees in a world.

`Represents F ctx w P`: the world `w` holds the subtree `P` at the place `F`, which says how many nodes and shapes are
older than the subtree, where its root is, and which source the root draws from. Everything else in the world is left
open. One lemma per change of a world says that the same change of the subtree keeps it there.
-/
import SceneGrammar.Proofs.Growth.Recipe

namespace SceneGrammar

/-- where a subtree lies in a world, and what stays there while it grows -/
structure Placement (α : Type) where
  /-- nodes older than the subtree -/
  nodes : Nat
  /-- shapes older than the subtree -/
  shapes : Nat
  root : NodeId
  /-- the node of the root before anything has grown -/
  trunk : Node α
  rootShape : ShapeId
  source : SourceId
  seed : Int
  agenda : Agenda α
  desk : Desk α
  live : Bool

namespace Placement

variable {α κ : Type}

/-- the id of a grown node -/
def id (F : Placement α) (k : Nat) : NodeId := F.nodes + k + 1

/-- the id of a grown node, or of the root -/
def nodeAt (F : Placement α) : Option Nat → NodeId
  | none => F.root
  | some k => F.id k

/-- the id of a grown symbol, or of the root -/
def shapeAt (F : Placement α) : Option Nat → ShapeId
  | none => F.rootShape
  | some j => F.shapes + j

/-- a grown node as it stands in the world -/
def node (F : Placement α) (k : Nat) (x : Subtree.Node α) : Node α :=
  { id := F.id k, name := x.name, kind := x.kind, parent := some (F.nodeAt x.parent), children := x.children.map F.id
    pose := x.pose, template := x.template, shape := x.shape.map (F.shapes + ·), alive := true }

/-- a grown symbol as it stands in the world -/
def shape (F : Placement α) (x : Subtree.Shape κ) : Shape α κ :=
  { kind := x.kind, node := some (F.id x.node), rootKey := some F.root, generated := x.generated.map (List.map F.id)
    components := [], state := x.state }

theorem id_injective (F : Placement α) : Function.Injective F.id := fun _ _ h => Nat.add_left_cancel (Nat.succ.inj h)

end Placement

namespace Subtree

variable {α κ : Type}

/-- a subtree whose links stay within it and lead to younger nodes -/
structure Sound (P : Subtree α κ) : Prop where
  homes : ∀ (j : Nat) (x : Subtree.Shape κ), P.shapes[j]? = some x → x.node < P.nodes.length
  young : ∀ (k : Nat) (x : Subtree.Node α), P.nodes[k]? = some x → ∀ c ∈ x.children, k < c ∧ c < P.nodes.length
  old : ∀ (k : Nat) (x : Subtree.Node α), P.nodes[k]? = some x → ∀ p, x.parent = some p → p < k
  top : ∀ k ∈ P.top, k < P.nodes.length

theorem Sound.home_lt {P : Subtree α κ} (h : P.Sound) (self : Option Nat) :
    ∀ p, P.home self = some p → p < P.nodes.length := by
  intro p hp
  obtain ⟨j, -, hj⟩ := Option.bind_eq_some_iff.1 hp
  obtain ⟨x, hx, rfl⟩ := Option.map_eq_some_iff.1 hj
  exact h.homes j x hx

theorem getElem?_concat {β : Type} (l : List β) (x : β) (k : Nat) :
    (l ++ [x])[k]? = if k = l.length then some x else l[k]? := by
  rcases Nat.lt_trichotomy k l.length with hk | rfl | hk
  · rw [List.getElem?_append_left hk, if_neg hk.ne]
  · rw [List.getElem?_concat_length, if_pos rfl]
  · rw [if_neg hk.ne', List.getElem?_eq_none hk.le, List.getElem?_eq_none]
    rw [List.length_append, List.length_singleton]
    exact hk

section

variable (P : Subtree α κ) (name : String) (kind : NodeKind) (parent : Option Nat) (pose : Pose α)
  (template : Option String) (shape : Option Nat)

theorem length_addNode : (P.addNode name kind parent pose template shape).nodes.length = P.nodes.length + 1 := by
  cases parent <;> simp [addNode]

theorem getElem?_addNode (k : Nat) : (P.addNode name kind parent pose template shape).nodes[k]? =
    if k = P.nodes.length then some ⟨name, kind, parent, [], pose, template, shape⟩
    else (P.nodes[k]?).map fun x =>
      { x with children := if parent = some k then x.children ++ [P.nodes.length] else x.children } := by
  cases parent with
  | none =>
    refine (getElem?_concat _ _ k).trans ?_
    cases P.nodes[k]? <;> simp
  | some p =>
    refine (getElem?_concat _ _ k).trans ?_
    rw [List.length_modify, List.getElem?_modify]
    by_cases hp : p = k
    · cases P.nodes[k]? <;> simp [hp]
    · cases P.nodes[k]? <;> simp [hp]

/-- a node leaves the symbols, what the root has made, and the draws alone -/
theorem shapes_addNode :
    (P.addNode name kind parent pose template shape).shapes = P.shapes ∧
      (P.addNode name kind parent pose template shape).top = P.top ∧
      (P.addNode name kind parent pose template shape).draws = P.draws := by
  cases parent <;> exact ⟨rfl, rfl, rfl⟩

theorem length_addSymbol (kind : κ) : (P.addSymbol kind name parent pose).nodes.length = P.nodes.length + 1 :=
  length_addNode P name .symbol parent pose none (some P.shapes.length)

theorem getElem?_addSymbol (kind : κ) (j : Nat) : (P.addSymbol kind name parent pose).shapes[j]? =
    if j = P.shapes.length then some ⟨kind, P.nodes.length, none, .uninitialized⟩ else P.shapes[j]? :=
  getElem?_concat _ _ j

end

end Subtree

namespace World

variable {α κ σ : Type}

/-- what of a world the rules of a grammar read or leave alone -/
structure Setting (α : Type) where
  templates : TemplateLibrary α
  eager : Bool
  live : Bool
  agenda : Agenda α
  desk : Desk α

/-- the setting of a world -/
def setting (w : World α κ σ) : Setting α := ⟨w.templates, w.eager, w.live, w.agenda, w.desk⟩

/-- a world that holds a subtree -/
structure Represents (F : Placement α) (ctx : GrowthContext α κ) (w : World α κ σ) (P : Subtree α κ) : Prop where
  sound : P.Sound
  nodes_size : w.nodes.size = F.nodes + P.nodes.length
  shapes_size : w.shapes.size = F.shapes + P.shapes.length
  node : ∀ (k : Nat) (x : Subtree.Node α), P.nodes[k]? = some x → w.node? (F.id k) = some (F.node k x)
  shape : ∀ (j : Nat) (x : Subtree.Shape κ), P.shapes[j]? = some x → w.shape? (F.shapes + j) = some (F.shape x)
  older : F.root ≤ F.nodes ∧ F.rootShape < F.shapes
  trunk : w.node? F.root = some { F.trunk with children := F.trunk.children ++ P.stems.map F.id }
  trunk_alive : F.trunk.alive = true
  root : ∃ x, w.shape? F.rootShape = some x ∧ x.kind = ctx.kind ∧ x.node = some F.root ∧ x.rootKey = some F.root ∧
    firstSource? x.components = some F.source ∧ firstRelief? x.components = ctx.relief
  top : w.generatedBy F.rootShape = P.top.map F.id
  registered : w.registered? F.root = some F.rootShape
  source : w.sources[F.source]? = some ⟨F.seed, some ctx.key, P.draws⟩
  setting : w.setting = ⟨ctx.templates, ctx.eager, F.live, F.agenda, F.desk⟩

section

variable {F : Placement α} {ctx : GrowthContext α κ} {w v : World α κ σ} {P : Subtree α κ}

/-! ## What is looked up -/

theorem Represents.templates (h : Represents F ctx w P) : w.templates = ctx.templates := congrArg (·.templates) h.setting

theorem Represents.eager (h : Represents F ctx w P) : w.eager = ctx.eager := congrArg (·.eager) h.setting

theorem Represents.root_alive (h : Represents F ctx w P) : w.isAlive F.root = true :=
  isAlive_iff.2 ⟨_, h.trunk, h.trunk_alive⟩

theorem Represents.nextId (h : Represents F ctx w P) : w.nextId = F.id P.nodes.length := by
  rw [World.nextId, h.nodes_size, Placement.id]

theorem Represents.alive (h : Represents F ctx w P) {parent : Option Nat}
    (hp : ∀ p, parent = some p → p < P.nodes.length) :
    w.isAlive (F.nodeAt parent) = true := by
  cases parent with
  | none => exact h.root_alive
  | some p =>
    obtain ⟨x, hx⟩ : ∃ x, P.nodes[p]? = some x := ⟨_, List.getElem?_eq_getElem (hp p rfl)⟩
    exact isAlive_iff.2 ⟨_, h.node p x hx, rfl⟩

/-- a symbol of the subtree, or the root -/
def Within (P : Subtree α κ) (self : Option Nat) : Prop := ∀ j, self = some j → j < P.shapes.length

theorem Within.mono {Q : Subtree α κ} {self : Option Nat} (hs : Within P self)
    (hle : P.shapes.length ≤ Q.shapes.length) : Within Q self := fun j hj => (hs j hj).trans_le hle

theorem Represents.homeOf (h : Represents F ctx w P) {self : Option Nat} (hs : Within P self) :
    w.homeOf (F.shapeAt self) = some (F.nodeAt (P.home self)) := by
  cases self with
  | none =>
    obtain ⟨x, hx, -, hn, -⟩ := h.root
    rw [World.homeOf, Placement.shapeAt, hx]
    exact hn
  | some j =>
    obtain ⟨x, hx⟩ : ∃ x, P.shapes[j]? = some x := ⟨_, List.getElem?_eq_getElem (hs j rfl)⟩
    rw [World.homeOf, Placement.shapeAt, h.shape j _ hx]
    show some (F.id x.node) = some (F.nodeAt ((P.shapes[j]?).map (·.node)))
    rw [hx]
    rfl

theorem Represents.rootKeyAt (h : Represents F ctx w P) {self : Option Nat} (hs : Within P self) :
    w.rootKeyAt (F.shapeAt self) = some F.root := by
  cases self with
  | none =>
    obtain ⟨x, hx, -, -, hr, -⟩ := h.root
    rw [World.rootKeyAt, Placement.shapeAt, hx]
    exact hr
  | some j =>
    obtain ⟨x, hx⟩ : ∃ x, P.shapes[j]? = some x := ⟨_, List.getElem?_eq_getElem (hs j rfl)⟩
    rw [World.rootKeyAt, Placement.shapeAt, h.shape j _ hx]
    rfl

theorem Represents.rootOf [SymbolKind κ] (h : Represents F ctx w P) {self : Option Nat} (hs : Within P self) :
    w.rootOf (F.shapeAt self) = .ok F.rootShape := rootOf_eq (h.homeOf hs) (h.rootKeyAt hs) h.registered

theorem Represents.sourceOf [SymbolKind κ] (h : Represents F ctx w P) {self : Option Nat} (hs : Within P self) :
    w.sourceOf (F.shapeAt self) = .ok F.source := by
  obtain ⟨x, hx, -, -, -, hsource, -⟩ := h.root
  have hcs : w.componentsOf F.rootShape = x.components := by rw [componentsOf, hx]; rfl
  rw [sourceOf_eq (h.rootOf hs), hcs, hsource, Option.getD_some]

theorem Represents.reliefOf [SymbolKind κ] (h : Represents F ctx w P) {self : Option Nat} (hs : Within P self) :
    w.reliefOf (F.shapeAt self) = .ok ctx.relief := by
  obtain ⟨x, hx, -, -, -, -, hrelief⟩ := h.root
  have hcs : w.componentsOf F.rootShape = x.components := by rw [componentsOf, hx]; rfl
  unfold World.reliefOf
  rw [h.rootOf hs]
  show Except.ok (firstRelief? (w.componentsOf F.rootShape)) = _
  rw [hcs, hrelief]

/-! ## Changes apart from the subtree -/

/-- what a subtree does not see may change -/
theorem Represents.frame (h : Represents F ctx w P) (hn : v.nodes = w.nodes) (hs : v.shapes = w.shapes)
    (hb : v.registered? F.root = w.registered? F.root) (hr : v.sources = w.sources) (ht : v.setting = w.setting) :
    Represents F ctx v P := by
  have hshape (s : ShapeId) : v.shape? s = w.shape? s := by rw [shape?, hs, shape?]
  refine ⟨h.sound, ?_, ?_, fun k x hx => ?_, fun j x hx => ?_, h.older, ?_, h.trunk_alive, ?_, ?_, ?_, ?_, ?_⟩
  · rw [hn, h.nodes_size]
  · rw [hs, h.shapes_size]
  · rw [node?_congr hn, h.node k x hx]
  · rw [hshape, h.shape j x hx]
  · rw [node?_congr hn, h.trunk]
  · rw [hshape]
    exact h.root
  · rw [generatedBy, hshape]
    exact h.top
  · rw [hb, h.registered]
  · rw [hr, h.source]
  · rw [ht, h.setting]

/-- a draw -/
theorem Represents.draw (h : Represents F ctx w P) (n : Nat) (e : Entropy) :
    Represents F ctx (w.setSource F.source ⟨F.seed, some ctx.key, n⟩ e) { P with draws := n } := by
  refine
    { sound := ⟨h.sound.homes, h.sound.young, h.sound.old, h.sound.top⟩, nodes_size := h.nodes_size
      shapes_size := h.shapes_size, node := h.node, shape := h.shape, older := h.older, trunk := h.trunk
      trunk_alive := h.trunk_alive, root := h.root, top := h.top, registered := h.registered, source := ?_
      setting := h.setting }
  have hlt : F.source < w.sources.size := (Array.getElem?_eq_some_iff.1 h.source).1
  simp [setSource, hlt]

/-- what stays as it is while a subtree grows may change afterwards -/
theorem Represents.reset (h : Represents F ctx w P) (live : Bool) (agenda : Agenda α) (desk : Desk α) :
    Represents { F with live, agenda, desk } ctx { w with live, agenda, desk } P :=
  { sound := h.sound, nodes_size := h.nodes_size, shapes_size := h.shapes_size, node := h.node, shape := h.shape
    older := h.older, trunk := h.trunk, trunk_alive := h.trunk_alive, root := h.root, top := h.top
    registered := h.registered, source := h.source
    setting := by rw [World.setting, h.templates, h.eager] }

/-! ## Changes of the subtree -/

/-- the nodes of a subtree after a node came under one of them, or under the root -/
theorem Represents.nodes_addNode (h : Represents F ctx w P) {x : Node α} (a : Adds w v x) {name : String}
    {kind : NodeKind} {parent : Option Nat} {pose : Pose α} {template : Option String} {shape : Option Nat}
    (hx : x = F.node P.nodes.length ⟨name, kind, parent, [], pose, template, shape⟩) (k : Nat) (y : Subtree.Node α)
    (hy : (P.addNode name kind parent pose template shape).nodes[k]? = some y) :
    v.node? (F.id k) = some (F.node k y) := by
  rw [Subtree.getElem?_addNode] at hy
  rw [a.node, h.nextId]
  by_cases hk : k = P.nodes.length
  · rw [if_pos hk] at hy
    rw [if_pos (congrArg F.id hk), hx, hk, Option.some.inj hy]
  · rw [if_neg hk] at hy
    obtain ⟨z, hz, rfl⟩ := Option.map_eq_some_iff.1 hy
    rw [if_neg fun hc => hk (F.id_injective hc), h.node k z hz]
    -- the new node hangs under this one in the world iff it does in the subtree
    have hpar : x.parent = some (F.id k) ↔ parent = some k := by
      rw [hx]
      cases parent with
      | none =>
        refine iff_of_false (fun hc => ?_) (by simp)
        have hlt : F.root < F.id k := Nat.lt_succ_of_le (h.older.1.trans (Nat.le_add_right _ _))
        exact absurd (Option.some.inj hc) hlt.ne
      | some p => simp [Placement.node, Placement.nodeAt, F.id_injective.eq_iff]
    by_cases hc : parent = some k
    · simp [Placement.node, hpar, hc]
    · simp [Placement.node, hpar, hc]

/-- the root's node after a node came under a grown one, or under the root -/
theorem Represents.trunk_addNode (h : Represents F ctx w P) {x : Node α} (a : Adds w v x) {name : String}
    {kind : NodeKind} {parent : Option Nat} {pose : Pose α} {template : Option String} {shape : Option Nat}
    (hx : x.parent = some (F.nodeAt parent)) : v.node? F.root = some { F.trunk with
      children := F.trunk.children ++ (P.addNode name kind parent pose template shape).stems.map F.id } := by
  have hne : F.root ≠ w.nextId := nextId_ne (le_size_of_isAlive h.root_alive)
  rw [a.node, if_neg hne, h.trunk, hx]
  cases parent with
  | none => simp [Placement.nodeAt, Subtree.addNode, h.nextId]
  | some p =>
    have hlt : F.root < F.id p := Nat.lt_succ_of_le (h.older.1.trans (Nat.le_add_right _ _))
    simp [Placement.nodeAt, Subtree.addNode, hlt.ne']

theorem Subtree.sound_addNode (h : P.Sound) (name : String) (kind : NodeKind) {parent : Option Nat} (pose : Pose α)
    (template : Option String) (shape : Option Nat) (hp : ∀ p, parent = some p → p < P.nodes.length) :
    (P.addNode name kind parent pose template shape).Sound := by
  have hlen := Subtree.length_addNode P name kind parent pose template shape
  obtain ⟨hshapes, htop, -⟩ := Subtree.shapes_addNode P name kind parent pose template shape
  refine ⟨fun j x hx => ?_, fun k x hx c hc => ?_, fun k x hx p hpar => ?_, fun k hk => ?_⟩
  · rw [hshapes] at hx
    rw [hlen]
    exact (h.homes j x hx).trans (Nat.lt_succ_self _)
  · rw [Subtree.getElem?_addNode] at hx
    rw [hlen]
    by_cases hk : k = P.nodes.length
    · rw [if_pos hk] at hx
      rw [← Option.some.inj hx] at hc
      exact absurd hc (by simp)
    · rw [if_neg hk] at hx
      obtain ⟨y, hy, rfl⟩ := Option.map_eq_some_iff.1 hx
      have hklt : k < P.nodes.length := (List.getElem?_eq_some_iff.1 hy).1
      have hold (hc : c ∈ y.children) : k < c ∧ c < P.nodes.length + 1 :=
        ⟨(h.young k y hy c hc).1, (h.young k y hy c hc).2.trans (Nat.lt_succ_self _)⟩
      by_cases hp : parent = some k
      · simp only [hp, if_true, List.mem_append, List.mem_singleton] at hc
        rcases hc with hc | rfl
        · exact hold hc
        · exact ⟨hklt, Nat.lt_succ_self _⟩
      · simp only [hp, if_false] at hc
        exact hold hc
  · rw [Subtree.getElem?_addNode] at hx
    by_cases hk : k = P.nodes.length
    · rw [if_pos hk] at hx
      rw [← Option.some.inj hx] at hpar
      exact hk ▸ hp p hpar
    · rw [if_neg hk] at hx
      obtain ⟨y, hy, rfl⟩ := Option.map_eq_some_iff.1 hx
      exact h.old k y hy p hpar
  · rw [htop] at hk
    rw [hlen]
    exact (h.top k hk).trans (Nat.lt_succ_self _)

theorem Subtree.sound_addSymbol (h : P.Sound) (kind : κ) (name : String) {parent : Option Nat} (pose : Pose α)
    (hp : ∀ p, parent = some p → p < P.nodes.length) : (P.addSymbol kind name parent pose).Sound := by
  have hs := Subtree.sound_addNode h name .symbol pose none (some P.shapes.length) hp
  refine ⟨fun j x hx => ?_, hs.young, hs.old, hs.top⟩
  rw [Subtree.getElem?_addSymbol] at hx
  rw [Subtree.length_addSymbol]
  split_ifs at hx
  · rw [← Option.some.inj hx]
    exact Nat.lt_succ_self _
  · exact (h.homes j x hx).trans (Nat.lt_succ_self _)

/-- a node under a grown one or under the root -/
theorem Represents.addNode (h : Represents F ctx w P) (name : String) (kind : NodeKind) {parent : Option Nat}
    (pose : Pose α) (template : Option String) (hp : ∀ p, parent = some p → p < P.nodes.length) :
    Represents F ctx (w.addNode name kind (some (F.nodeAt parent)) pose template)
      (P.addNode name kind parent pose template none) := by
  have a := adds_addNode w name kind (some (F.nodeAt parent)) pose template
    (fun p hpar => Option.some.inj hpar ▸ h.alive hp)
  obtain ⟨hshapes, htop, hdraws⟩ := Subtree.shapes_addNode P name kind parent pose template none
  have hshape := shape?_addNode w name kind (some (F.nodeAt parent)) pose template
  refine ⟨Subtree.sound_addNode h.sound _ _ _ _ _ hp, ?_, ?_, ?_, fun j x hx => ?_, h.older, ?_, h.trunk_alive, ?_, ?_,
    ?_, ?_, ?_⟩
  · rw [a.size, h.nodes_size, Subtree.length_addNode, Nat.add_assoc]
  · rw [hshapes, addNode_shapes]
    exact h.shapes_size
  · refine h.nodes_addNode a ?_
    rw [h.nextId]
    rfl
  · rw [hshape, h.shape j x (hshapes ▸ hx)]
  · exact h.trunk_addNode a rfl
  · rw [hshape]
    exact h.root
  · rw [generatedBy, hshape, htop]
    exact h.top
  · rw [addNode_eq]
    exact h.registered
  · rw [hdraws, addNode_eq]
    exact h.source
  · rw [addNode_eq]
    exact h.setting

/-- a symbol under a grown node or under the root -/
theorem Represents.addSymbol (h : Represents F ctx w P) (kind : κ) (name : String) {parent : Option Nat} (pose : Pose α)
    (hp : ∀ p, parent = some p → p < P.nodes.length) :
    Represents F ctx (w.seat kind name (some (F.nodeAt parent)) pose (some F.root))
      (P.addSymbol kind name parent pose) := by
  have a := adds_seat w kind name (some (F.nodeAt parent)) pose (some F.root)
    (fun p hpar => Option.some.inj hpar ▸ h.alive hp)
  obtain ⟨-, htop, hdraws⟩ := Subtree.shapes_addNode P name .symbol parent pose none (some P.shapes.length)
  have hold (s : ShapeId) (hlt : s < w.shapes.size) :
      (w.seat kind name (some (F.nodeAt parent)) pose (some F.root)).shape? s = w.shape? s := by
    rw [shape?_seat, if_neg hlt.ne]
  have hroot : F.rootShape < w.shapes.size := by
    rw [h.shapes_size]
    exact h.older.2.trans_le (Nat.le_add_right _ _)
  have hsur := surroundings_seat w kind name (some (F.nodeAt parent)) pose (some F.root)
  have hagenda := agenda_seat w kind name (some (F.nodeAt parent)) pose (some F.root)
  simp only [surroundings, Surroundings.mk.injEq] at hsur
  refine ⟨Subtree.sound_addSymbol h.sound kind name pose hp, ?_, ?_, ?_, fun j x hx => ?_, h.older, ?_, h.trunk_alive,
    ?_, ?_, ?_, ?_, ?_⟩
  · rw [a.size, h.nodes_size, Subtree.length_addSymbol, Nat.add_assoc]
  · rw [size_seat, h.shapes_size]
    simp [Subtree.addSymbol, Nat.add_assoc]
  · refine h.nodes_addNode a ?_
    rw [h.nextId, h.shapes_size]
    rfl
  · rw [Subtree.getElem?_addSymbol] at hx
    split_ifs at hx with hj
    · rw [shape?_seat, if_pos (hj ▸ h.shapes_size.symm), h.nextId, ← Option.some.inj hx]
      rfl
    · have hlt : j < P.shapes.length := (List.getElem?_eq_some_iff.1 hx).1
      rw [hold _ (h.shapes_size ▸ Nat.add_lt_add_left hlt _), h.shape j x hx]
  · exact h.trunk_addNode a rfl
  · rw [hold _ hroot]
    exact h.root
  · rw [generatedBy_seat]
    simp only [Subtree.addSymbol, htop]
    exact h.top
  · have hne : F.root ≠ w.nextId := nextId_ne (le_size_of_isAlive h.root_alive)
    rw [registered?_seat, if_neg hne]
    exact h.registered
  · rw [hsur.1]
    simp only [Subtree.addSymbol, hdraws]
    exact h.source
  · rw [World.setting, hsur.2.2.2.1, hsur.2.2.2.2.1, hsur.2.2.2.2.2.1, hsur.2.2.2.2.2.2.2.1, hagenda]
    exact h.setting

/-- a change of the shapes alone that the subtree goes along with -/
theorem Represents.modifyShape (h : Represents F ctx w P) {self : Option Nat} (hs : Within P self)
    {f : Shape α κ → Shape α κ} {Q : Subtree α κ} (hn : Q.nodes = P.nodes) (hm : Q.stems = P.stems)
    (hd : Q.draws = P.draws)
    (hlen : Q.shapes.length = P.shapes.length) (htop : ∀ k ∈ Q.top, k < P.nodes.length)
    (keep : ∀ x, (f x).kind = x.kind ∧ (f x).node = x.node ∧ (f x).rootKey = x.rootKey ∧
      (f x).components = x.components)
    (grown : ∀ j y, Q.shapes[j]? = some y → ∃ x, P.shapes[j]? = some x ∧ y.node = x.node ∧
      F.shape y = if self = some j then f (F.shape x) else (F.shape x : Shape α κ))
    (list : (w.modifyShape (F.shapeAt self) f).generatedBy F.rootShape = Q.top.map F.id) :
    Represents F ctx (w.modifyShape (F.shapeAt self) f) Q := by
  refine ⟨⟨fun j y hy => ?_, ?_, ?_, ?_⟩, ?_, ?_, ?_, fun j y hy => ?_, h.older, ?_, h.trunk_alive, ?_, list, h.registered,
    ?_, h.setting⟩
  · obtain ⟨x, hx, hnode, -⟩ := grown j y hy
    rw [hn, hnode]
    exact h.sound.homes j x hx
  · rw [hn]
    exact h.sound.young
  · rw [hn]
    exact h.sound.old
  · rw [hn]
    exact htop
  · rw [hn]
    exact h.nodes_size
  · rw [hlen]
    simpa [World.modifyShape] using h.shapes_size
  · rw [hn]
    exact h.node
  · obtain ⟨x, hx, -, hshape⟩ := grown j y hy
    rw [shape?_modifyShape, h.shape j x hx, hshape]
    by_cases hself : self = some j
    · rw [if_pos hself, if_pos (by rw [hself]; rfl)]
      rfl
    · rw [if_neg hself, if_neg]
      intro hc
      cases self with
      | none => exact absurd hc (h.older.2.trans_le (Nat.le_add_right _ _)).ne'
      | some i => exact hself (congrArg some (Nat.add_left_cancel hc).symm)
  · rw [hm]
    exact h.trunk
  · obtain ⟨x, hx, hrest⟩ := h.root
    rw [shape?_modifyShape, hx]
    split_ifs
    · obtain ⟨h1, h2, h3, h4⟩ := keep x
      exact ⟨f x, rfl, by rw [h1, h2, h3, h4]; exact hrest⟩
    · exact ⟨x, rfl, hrest⟩
  · rw [hd]
    exact h.source

/-- a node comes on the list of a grown symbol, or of the root -/
theorem Represents.track (h : Represents F ctx w P) {self : Option Nat} (hs : Within P self) {k : Nat}
    (hk : k < P.nodes.length) : Represents F ctx (w.track (F.shapeAt self) (F.id k)) (P.track self k) := by
  have hrootlt : F.rootShape < w.shapes.size := by
    rw [h.shapes_size]
    exact h.older.2.trans_le (Nat.le_add_right _ _)
  have hmod : Represents F ctx (w.modifyShape (F.shapeAt self) fun x =>
      { x with generated := some (x.generated.getD [] ++ [F.id k]) }) (P.track self k) := by
    have hlist (t : ShapeId) := generatedBy_track w (F.shapeAt self) t (F.id k)
    cases self with
    | none =>
      refine h.modifyShape hs rfl rfl rfl rfl (fun c hc => ?_) (fun _ => ⟨rfl, rfl, rfl, rfl⟩)
        (fun j y hy => ⟨y, hy, rfl, rfl⟩) ?_
      · rcases List.mem_append.1 hc with hc | hc
        · exact h.sound.top c hc
        · exact List.mem_singleton.1 hc ▸ hk
      · refine (hlist F.rootShape hrootlt).trans ?_
        rw [if_pos (show F.rootShape = F.shapeAt none from rfl), h.top]
        simp [Subtree.track]
    | some i =>
      have hilt : F.shapes + i < w.shapes.size := by
        rw [h.shapes_size]
        exact Nat.add_lt_add_left (hs i rfl) _
      refine h.modifyShape hs rfl rfl rfl (by simp [Subtree.track]) h.sound.top (fun _ => ⟨rfl, rfl, rfl, rfl⟩)
        (fun j y hy => ?_) ?_
      · simp only [Subtree.track, List.getElem?_modify] at hy
        obtain ⟨x, hx, rfl⟩ := Option.map_eq_some_iff.1 hy
        refine ⟨x, hx, ?_, ?_⟩
        · split_ifs <;> rfl
        · by_cases hij : i = j
          · subst hij
            cases hg : x.generated <;> simp [Placement.shape, hg]
          · simp [Placement.shape, hij]
      · refine (hlist F.rootShape hilt).trans ?_
        rw [if_neg, h.top]
        · rfl
        · exact (h.older.2.trans_le (Nat.le_add_right _ _)).ne
  exact hmod.frame rfl rfl rfl rfl rfl

/-- the rule of a grown symbol is about to run -/
theorem Represents.markExpanded (h : Represents F ctx w P) {i : Nat} (hi : i < P.shapes.length) :
    Represents F ctx (w.markExpanded (F.shapes + i)) (P.markExpanded i) := by
  have hs : Within P (some i) := fun j hj => Option.some.inj hj ▸ hi
  have hmod : Represents F ctx (w.modifyShape (F.shapeAt (some i)) fun x => { x with state := .expanded })
      (P.markExpanded i) := by
    refine h.modifyShape hs rfl rfl rfl (by simp [Subtree.markExpanded]) h.sound.top (fun _ => ⟨rfl, rfl, rfl, rfl⟩)
      (fun j y hy => ?_) ?_
    · simp only [Subtree.markExpanded, List.getElem?_modify] at hy
      obtain ⟨x, hx, rfl⟩ := Option.map_eq_some_iff.1 hy
      refine ⟨x, hx, ?_, ?_⟩
      · split_ifs <;> rfl
      · by_cases hij : i = j <;> simp [Placement.shape, hij]
    · have hne : F.rootShape ≠ F.shapeAt (some i) := (h.older.2.trans_le (Nat.le_add_right _ _)).ne
      rw [generatedBy, shape?_modifyShape, if_neg hne]
      exact h.top
  exact hmod.frame rfl rfl rfl rfl rfl

/-- the rule of the root is about to run -/
theorem Represents.markRoot (h : Represents F ctx w P) : Represents F ctx (w.markExpanded F.rootShape) P := by
  have hmod : Represents F ctx (w.modifyShape (F.shapeAt none) fun x => { x with state := .expanded }) P := by
    refine h.modifyShape (fun j hj => absurd hj (by simp)) rfl rfl rfl rfl h.sound.top (fun _ => ⟨rfl, rfl, rfl, rfl⟩)
      (fun j y hy => ⟨y, hy, rfl, rfl⟩) ?_
    rw [generatedBy, shape?_modifyShape, if_pos (show F.rootShape = F.shapeAt none from rfl), ← h.top, generatedBy]
    cases w.shape? F.rootShape <;> rfl
  exact hmod.frame rfl rfl rfl rfl rfl

/-- a living start symbol that has generated nothing, whose source has drawn nothing since it was started -/
structure Unexpanded (w : World α κ σ) (ctx : GrowthContext α κ) (s : ShapeId) (n : NodeId) (trunk : Node α)
    (i : SourceId) (seed : Int) : Prop where
  shape : ∃ x, w.shape? s = some x ∧ x.kind = ctx.kind ∧ x.node = some n ∧ x.rootKey = some n ∧
    firstSource? x.components = some i ∧ firstRelief? x.components = ctx.relief
  node : w.node? n = some trunk
  alive : trunk.alive = true
  bare : w.generatedBy s = []
  source : w.sources[i]? = some ⟨seed, some ctx.key, 0⟩
  templates : w.templates = ctx.templates
  eager : w.eager = ctx.eager

/-- where a subtree under a root begins -/
def placement (w : World α κ σ) (s : ShapeId) (n : NodeId) (trunk : Node α) (i : SourceId) (seed : Int) : Placement α :=
  ⟨w.nodes.size, w.shapes.size, n, trunk, s, i, seed, w.agenda, w.desk, w.live⟩

/-- a bare subtree lies under such a symbol -/
theorem Unexpanded.represents {s : ShapeId} {n : NodeId} {trunk : Node α} {i : SourceId} {seed : Int} (h : World.Sound w)
    (f : Unexpanded w ctx s n trunk i seed) : Represents (w.placement s n trunk i seed) ctx w .bare where
  sound := ⟨by simp [Subtree.bare], by simp [Subtree.bare], by simp [Subtree.bare], by simp [Subtree.bare]⟩
  nodes_size := rfl
  shapes_size := rfl
  node := by simp [Subtree.bare]
  shape := by simp [Subtree.bare]
  older := by
    obtain ⟨x, hx, -⟩ := f.shape
    exact ⟨(le_size_of_node? f.node).2, lt_size_of_shape? hx⟩
  trunk := by simp [Subtree.bare, placement, f.node]
  trunk_alive := f.alive
  root := f.shape
  top := f.bare
  registered := by
    obtain ⟨x, hx, -, hn, -⟩ := f.shape
    have hhome : w.homeOf s = some n := by rw [World.homeOf, hx]; exact hn
    refine (registered?_eq_some_iff h.bound_nodup).2 ((h.mem_bound n s).2 ⟨?_, h.on_home s n hhome⟩)
    exact isAlive_iff.2 ⟨trunk, f.node, f.alive⟩
  source := f.source
  setting := by rw [setting, f.templates, f.eager]; rfl

/-! ## Copies of templates -/

section

variable [Scalar α]

mutual

theorem Represents.plant (t : Template α) {w : World α κ σ} {P : Subtree α κ} (h : Represents F ctx w P)
    (parent : Option Nat) (pose : Pose α) (hp : ∀ p, parent = some p → p < P.nodes.length) :
    Represents F ctx (w.plant t (some (F.nodeAt parent)) pose) (P.plant t parent pose) ∧
      P.nodes.length < (P.plant t parent pose).nodes.length ∧
      (P.plant t parent pose).shapes = P.shapes := by
  match t with
  | ⟨id, name, parts, offset, tags⟩ =>
    rw [World.plant, Subtree.plant, h.nextId]
    have hadd := h.addNode (if name = "" then id else name) .terminal pose (some id) hp
    have hlen := Subtree.length_addNode P (if name = "" then id else name) .terminal parent pose (some id) none
    have hshapes := (Subtree.shapes_addNode P (if name = "" then id else name) .terminal parent pose (some id) none).1
    obtain ⟨hb, hle, hsh⟩ := hadd.plantParts parts P.nodes.length (by rw [hlen]; exact Nat.lt_succ_self _)
    refine ⟨hb, ?_, hsh.trans hshapes⟩
    rw [hlen] at hle
    exact hle

theorem Represents.plantParts (ts : List (Template α)) {w : World α κ σ} {P : Subtree α κ} (h : Represents F ctx w P)
    (under : Nat) (hp : under < P.nodes.length) :
    Represents F ctx (w.plantParts ts (F.id under)) (P.plantParts ts under) ∧
      P.nodes.length ≤ (P.plantParts ts under).nodes.length ∧ (P.plantParts ts under).shapes = P.shapes := by
  match ts with
  | [] =>
    rw [World.plantParts, Subtree.plantParts]
    exact ⟨h, le_rfl, rfl⟩
  | t :: ts =>
    rw [World.plantParts, Subtree.plantParts]
    obtain ⟨hb, hlt, hsh⟩ := h.plant t (some under) (.displaced t.offset) (by rintro p ⟨⟩; exact hp)
    obtain ⟨hb', hle, hsh'⟩ := hb.plantParts ts under (hp.trans hlt)
    exact ⟨hb', hlt.le.trans hle, hsh'.trans hsh⟩

end

end

end

end World

end SceneGrammar

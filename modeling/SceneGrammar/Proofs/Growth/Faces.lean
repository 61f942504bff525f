/-
What has grown, read off in walk order.

`Face` is what can be seen of a node but its id. `World.subtrees s` lists, for every node on the list of a shape, the
faces met on a walk from it. A world that holds a subtree shows the faces of the subtree (`Represents.subtrees`), so two
worlds that hold one subtree show the same.
-/
import SceneGrammar.Proofs.Growth.Simulation
import SceneGrammar.World.Walk

namespace SceneGrammar

/-- what can be seen of a node apart from ids -/
structure Face (α κ : Type) where
  name : String
  kind : NodeKind
  template : Option String
  pose : Pose α
  /-- the number of its children, which tells where its subtree ends in a walk -/
  arity : Nat
  /-- of a symbol: its kind, its state and how many nodes it has generated -/
  symbol : Option (κ × ShapeState × Nat)

namespace World

variable {α κ σ : Type}

/-- the face of a node -/
def face (w : World α κ σ) (n : NodeId) : Option (Face α κ) :=
  (w.node? n).map fun x =>
    ⟨x.name, x.kind, x.template, x.pose, x.children.length,
      (x.shape.bind w.shape?).map fun s => (s.kind, s.state, (s.generated.getD []).length)⟩

/-- the faces in walk order of every subtree that hangs from the list of a shape -/
def subtrees (w : World α κ σ) (s : ShapeId) : List (List (Option (Face α κ))) :=
  (w.generatedBy s).map fun n => (w.walk n).map w.face

end World

namespace Subtree

variable {α κ : Type}

/-- the children of a grown node -/
def childrenOf (P : Subtree α κ) (k : Nat) : List Nat := ((P.nodes[k]?).map (·.children)).getD []

/-- a grown node and its descendants in pre-order, down to a number of levels -/
def walkWithin (P : Subtree α κ) : Nat → Nat → List Nat
  | 0, _ => []
  | depth + 1, k => k :: (P.childrenOf k).flatMap (P.walkWithin depth)

/-- a grown node and its descendants in pre-order -/
def walk (P : Subtree α κ) (k : Nat) : List Nat := P.walkWithin P.nodes.length k

/-- the face of a grown node -/
def face (P : Subtree α κ) (k : Nat) : Option (Face α κ) :=
  (P.nodes[k]?).map fun x =>
    ⟨x.name, x.kind, x.template, x.pose, x.children.length,
      (x.shape.bind (P.shapes[·]?)).map fun s => (s.kind, s.state, (s.generated.getD []).length)⟩

/-- the faces in walk order of every subtree that hangs from the root's list -/
def subtrees (P : Subtree α κ) : List (List (Option (Face α κ))) := P.top.map fun k => (P.walk k).map P.face

/-- below the last node there is nothing to walk, so a walk needs no more levels than there are younger nodes -/
theorem Sound.walkWithin_eq {P : Subtree α κ} (h : P.Sound) {k d e : Nat} (hk : k < P.nodes.length)
    (hd : P.nodes.length ≤ k + d) (he : P.nodes.length ≤ k + e) : P.walkWithin d k = P.walkWithin e k := by
  induction d generalizing k e with
  | zero => exact absurd hk (not_lt.2 hd)
  | succ d ih =>
    cases e with
    | zero => exact absurd hk (not_lt.2 he)
    | succ e =>
      rw [walkWithin, walkWithin]
      refine congrArg (k :: ·) (List.flatMap_congr fun c hc => ?_)
      obtain ⟨x, hx⟩ : ∃ x, P.nodes[k]? = some x := ⟨_, List.getElem?_eq_getElem hk⟩
      have hcx : c ∈ x.children := by simpa [childrenOf, hx] using hc
      obtain ⟨hlt, hlen⟩ := h.young k x hx c hcx
      exact ih hlen (by omega) (by omega)

end Subtree

namespace World

variable {α κ σ : Type} {F : Placement α} {ctx : GrowthContext α κ} {w : World α κ σ} {P : Subtree α κ}

theorem Represents.node?_eq (h : Represents F ctx w P) (k : Nat) : w.node? (F.id k) = (P.nodes[k]?).map (F.node k) := by
  cases hx : P.nodes[k]? with
  | some x => exact h.node k x hx
  | none =>
    refine node?_of_size_lt ?_
    rw [h.nodes_size]
    exact Nat.lt_succ_of_le (Nat.add_le_add_left (List.getElem?_eq_none_iff.1 hx) _)

theorem Represents.children (h : Represents F ctx w P) (k : Nat) : w.children (F.id k) = (P.childrenOf k).map F.id := by
  rw [World.children, h.node?_eq, Subtree.childrenOf]
  cases P.nodes[k]? <;> rfl

theorem Represents.shape?_eq (h : Represents F ctx w P) (j : Nat) :
    w.shape? (F.shapes + j) = (P.shapes[j]?).map fun x => (F.shape x : Shape α κ) := by
  cases hx : P.shapes[j]? with
  | some x => exact h.shape j x hx
  | none =>
    refine shape?_eq_none_iff.2 ?_
    rw [h.shapes_size]
    exact Nat.add_le_add_left (List.getElem?_eq_none_iff.1 hx) _

theorem Represents.face (h : Represents F ctx w P) (k : Nat) : w.face (F.id k) = P.face k := by
  rw [World.face, h.node?_eq, Subtree.face]
  cases P.nodes[k]? with
  | none => rfl
  | some x =>
    have hsymbol : ((F.node k x).shape.bind w.shape?).map (fun s => (s.kind, s.state, (s.generated.getD []).length)) =
        (x.shape.bind (P.shapes[·]?)).map fun s => (s.kind, s.state, (s.generated.getD []).length) := by
      cases hs : x.shape with
      | none => simp [Placement.node, hs]
      | some j =>
        simp only [Placement.node, hs, Option.map_some, Option.bind_some, h.shape?_eq]
        cases P.shapes[j]? with
        | none => rfl
        | some y => cases hg : y.generated <;> simp [Placement.shape, hg]
    simp only [Option.map_some, hsymbol]
    simp [Placement.node]

theorem Represents.walkWithin (h : Represents F ctx w P) (depth k : Nat) :
    w.walkWithin depth (F.id k) = (P.walkWithin depth k).map F.id := by
  induction depth generalizing k with
  | zero => rfl
  | succ depth ih =>
    rw [World.walkWithin, Subtree.walkWithin, List.map_cons, h.children, List.flatMap_map, List.map_flatMap]
    simp only [ih]

/-- **Faces.** What a world shows under the root is what the subtree shows. -/
theorem Represents.subtrees (h : Represents F ctx w P) : w.subtrees F.rootShape = P.subtrees := by
  rw [World.subtrees, h.top, Subtree.subtrees, List.map_map]
  refine List.map_congr_left fun k hk => ?_
  have hlt := h.sound.top k hk
  have hwalk : w.walk (F.id k) = (P.walk k).map F.id := by
    rw [World.walk, h.walkWithin, Subtree.walk, h.nodes_size]
    rw [h.sound.walkWithin_eq hlt (by omega) (Nat.le_add_left P.nodes.length k)]
  simp only [Function.comp, hwalk, List.map_map]
  exact List.map_congr_left fun m _ => h.face m

end World

end SceneGrammar

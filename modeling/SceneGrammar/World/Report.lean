/-
What is told about nodes and trees: snapshots, descriptions and printed outlines.

A snapshot is a frozen copy of everything reachable from a root, taken at a tick under a seed.
-/
import SceneGrammar.World.Walk

namespace SceneGrammar

/-- how a node kind is written -/
def NodeKind.text : NodeKind → String
  | .empty => "EMPTY"
  | .symbol => "SYMBOL"
  | .terminal => "TERMINAL"

namespace ShapeState

/-- how a state is written -/
def text : ShapeState → String
  | .uninitialized => "UNINITIALIZED"
  | .expanded => "EXPANDED"
  | .cleared => "CLEARED"

/-- the number of a state -/
def number : ShapeState → Nat
  | .uninitialized => 0
  | .expanded => 1
  | .cleared => 2

end ShapeState

/-- a frozen copy of one node -/
structure NodeSnapshot (α : Type) where
  id : NodeId
  name : String
  kind : NodeKind
  parent : Option NodeId
  pose : Pose α
  worldPosition : Vector3 α
  template : Option String
  /-- kind, state and number of generated nodes of the shape -/
  shape : Option (String × ShapeState × Nat)

/-- a frozen copy of a tree -/
structure TreeSnapshot (α : Type) where
  tick : Int
  seed : Int
  root : NodeId
  nodes : List (NodeSnapshot α)
  pending : Nat

namespace TreeSnapshot

variable {α : Type}

/-- the number of nodes of a kind -/
def count (t : TreeSnapshot α) (kind : NodeKind) : Nat := t.nodes.countP (·.kind == kind)

end TreeSnapshot

namespace World

variable {α κ σ : Type} [SymbolKind κ]

/-- a frozen copy of a node -/
def nodeSnapshot [Scalar α] (w : World α κ σ) (n : Node α) : NodeSnapshot α :=
  { id := n.id, name := n.name, kind := n.kind, parent := n.parent, pose := n.pose
    worldPosition := w.worldPosition n, template := n.template
    shape := n.shape.bind fun s => (w.shape? s).map fun x =>
      (SymbolKind.typeName x.kind, x.state, (x.generated.map List.length).getD 0) }

/-- a frozen copy of what is reachable from a node -/
def snapshot [Scalar α] (w : World α κ σ) (root : NodeId) (tick seed : Int) : TreeSnapshot α :=
  { tick, seed, root, pending := w.agenda.pendingCount
    nodes := ((w.reachable root).filterMap w.node?).map w.nodeSnapshot }

/-- how a shape is shown -/
def shapeText (w : World α κ σ) (s : ShapeId) : String :=
  match (w.shape? s).bind fun x => x.node.map fun n => (x, n) with
  | none => "<" ++ w.typeName s ++ " unbound>"
  | some (x, n) =>
    "<" ++ w.typeName s ++ " '" ++ w.nodeName n ++ "' #" ++ toString n ++ " " ++ x.state.text ++ ">"

/-- a node's line of an outline: the name, and kind and list length of its shape -/
def label (w : World α κ σ) (n : NodeId) : String :=
  match w.shapeOn? n with
  | none => w.nodeName n
  | some s =>
    w.nodeName n ++ " [" ++ w.typeName s ++ ": " ++ toString (w.generatedBy s).length ++ "]"

/-- a blank of two columns per level -/
def indentation (level : Nat) : String := String.ofList (List.replicate (2 * level) ' ')

/-- the printed tree below a node, a number of further levels deep, starting at a level -/
def outlineAt (w : World α κ σ) : Nat → Nat → NodeId → List String
  | 0, level, n => [indentation level ++ w.label n]
  | depth + 1, level, n =>
    (indentation level ++ w.label n) :: (w.children n).flatMap (outlineAt w depth (level + 1))

/-- the printed tree below a node; a depth below one prints the node alone -/
def outline (w : World α κ σ) (n : NodeId) (depth : Int) : List String :=
  (w.outlineAt depth.toNat 0 n).flatMap (·.splitOn "\n")

end World

end SceneGrammar

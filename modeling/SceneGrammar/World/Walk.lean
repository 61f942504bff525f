/-
Walks through the scene.

`walk` reads a node and its scene descendants in pre-order; `reachable` follows the lists of generated nodes, too, and
visits every living node once. `worldPosition` composes poses from a node up to its scene root. `visits` is the walk of
`reachable` written as a recursion that threads the set of nodes seen.
-/
import SceneGrammar.World.Symbol

namespace SceneGrammar.World

variable {α κ σ : Type}

/-- a node and its scene descendants in pre-order, down to a number of levels -/
def walkWithin (w : World α κ σ) : Nat → NodeId → List NodeId
  | 0, _ => []
  | depth + 1, n => n :: (w.children n).flatMap (walkWithin w depth)

/-- a node and its scene descendants in pre-order -/
def walk (w : World α κ σ) (n : NodeId) : List NodeId := w.walkWithin (w.nodes.size + 1) n

/-- the name of a node -/
def nodeName (w : World α κ σ) (n : NodeId) : String := ((w.node? n).map (·.name)).getD ""

/-- the first node of a walk that has a name -/
def find (w : World α κ σ) (n : NodeId) (name : String) : Option NodeId :=
  (w.walk n).find? fun m => w.nodeName m == name

/-- a position carried up through the poses of a chain of parents -/
def carryUp [Add α] [Sub α] [Mul α] (w : World α κ σ) : Nat → Option NodeId → Vector3 α → Vector3 α
  | 0, _, v => v
  | depth + 1, n, v =>
    match n.bind w.node? with
    | none => v
    | some p => carryUp w depth p.parent (p.pose.rotation.rotate v + p.pose.position)

/-- the position of a node relative to the scene -/
def worldPosition [Add α] [Sub α] [Mul α] (w : World α κ σ) (n : Node α) : Vector3 α :=
  w.carryUp (w.nodes.size + 1) n.parent n.pose.position

/-- where a walk goes on from a node: its children, then what its shape has generated -/
def successors (w : World α κ σ) (n : NodeId) : List NodeId := w.children n ++ w.generatedAt n

/-- the walk with a stack of nodes to visit and a list of those seen, newest first -/
def reachFrom (w : World α κ σ) : Nat → List NodeId → List NodeId → List NodeId
  | 0, _, seen => seen.reverse
  | _ + 1, [], seen => seen.reverse
  | steps + 1, n :: stack, seen =>
    if seen.contains n || !w.isAlive n then reachFrom w steps stack seen
    else reachFrom w steps (w.successors n ++ stack) (n :: seen)

/-- more steps than a walk can take: one for each edge, and one for the start -/
def reachBound (w : World α κ σ) : Nat :=
  (List.range (w.nodes.size + 1)).foldl (fun k n => k + (w.successors n).length) 2

/-- the living nodes reached from a node, in the order of the walk -/
def reachable (w : World α κ σ) (n : NodeId) : List NodeId := w.reachFrom w.reachBound [n] []

/-- the same walk as a recursion over successors, threading the nodes seen, newest first -/
def visits (w : World α κ σ) : Nat → List NodeId → NodeId → List NodeId
  | 0, seen, _ => seen
  | depth + 1, seen, n =>
    if seen.contains n || !w.isAlive n then seen
    else (w.successors n).foldl (visits w depth) (n :: seen)

end SceneGrammar.World

/-
Copies of templates.

`World.plant` puts a copy of a template and of all its parts into the scene. The copies have consecutive ids in the
order in which the template and its parts are read.
-/
import SceneGrammar.World.Basic

namespace SceneGrammar

namespace Template

variable {α : Type}

mutual

/-- the number of nodes of a copy -/
def size : Template α → Nat
  | ⟨_, _, parts, _, _⟩ => sizeOfParts parts + 1

/-- the number of nodes of copies of all parts -/
def sizeOfParts : List (Template α) → Nat
  | [] => 0
  | t :: ts => t.size + sizeOfParts ts

end

end Template

namespace World

variable {α κ σ : Type} [Scalar α]

mutual

/-- the world with a copy of a template; the copy's own node has the next id -/
def plant (w : World α κ σ) : Template α → Option NodeId → Pose α → World α κ σ
  | ⟨id, name, parts, _, _⟩, parent, pose =>
    let shown := if name = "" then id else name
    plantParts (w.addNode shown .terminal parent pose (some id)) parts w.nextId

/-- the world with copies of all parts under a node, each at its own offset -/
def plantParts (w : World α κ σ) : List (Template α) → NodeId → World α κ σ
  | [], _ => w
  | t :: ts, under => plantParts (plant w t (some under) (.displaced t.offset)) ts under

end

/-- put a copy of a template under a node that is alive, or under none -/
def instantiate (t : Template α) (parent : Option NodeId) (pose : Pose α) : Act α κ σ NodeId := fun w =>
  match w.parentFault? t.displayName parent with
  | some e => .error e w
  | none => .ok w.nextId (w.plant t parent pose)

/-- put an empty node under a node that is alive, or under none -/
def createNode (name : String) (parent : Option NodeId) (pose : Pose α) : Act α κ σ NodeId := fun w =>
  match w.parentFault? name parent with
  | some e => .error e w
  | none => .ok w.nextId (w.addNode name .empty parent pose none)

end World

end SceneGrammar

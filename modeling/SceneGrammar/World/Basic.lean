/-
The world: a scene of nodes, the shapes on them, and everything they share.

Nodes and shapes are never removed from their arrays, so their ids stay valid; a destroyed node is marked dead and
leaves the registry. `World.node?` and `World.shape?` look them up; the changes that all operations are made of
(`addNode`, `detach`, `hang`, `bury`, `track`, `bind`) are here, too.

`κ` is the type of symbol kinds, `σ` whatever the driver of the world wants to keep in it.
-/
import SceneGrammar.Agenda
import SceneGrammar.Engine.Desk
import SceneGrammar.Fault
import SceneGrammar.Template

namespace SceneGrammar

/-- nodes are numbered from one in the order of their creation -/
abbrev NodeId := Nat

/-- shapes are numbered from zero in the order of their creation -/
abbrev ShapeId := Nat

/-- random sources are numbered from zero in the order of their creation -/
abbrev SourceId := Nat

/-- what a scene node holds -/
inductive NodeKind where
  | empty
  /-- carries a shape -/
  | symbol
  /-- a copy of a template -/
  | terminal
  deriving DecidableEq, Repr

/-- a place in the scene -/
structure Node (α : Type) where
  id : NodeId
  name : String
  kind : NodeKind
  parent : Option NodeId
  children : List NodeId
  pose : Pose α
  template : Option String
  shape : Option ShapeId
  alive : Bool

/-- where a shape stands between expansions -/
inductive ShapeState where
  | uninitialized
  | expanded
  | cleared
  deriving DecidableEq, Repr

/-- a plain value that a component may carry -/
inductive Datum (α : Type) where
  | absent
  | flag (b : Bool)
  | whole (n : Int)
  | real (x : α)
  | text (s : String)

/-- something attached to a shape for its tree to find -/
inductive Component (α : Type) where
  | source (id : SourceId)
  /-- a height map, told from others by its number -/
  | relief (number : Nat) (map : HeightMap α)
  /-- a marker, told from others by its value -/
  | marker (value : Datum α)

/-- a symbol; outside any world it has no node -/
structure Shape (α κ : Type) where
  kind : κ
  node : Option NodeId
  /-- the node of the start symbol it was created from -/
  rootKey : Option NodeId
  /-- the nodes it has generated, in order; absent before the first -/
  generated : Option (List NodeId)
  components : List (Component α)
  state : ShapeState

/-- what the journal records -/
inductive Entry where
  /-- a shape has made `count` nodes with consecutive ids: a symbol's one, or those of a copy of a template -/
  | made (owner : ShapeId) (first : NodeId) (count : Nat)
  /-- a shape has a node on its list of generated ones -/
  | tracked (owner : ShapeId) (node : NodeId)
  /-- the listeners were told that a node is about to be destroyed -/
  | announced (node : NodeId)
  /-- the rule of a shape starts -/
  | began (shape : ShapeId)
  /-- the rule of a shape has ended without an error -/
  | finished (shape : ShapeId)
  deriving DecidableEq, Repr

/-- a scene, its shapes, and what they share -/
structure World (α κ σ : Type) where
  nodes : Array (Node α)
  /-- the ids of nodes not yet destroyed, newest first -/
  registry : List NodeId
  created : Nat
  destroyed : Nat
  shapes : Array (Shape α κ)
  /-- the shape registered for a node, in the order of registration -/
  bound : List (NodeId × ShapeId)
  sources : Array RandomSource
  /-- the source of roots that carry none -/
  ambient : SourceId
  entropy : Entropy
  templates : TemplateLibrary α
  agenda : Agenda α
  /-- symbols expand as soon as they are created -/
  eager : Bool
  /-- delays count only in a live world -/
  live : Bool
  /-- whoever wants to be told of a destruction, and may object -/
  listeners : List (Node α → Option (Fault α))
  /-- what has happened, oldest first -/
  journal : Array Entry
  warnings : Array Warning
  desk : Desk α
  user : σ

namespace World

variable {α κ σ : Type}

/-- an empty world -/
def fresh [Scalar α] (entropy : Entropy) (user : σ) : World α κ σ :=
  { nodes := #[], registry := [], created := 0, destroyed := 0, shapes := #[], bound := []
    sources := #[.ofSeed 0], ambient := 0, entropy, templates := .empty, agenda := .empty
    eager := true, live := false, listeners := [], journal := #[], warnings := #[], desk := .empty, user }

/-! ## Look-up -/

/-- the node of an id, dead or alive -/
def node? (w : World α κ σ) : NodeId → Option (Node α)
  | 0 => none
  | i + 1 => w.nodes[i]?

/-- whether an id is that of a node not yet destroyed -/
def isAlive (w : World α κ σ) (n : NodeId) : Bool := (w.node? n).any (·.alive)

/-- the nodes hung under a node -/
def children (w : World α κ σ) (n : NodeId) : List NodeId := ((w.node? n).map (·.children)).getD []

/-- the shape of an id -/
def shape? (w : World α κ σ) (s : ShapeId) : Option (Shape α κ) := w.shapes[s]?

/-- the shape on a node -/
def shapeOn? (w : World α κ σ) (n : NodeId) : Option ShapeId := (w.node? n).bind (·.shape)

/-- the nodes that the shape on a node has generated -/
def generatedAt (w : World α κ σ) (n : NodeId) : List NodeId :=
  (((w.shapeOn? n).bind w.shape?).bind (·.generated)).getD []

/-- the shape registered for a node -/
def registered? (w : World α κ σ) (n : NodeId) : Option ShapeId := w.bound.lookup n

/-- the number of nodes not yet destroyed -/
def nodeCount (w : World α κ σ) : Nat := w.registry.length

/-- the nodes not yet destroyed, oldest first -/
def liveNodes (w : World α κ σ) : List NodeId := w.registry.reverse

/-- the nodes not yet destroyed that hang under none, oldest first -/
def roots (w : World α κ σ) : List NodeId :=
  w.liveNodes.filter fun n => (w.node? n).any (·.parent.isNone)

/-- the id of the next node -/
def nextId (w : World α κ σ) : NodeId := w.nodes.size + 1

/-! ## Nodes -/

/-- change one node -/
def modifyNode (w : World α κ σ) (n : NodeId) (f : Node α → Node α) : World α κ σ :=
  match n with
  | 0 => w
  | i + 1 => { w with nodes := w.nodes.modify i f }

/-- put a node at the end of another's children -/
def hang (w : World α κ σ) (n parent : NodeId) : World α κ σ :=
  (w.modifyNode n fun x => { x with parent := some parent }).modifyNode parent fun p =>
    { p with children := p.children ++ [n] }

/-- take a node off its parent's children; it hangs under none -/
def detach (w : World α κ σ) (n : NodeId) : World α κ σ :=
  match (w.node? n).bind (·.parent) with
  | none => w
  | some p =>
    (w.modifyNode p fun x => { x with children := x.children.erase n }).modifyNode n fun x =>
      { x with parent := none }

/-- hang a node under another one, or under none -/
def reparent (w : World α κ σ) (n : NodeId) (parent : Option NodeId) : World α κ σ :=
  match parent with
  | none => w.detach n
  | some p => (w.detach n).hang n p

/-- the world with one more node, which has the next id -/
def addNode (w : World α κ σ) (name : String) (kind : NodeKind) (parent : Option NodeId) (pose : Pose α)
    (template : Option String) : World α κ σ :=
  let id := w.nextId
  let w := { w with
    nodes := w.nodes.push
      { id, name, kind, parent := none, children := [], pose, template, shape := none, alive := true }
    registry := id :: w.registry
    created := w.created + 1 }
  match parent with
  | none => w
  | some p => w.hang id p

/-- the fault of hanging something under a destroyed node -/
def parentFault? (w : World α κ σ) (name : String) (parent : Option NodeId) : Option (Fault α) :=
  match parent.bind w.node? with
  | none => none
  | some p => if p.alive then none else some (.deadParent name p.id p.name)

/-- mark a node dead and take it out of the scene -/
def bury (w : World α κ σ) (n : NodeId) : World α κ σ :=
  let w := (w.detach n).modifyNode n fun x => { x with alive := false }
  { w with registry := w.registry.erase n, destroyed := w.destroyed + 1 }

/-! ## Shapes -/

/-- change one shape -/
def modifyShape (w : World α κ σ) (s : ShapeId) (f : Shape α κ → Shape α κ) : World α κ σ :=
  { w with shapes := w.shapes.modify s f }

/-- the world with one more shape, which belongs to no node yet -/
def addShape (w : World α κ σ) (kind : κ) : World α κ σ :=
  let s : Shape α κ :=
    { kind, node := none, rootKey := none, generated := none, components := [], state := .uninitialized }
  { w with shapes := w.shapes.push s }

/-- put a shape on a node's entry of a table, at the end if there is none -/
def enter (n : NodeId) (s : ShapeId) : List (NodeId × ShapeId) → List (NodeId × ShapeId)
  | [] => [(n, s)]
  | (m, t) :: rest => if m = n then (n, s) :: rest else (m, t) :: enter n s rest

/-- put a shape on a node and register it there; without a root key it is its own root -/
def bind (w : World α κ σ) (s : ShapeId) (n : NodeId) (rootKey : Option NodeId) : World α κ σ :=
  let w := w.modifyShape s fun x => { x with node := some n, rootKey := some (rootKey.getD n) }
  let w := w.modifyNode n fun x => { x with shape := some s, kind := .symbol }
  { w with bound := enter n s w.bound }

/-- take the registration of a node away -/
def unregister (w : World α κ σ) (n : NodeId) : World α κ σ :=
  { w with bound := w.bound.filter fun p => p.1 != n }

/-- put an entry into the journal -/
def note (w : World α κ σ) (e : Entry) : World α κ σ := { w with journal := w.journal.push e }

/-- put a warning into the log -/
def warn (w : World α κ σ) (x : Warning) : World α κ σ := { w with warnings := w.warnings.push x }

/-- put a node at the end of a shape's list of generated ones -/
def track (w : World α κ σ) (s : ShapeId) (n : NodeId) : World α κ σ :=
  (w.modifyShape s fun x => { x with generated := some (x.generated.getD [] ++ [n]) }).note (.tracked s n)

/-- change a random source -/
def setSource (w : World α κ σ) (i : SourceId) (r : RandomSource) (e : Entropy) : World α κ σ :=
  { w with sources := w.sources.setIfInBounds i r, entropy := e }

end World

/-- what is done to a world: it may fail, and what was done before the failure stays done -/
abbrev Act (α κ σ : Type) := EStateM (Fault α) (World α κ σ)

end SceneGrammar

/-
The ground that scripts stand on.

A script is written down in steps, and rules can be written in steps, too. What a step makes can be kept under a name
(`Handle`) for later steps to refer to (`Ref`). `Memo` is what a script keeps in the world besides the world itself:
the names, the replies of steps run inside rules, and a few counters. `Reply` is what a step answers.
-/
import SceneGrammar.Catalogue
import SceneGrammar.World.Report

namespace SceneGrammar.Script

/-! ## Kinds -/

/-- the symbols of a script: those of a city, and those with a rule written in steps -/
inductive Kind (α : Type) where
  | city (kind : City.Kind α)
  /-- the name of the rule, and a number that its steps can depend on -/
  | scripted (rule : String) (count : Int)

namespace Kind

variable {α : Type}

/-- the name of a kind -/
def typeName : Kind α → String
  | .city kind => kind.typeName
  | .scripted .. => "RuleShape"

instance : SymbolKind (Kind α) := ⟨typeName⟩

/-- the number of a scripted kind -/
def count : Kind α → Int
  | .city _ => 0
  | .scripted _ count => count

/-- the same kind with another number -/
def withCount : Kind α → Int → Kind α
  | .city kind, _ => .city kind
  | .scripted rule _, count => .scripted rule count

/-- the same kind with another rule -/
def withRule : Kind α → String → Kind α
  | .city kind, _ => .city kind
  | .scripted _ count, rule => .scripted rule count

end Kind

/-! ## Names and what they stand for -/

/-- what a step refers to -/
inductive Ref where
  /-- the shape whose rule is running -/
  | self
  /-- what was kept under a name -/
  | named (name : String)
  deriving DecidableEq, Repr

/-- what can be kept under a name -/
inductive Handle (α : Type) where
  | nothing
  | node (n : NodeId)
  | shape (s : ShapeId)
  | component (c : Component α)

/-- the parts of a shape that a reply tells -/
structure ShapeView where
  type : String
  id : NodeId
  name : String
  rootKey : NodeId
  root : NodeId
  alive : Bool
  state : ShapeState
  generated : List NodeId
  shown : String

/-- the parts of a node that a reply tells -/
structure NodeView (α : Type) where
  node : Node α
  shown : String
  shape : Option ShapeView

/-- one line of a description: a node with its position in the scene -/
structure Sight (α : Type) where
  node : Node α
  position : Vector3 α

/-- what a loop tells about itself -/
structure LoopView (α : Type) where
  tick : Nat
  live : Bool
  builds : Nat
  idle : Bool
  recent : List (Event α)

/-- what a step answers -/
inductive Reply (α : Type) where
  | nothing
  | flag (b : Bool)
  | whole (n : Int)
  | wholes (ns : List Int)
  | real (x : α)
  | reals (xs : List α)
  | text (s : String)
  | texts (ss : List String)
  | datum (d : Datum α)
  | vector (v : Vector3 α)
  | template (t : Template α)
  | source (r : RandomSource)
  | relief (m : HeightMap α)
  | marker (d : Datum α)
  | node (v : NodeView α)
  | shape (v : ShapeView)
  | sights (l : List (Sight α))
  | tree (t : TreeSnapshot α)
  | trigger (root : NodeId) (source : Option RandomSource) (builds : Nat)
  | loop (v : LoopView α)
  | events (l : List (Event α))
  /-- an event that a tick has reported, told by its message -/
  | report (e : Event α)

namespace Reply

variable {α : Type}

/-- the id of a node -/
def id (n : NodeId) : Reply α := .whole n

/-- the ids of nodes -/
def ids (ns : List NodeId) : Reply α := .wholes (ns.map Int.ofNat)

/-- the id of a node, if there is one -/
def id? : Option NodeId → Reply α
  | none => .nothing
  | some n => id n

end Reply

/-- what a script keeps -/
structure Memo (α : Type) where
  /-- what is kept under names, newest first -/
  handles : List (String × Handle α)
  /-- replies of steps inside rules and reports of ticks since the current step began, newest first -/
  trace : List (Reply α)
  /-- a library beside the world's own, if they are not one and the same -/
  aside : Option (TemplateLibrary α)
  /-- the trigger made last -/
  trigger : Option Nat
  /-- height maps made so far -/
  reliefs : Nat

/-- a program of a script -/
abbrev Routine (α : Type) := Prog α (Kind α) (Memo α)

variable {α : Type}

namespace Memo

/-- nothing kept -/
def empty : Memo α := ⟨[], [], none, none, 0⟩

/-- keep something under a name -/
def keep (m : Memo α) (name : String) (h : Handle α) : Memo α := { m with handles := (name, h) :: m.handles }

end Memo

/-! ## Looking up -/

/-- change what the script keeps -/
def remember (f : Memo α → Memo α) : Routine α Unit := do
  let m ← Prog.see fun w => w.user
  Prog.act (.setUser (f m))

/-- put a reply at the end of the trace -/
def record (r : Reply α) : Routine α Unit := remember fun m => { m with trace := r :: m.trace }

/-- what a reference stands for -/
def handleOf (self : Option ShapeId) : Ref → Routine α (Handle α)
  | .self =>
    match self with
    | some s => return .shape s
    | none => Prog.fail (.unknownName "self")
  | .named name =>
    Prog.ask fun w =>
      match w.user.handles.lookup name with
      | some h => .ok h
      | none => .error (.unknownName name)

/-- the shape that is meant; a node stands for the shape on it -/
def shapeOf (self : Option ShapeId) (r : Ref) : Routine α ShapeId := do
  match ← handleOf self r with
  | .shape s => return s
  | .node n =>
    Prog.ask fun w =>
      match w.shapeOn? n with
      | some s => .ok s
      | none => .error (.unknownName (w.nodeName n))
  | _ => Prog.fail (.unknownName "")

/-- the node that is meant, or that nothing is; a shape stands for its node -/
def nodeOf? (self : Option ShapeId) (r : Ref) : Routine α (Option NodeId) := do
  match ← handleOf self r with
  | .node n => return some n
  | .shape s =>
    let n ← Prog.ask fun w => w.nodeOf s
    return some n
  | _ => return none

/-- the node that is meant -/
def nodeOf (self : Option ShapeId) (r : Ref) : Routine α NodeId := do
  match ← nodeOf? self r with
  | some n => return n
  | none => Prog.fail (.unknownName "")

/-- the node record that is meant -/
def recordOf (self : Option ShapeId) (r : Ref) : Routine α (Node α) := do
  let n ← nodeOf self r
  Prog.ask fun w =>
    match w.node? n with
    | some x => .ok x
    | none => .error (.unknownName "")

/-- the component that is meant -/
def componentOf (self : Option ShapeId) (r : Ref) : Routine α (Component α) := do
  match ← handleOf self r with
  | .component c => return c
  | _ => Prog.fail (.unknownName "")

/-- the random source that is meant -/
def sourceOf (self : Option ShapeId) (r : Ref) : Routine α SourceId := do
  match ← componentOf self r with
  | .source i => return i
  | _ => Prog.fail (.unknownName "")

/-- how a component is told -/
def tell (w : World α (Kind α) (Memo α)) : Component α → Reply α
  | .source i =>
    match w.sources[i]? with
    | some r => .source r
    | none => .nothing
  | .relief _ m => .relief m
  | .marker d => .marker d

/-- the parts of a shape to tell -/
def viewShape (w : World α (Kind α) (Memo α)) (s : ShapeId) : Except (Fault α) ShapeView := do
  let id ← w.nodeOf s
  let name ← w.nameOf s
  let rootKey ← w.rootKeyOf s
  let root ← w.rootOf s
  let rootId ← w.nodeOf root
  return { type := w.typeName s, id, name, rootKey, root := rootId, alive := w.shapeAlive s
           state := ((w.shape? s).map (·.state)).getD .uninitialized
           generated := w.generatedBy s, shown := w.shapeText s }

/-! ## Placing -/

/-- how something is turned -/
inductive Turn (α : Type) where
  | by (q : Quaternion α)
  /-- three angles in degrees -/
  | angles (x y z : α)

/-- where something is put -/
structure Placing (α : Type) where
  position : Vector3 α
  turn : Turn α
  parent : Option Ref
  /-- lift it by a random fraction, drawn by the shape at work -/
  lifted : Bool

namespace Placing

variable [Scalar α]

/-- the pose that is meant; the fraction is drawn first -/
def pose (p : Placing α) (self : Option ShapeId) (on : Ref) : Routine α (Pose α) := do
  let lift ← if p.lifted then do
      let s ← shapeOf self on
      let k ← Prog.act (.randomFraction s)
      pure (some (Scalar.unit k))
    else pure none
  let rotation ← match p.turn with
    | .by q => pure q
    | .angles x y z => Prog.ofExcept ((Quaternion.ofEuler x y z).mapError .number)
  return ⟨match lift with
    | none => p.position
    | some d => { p.position with y := p.position.y + d }, rotation⟩

/-- the parent that is meant -/
def under (p : Placing α) (self : Option ShapeId) : Routine α (Option NodeId) :=
  match p.parent with
  | none => return none
  | some r => nodeOf? self r

end Placing

end SceneGrammar.Script

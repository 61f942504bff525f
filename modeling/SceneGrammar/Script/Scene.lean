/-
Steps on templates and on the scene.

Every step answers a reply and what it makes available under a name. A reference to something destroyed is still a
reference: nodes are told about after their death as before it.
-/
import SceneGrammar.Script.Basic

namespace SceneGrammar.Script

/-- steps on the libraries of templates -/
inductive TemplateStep (α : Type) where
  | register (t : Template α)
  | find (id : String)
  | contains (id : String)
  /-- the ids in alphabetical order -/
  | ids
  /-- the ids in the order of registration -/
  | order
  /-- register the templates of another library -/
  | merge (ts : List (Template α))
  /-- register in the library that the script was given, which may not be the world's -/
  | registerAside (t : Template α)

/-- steps on nodes -/
inductive SceneStep (α : Type) where
  | create (name : String) (on : Ref) (place : Placing α)
  | instantiate (t : World.TemplateRef α) (on : Ref) (place : Placing α)
  | destroy (on : Ref)
  | reparent (on : Ref) (parent : Option Ref)
  | find (on : Ref) (name : String)
  | walk (on : Ref)
  | byId (id : Int)
  | roots
  | worldPosition (on : Ref)
  | clear
  /-- from now on object to the destruction of nodes with these names or templates -/
  | guard (names : List String)
  /-- id, name and template of each node of a walk -/
  | names (on : Ref)
  | describe (on : Ref)
  | outline (on : Ref) (depth : Int)
  | inspect (on : Ref)
  | snapshot (on : Ref) (tick seed : Int)

variable {α : Type}

/-- a number as the id of a node -/
def idOf? (id : Int) : Option NodeId := if id < 0 then none else some id.toNat

/-- objects to the destruction of a node by name or template -/
def objector (names : List String) (n : Node α) : Option (Fault α) :=
  if names.contains n.name || n.template.any names.contains then some (.raised ("boom: " ++ n.name)) else none

/-- a node of a walk in one line -/
def nameLine (n : Node α) : String :=
  toString n.id ++ " " ++ n.name ++ (match n.template with
    | none => ""
    | some t => " <" ++ t ++ ">")

/-- the nodes of a walk -/
def walkNodes (w : World α (Kind α) (Memo α)) (n : NodeId) : List (Node α) := (w.walk n).filterMap w.node?

/-- the parts of a node to tell -/
def viewNode (w : World α (Kind α) (Memo α)) (n : Node α) : Except (Fault α) (NodeView α) := do
  let shape ← n.shape.mapM (viewShape w)
  return { node := n, shown := nodeText n.id n.name n.alive, shape }

namespace TemplateStep

/-- run a step on the libraries -/
def run : TemplateStep α → Routine α (Reply α)
  | .register t => do
    Prog.act (.register t)
    return .template t
  | .find id => do
    let t ← Prog.ask fun w => w.resolve (.byId id)
    return .template t
  | .contains id => do
    let b ← Prog.see fun w => w.templates.contains id
    return .flag b
  | .ids => do
    let l ← Prog.see fun w => w.templates.ids
    return .texts l
  | .order => do
    let l ← Prog.see fun w => w.templates.order
    return .texts l
  | .merge ts => do
    (TemplateLibrary.ofList ts).entries.forM fun t => Prog.act (.register t)
    let n ← Prog.see fun w => w.templates.size
    return .whole n
  | .registerAside t => do
    let m ← Prog.see fun w => w.user
    match m.aside with
    | none => Prog.act (.register t)
    | some l => remember fun m => { m with aside := some (l.register t) }
    let m ← Prog.see fun w => w.user
    let own ← Prog.see fun w => w.templates.size
    let given := match m.aside with
      | none => own
      | some l => l.size
    return .wholes [given, own]

end TemplateStep

namespace SceneStep

variable [Scalar α]

/-- the reply and the handle of a node -/
def made (n : NodeId) : Reply α × Handle α := (.id n, .node n)

/-- run a step on nodes -/
def run (self : Option ShapeId) : SceneStep α → Routine α (Reply α × Handle α)
  | .create name on place => do
    let pose ← place.pose self on
    let parent ← place.under self
    let n ← Prog.act (.createNode name parent pose)
    return made n
  | .instantiate ref on place => do
    let t ← Prog.ask fun w => w.resolve ref
    let pose ← place.pose self on
    let parent ← place.under self
    let n ← Prog.act (.instantiate t parent pose)
    return made n
  | .destroy on => do
    let n ← nodeOf self on
    Prog.act (.destroy n)
    return (.nothing, .nothing)
  | .reparent on parent => do
    let n ← nodeOf self on
    let p ← match parent with
      | none => pure none
      | some r => nodeOf? self r
    Prog.act (.reparent n p)
    return (.nothing, .nothing)
  | .find on name => do
    let n ← nodeOf self on
    let found ← Prog.see fun w => w.find n name
    return (.id? found, match found with
      | none => .nothing
      | some m => .node m)
  | .walk on => do
    let n ← nodeOf self on
    let l ← Prog.see fun w => w.walk n
    return (.ids l, .nothing)
  | .byId id => do
    let found ← Prog.see fun w => (idOf? id).filter w.isAlive
    return (.id? found, match found with
      | none => .nothing
      | some m => .node m)
  | .roots => do
    let l ← Prog.see fun w => w.roots
    return (.ids l, .nothing)
  | .worldPosition on => do
    let n ← recordOf self on
    let v ← Prog.see fun w => w.worldPosition n
    return (.vector v, .nothing)
  | .clear => do
    Prog.act .clearScene
    return (.nothing, .nothing)
  | .guard those => do
    Prog.act (.listen [objector those])
    return (.nothing, .nothing)
  | .names on => do
    let n ← nodeOf self on
    let l ← Prog.see fun w => walkNodes w n
    return (.texts (l.map nameLine), .nothing)
  | .describe on => do
    let n ← nodeOf self on
    let l ← Prog.see fun w => (walkNodes w n).map fun x => (⟨x, w.worldPosition x⟩ : Sight α)
    return (.sights l, .nothing)
  | .outline on depth => do
    let n ← nodeOf self on
    let l ← Prog.see fun w => w.outline n depth
    return (.texts l, .nothing)
  | .inspect on => do
    let n ← recordOf self on
    let v ← Prog.ask fun w => viewNode w n
    return (.node v, .nothing)
  | .snapshot on tick seed => do
    let s ← shapeOf self on
    let n ← Prog.ask fun w => w.nodeOf s
    let t ← Prog.see fun w => w.snapshot n tick seed
    return (.tree t, .nothing)

end SceneStep

end SceneGrammar.Script

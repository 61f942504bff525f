/-
Programs over a world, and how they are run.

A production rule is a `Prog`: it can look at the world, perform the operations of `Op`, fail, and attempt another
program to go on from its failure. Rules are data, so a statement about all rules is an induction on programs.

A grammar gives every kind of symbol its rule. Performing an operation may run rules (`createSymbol` in an eager world,
`generate`, `expand`, `advance`), and running a rule performs operations; `expandWithin` ties the knot, with a bound on
the nesting of rules. `Prog.run` runs a program in a grammar.
-/
import SceneGrammar.World.Symbol

namespace SceneGrammar

/-- the operations of a world -/
inductive Op (α κ σ : Type) where
  | createNode (name : String) (parent : Option NodeId) (pose : Pose α)
  | instantiate (t : Template α) (parent : Option NodeId) (pose : Pose α)
  | reparent (n : NodeId) (parent : Option NodeId)
  | destroy (n : NodeId)
  | clearScene
  | clear
  | register (t : Template α)
  | newShape (kind : κ)
  | bind (s : ShapeId) (n : NodeId) (rootKey : Option NodeId)
  | createRoot (offer : KindOffer κ) (name : String) (parent : Option NodeId) (pose : Pose α)
      (source : Option SourceId)
  | createSymbol (creator : ShapeId) (offer : KindOffer κ) (name : String) (parent : Option NodeId)
      (pose : Pose α)
  | spawn (creator : ShapeId) (template : World.TemplateRef α) (parent : Option NodeId) (pose : Pose α)
  | track (s : ShapeId) (n : NodeId)
  | expand (s : ShapeId)
  | generate (s : ShapeId) (delay : α)
  | deleteGenerated (s : ShapeId)
  | setKind (s : ShapeId) (kind : κ)
  | setComponents (s : ShapeId) (cs : List (Component α))
  | newSource (seed : Int)
  | reseed (i : SourceId) (seed : Option Int)
  | randomInt (s : ShapeId) (low high : Int)
  | randomFraction (s : ShapeId)
  | schedule (s : ShapeId) (delay : α)
  | cancel (n : NodeId)
  | advance (dt : α)
  | clearAgenda
  | setLive (live : Bool)
  | listen (listeners : List (Node α → Option (Fault α)))
  | warn (x : Warning)
  | setDesk (desk : Desk α)
  | setUser (user : σ)

/-- what an operation answers -/
abbrev Op.Answer {α κ σ : Type} : Op α κ σ → Type
  | .createNode .. => NodeId
  | .instantiate .. => NodeId
  | .newShape .. => ShapeId
  | .createRoot .. => ShapeId
  | .createSymbol .. => ShapeId
  | .spawn .. => NodeId
  | .newSource .. => SourceId
  | .randomInt .. => Int
  | .randomFraction .. => Nat
  | .cancel .. => Bool
  | .advance .. => List ShapeId
  | _ => Unit

/-- a program with an answer of type `β` -/
inductive Prog (α κ σ : Type) : Type → Type 1 where
  /-- the answer -/
  | done {β : Type} (b : β) : Prog α κ σ β
  | fail {β : Type} (fault : Fault α) : Prog α κ σ β
  /-- look at the world -/
  | look {β γ : Type} (f : World α κ σ → γ) (next : γ → Prog α κ σ β) : Prog α κ σ β
  | perform {β : Type} (o : Op α κ σ) (next : o.Answer → Prog α κ σ β) : Prog α κ σ β
  /-- run a program and go on from its answer or its fault -/
  | attempt {β γ : Type} (body : Prog α κ σ γ) (next : Except (Fault α) γ → Prog α κ σ β) : Prog α κ σ β

/-- a rule for every kind of symbol, and the bounds within which rules run -/
structure Grammar (α κ σ : Type) where
  /-- the production rule of a kind, for the shape that carries it -/
  rule : κ → ShapeId → Prog α κ σ Unit
  /-- rules run inside one another at most this deep -/
  nesting : Nat
  /-- an advance runs at most this many appointments beyond those present at its start -/
  spare : Nat

namespace Prog

variable {α κ σ : Type} {β γ : Type}

/-- one program after another -/
def bind : Prog α κ σ β → (β → Prog α κ σ γ) → Prog α κ σ γ
  | .done b, f => f b
  | .fail fault, _ => .fail fault
  | .look g next, f => .look g fun x => (next x).bind f
  | .perform o next, f => .perform o fun x => (next x).bind f
  | .attempt body next, f => .attempt body fun x => (next x).bind f

instance : Monad (Prog α κ σ) where
  pure := .done
  bind := bind

instance : MonadExceptOf (Fault α) (Prog α κ σ) where
  throw := .fail
  tryCatch p handle := .attempt p fun
    | .ok b => .done b
    | .error fault => handle fault

/-- perform one operation -/
def act (o : Op α κ σ) : Prog α κ σ o.Answer := .perform o .done

/-- what `f` sees of the world -/
def see (f : World α κ σ → β) : Prog α κ σ β := .look f .done

/-- what `f` sees of the world, or its fault -/
def ask (f : World α κ σ → Except (Fault α) β) : Prog α κ σ β :=
  .look f fun
    | .ok b => .done b
    | .error fault => .fail fault

/-- a value, or its fault -/
def ofExcept : Except (Fault α) β → Prog α κ σ β
  | .ok b => .done b
  | .error fault => .fail fault

end Prog

namespace World

variable {α κ σ : Type} [Scalar α] [SymbolKind κ]

/-- perform an operation, given how rules are run -/
def perform (spare : Nat) (expand : ShapeId → Act α κ σ Unit) : (o : Op α κ σ) → Act α κ σ o.Answer
  | .createNode name parent pose => createNode name parent pose
  | .instantiate t parent pose => instantiate t parent pose
  | .reparent n parent => fun w => .ok () (w.reparent n parent)
  | .destroy n => destroy n
  | .clearScene => clearScene
  | .clear => clear
  | .register t => fun w => .ok () { w with templates := w.templates.register t }
  | .newShape kind => fun w => .ok w.shapes.size (w.addShape kind)
  | .bind s n rootKey => fun w => .ok () (w.bind s n rootKey)
  | .createRoot offer name parent pose source => createRoot offer name parent pose source
  | .createSymbol creator offer name parent pose => createSymbol expand creator offer name parent pose
  | .spawn creator template parent pose => spawn creator template parent pose
  | .track s n => fun w => .ok () (w.track s n)
  | .expand s => expand s
  | .generate s delay => generate expand s delay
  | .deleteGenerated s => deleteGenerated s
  | .setKind s kind => fun w => .ok () (w.modifyShape s fun x => { x with kind })
  | .setComponents s components => fun w => .ok () (w.modifyShape s fun x => { x with components })
  | .newSource seed => fun w =>
    .ok w.sources.size { w with sources := w.sources.push (.ofSeed seed) }
  | .reseed i seed => reseed i seed
  | .randomInt s low high => randomInt s low high
  | .randomFraction s => randomFraction s
  | .schedule s delay => schedule s delay
  | .cancel n => cancel n
  | .advance dt => advance expand spare dt
  | .clearAgenda => fun w => .ok () { w with agenda := w.agenda.clear }
  | .setLive live => fun w => .ok () { w with live }
  | .listen listeners => fun w => .ok () { w with listeners }
  | .warn x => fun w => .ok () (w.warn x)
  | .setDesk desk => fun w => .ok () { w with desk }
  | .setUser user => fun w => .ok () { w with user }

end World

namespace Prog

variable {α κ σ : Type} [Scalar α] [SymbolKind κ]

/-- run a program, given how rules are run -/
def exec {β : Type} (spare : Nat) (expand : ShapeId → Act α κ σ Unit) : Prog α κ σ β → Act α κ σ β
  | .done b => fun w => .ok b w
  | .fail fault => fun w => .error fault w
  | .look f next => fun w => (next (f w)).exec spare expand w
  | .perform o next => fun w =>
    match World.perform spare expand o w with
    | .ok x w => (next x).exec spare expand w
    | .error fault w => .error fault w
  | .attempt body next => fun w =>
    match body.exec spare expand w with
    | .ok x w => (next (.ok x)).exec spare expand w
    | .error fault w => (next (.error fault)).exec spare expand w

end Prog

namespace Grammar

variable {α κ σ : Type} [Scalar α] [SymbolKind κ]

/-- run the rule of a shape, with rules nested at most the given number deep -/
def expandWithin (g : Grammar α κ σ) : Nat → ShapeId → Act α κ σ Unit
  | 0, _ => fun w => .error .tooDeep w
  | depth + 1, s => fun w =>
    match w.shape? s with
    | none => .ok () w
    | some x => (g.rule x.kind s).exec g.spare (expandWithin g depth) w

end Grammar

/-- run a program in a grammar -/
def Prog.run {α κ σ β : Type} [Scalar α] [SymbolKind κ] (g : Grammar α κ σ) (p : Prog α κ σ β) : Act α κ σ β :=
  p.exec g.spare (g.expandWithin g.nesting)

end SceneGrammar

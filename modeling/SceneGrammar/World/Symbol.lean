/-
Symbols in a world: where they belong, what they find at their root, and how they come to be.

A shape outside any world answers questions about its world with a fault. `sourceOf` is the source a symbol draws
from: the first one attached to its root, else the ambient one. `createRoot` and `placeSymbol` make symbols, `spawn`
makes terminals; all of them check everything before they change anything.
-/
import SceneGrammar.World.Instance
import SceneGrammar.World.Teardown

namespace SceneGrammar

/-- kinds of symbols have names -/
class SymbolKind (κ : Type) where
  /-- the name of a kind -/
  typeName : κ → String

/-- what a caller names as the kind of a new symbol -/
inductive KindOffer (κ : Type) where
  | of (kind : κ)
  /-- a kind with parameters it does not take -/
  | unfit
  /-- a kind that cannot be made -/
  | abstractKind (name : String)
  /-- something that is no kind, as it is shown -/
  | notAKind (shown : String)

namespace KindOffer

variable {α κ : Type}

/-- why an offer is no kind that can be made -/
def refusal? : KindOffer κ → Option (Fault α)
  | .abstractKind name => some (.abstractKind name)
  | .notAKind shown => some (.notAKind shown)
  | _ => none

/-- the kind with its parameters -/
def kind? : KindOffer κ → Option κ
  | .of kind => some kind
  | _ => none

end KindOffer

namespace World

variable {α κ σ : Type}

/-! ## Looking at a symbol -/

/-- the name of a shape's kind -/
def typeName [SymbolKind κ] (w : World α κ σ) (s : ShapeId) : String :=
  ((w.shape? s).map fun x => SymbolKind.typeName x.kind).getD ""

/-- the node of a shape -/
def nodeOf [SymbolKind κ] (w : World α κ σ) (s : ShapeId) : Except (Fault α) NodeId :=
  match (w.shape? s).bind (·.node) with
  | some n => .ok n
  | none => .error (.noNode (w.typeName s))

/-- a shape must belong to a world -/
def inContext [SymbolKind κ] (w : World α κ σ) (s : ShapeId) : Except (Fault α) Unit :=
  match (w.shape? s).bind (·.node) with
  | some _ => .ok ()
  | none => .error (.noContext (w.typeName s))

/-- the name of a shape's node -/
def nameOf [SymbolKind κ] (w : World α κ σ) (s : ShapeId) : Except (Fault α) String := do
  let n ← w.nodeOf s
  return ((w.node? n).map (·.name)).getD ""

/-- the node id of a shape's start symbol -/
def rootKeyOf [SymbolKind κ] (w : World α κ σ) (s : ShapeId) : Except (Fault α) NodeId :=
  match (w.shape? s).bind (·.rootKey) with
  | some n => .ok n
  | none => w.nodeOf s

/-- a shape's start symbol; a shape whose root is not registered is its own -/
def rootOf [SymbolKind κ] (w : World α κ σ) (s : ShapeId) : Except (Fault α) ShapeId := do
  w.inContext s
  return (((w.shape? s).bind (·.rootKey)).bind w.registered?).getD s

/-- whether a shape's node is alive -/
def shapeAlive (w : World α κ σ) (s : ShapeId) : Bool :=
  ((w.shape? s).bind (·.node)).any w.isAlive

/-- the nodes a shape has generated -/
def generatedBy (w : World α κ σ) (s : ShapeId) : List NodeId :=
  ((w.shape? s).bind (·.generated)).getD []

/-! ## Components -/

/-- the first random source among components -/
def firstSource? (cs : List (Component α)) : Option SourceId :=
  cs.findSome? fun
    | .source i => some i
    | _ => none

/-- the first height map among components -/
def firstRelief? (cs : List (Component α)) : Option (HeightMap α) :=
  cs.findSome? fun
    | .relief _ m => some m
    | _ => none

/-- the components of a shape -/
def componentsOf (w : World α κ σ) (s : ShapeId) : List (Component α) :=
  ((w.shape? s).map (·.components)).getD []

/-- the source a symbol draws from -/
def sourceOf [SymbolKind κ] (w : World α κ σ) (s : ShapeId) : Except (Fault α) SourceId := do
  let root ← w.rootOf s
  return (firstSource? (w.componentsOf root)).getD w.ambient

/-- the height map at a symbol's root -/
def reliefOf [SymbolKind κ] (w : World α κ σ) (s : ShapeId) : Except (Fault α) (Option (HeightMap α)) := do
  let root ← w.rootOf s
  return firstRelief? (w.componentsOf root)

/-- attach a component to a shape, behind the others -/
def attach (w : World α κ σ) (s : ShapeId) (c : Component α) : World α κ σ :=
  w.modifyShape s fun x => { x with components := x.components ++ [c] }

/-! ## Making symbols and terminals -/

/-- a start symbol; it is not expanded yet -/
def createRoot (offer : KindOffer κ) (name : String) (parent : Option NodeId) (pose : Pose α)
    (source : Option SourceId) : Act α κ σ ShapeId := fun w =>
  match offer.refusal?, offer.kind?, w.parentFault? name parent with
  | some e, _, _ => .error e w
  | none, none, _ => .error .unfitParameters w
  | none, some _, some e => .error e w
  | none, some kind, none =>
    let s := w.shapes.size
    let n := w.nextId
    let w := ((w.addShape kind).addNode name .symbol parent pose none).bind s n none
    match source with
    | none => .ok s w
    | some i => .ok s (w.attach s (.source i))

/-- a symbol generated by another one, under a given node or its creator's; it is not expanded yet -/
def placeSymbol [SymbolKind κ] (creator : ShapeId) (offer : KindOffer κ) (name : String)
    (parent : Option NodeId) (pose : Pose α) : Act α κ σ ShapeId := fun w =>
  match offer.refusal?, w.nodeOf creator, w.rootKeyOf creator with
  | some e, _, _ => .error e w
  | none, .ok own, .ok rootKey =>
    let parent := parent.getD own
    match offer.kind?, w.parentFault? name (some parent) with
    | none, _ => .error .unfitParameters w
    | some _, some e => .error e w
    | some kind, none =>
      let s := w.shapes.size
      let n := w.nextId
      let w := (w.addShape kind).addNode name .symbol (some parent) pose none
      .ok s (((w.note (.made creator n 1)).track creator n).bind s n (some rootKey))
  | none, _, _ => .error (.noContext (w.typeName creator)) w

/-- a template, or the id of one that the world's library holds -/
inductive TemplateRef (α : Type) where
  | inline (t : Template α)
  | byId (id : String)

/-- the template that is meant -/
def resolve (w : World α κ σ) : TemplateRef α → Except (Fault α) (Template α)
  | .inline t => .ok t
  | .byId id =>
    match w.templates.find? id with
    | some t => .ok t
    | none => .error (.unknownTemplate id)

/-- a terminal generated by a symbol, under a given node or its creator's -/
def spawn [Scalar α] [SymbolKind κ] (creator : ShapeId) (template : TemplateRef α) (parent : Option NodeId)
    (pose : Pose α) : Act α κ σ NodeId := fun w =>
  match w.nodeOf creator with
  | .error _ => .error (.noContext (w.typeName creator)) w
  | .ok own =>
    match w.resolve template with
    | .error e => .error e w
    | .ok t =>
      let parent := some (parent.getD own)
      match w.parentFault? t.displayName parent with
      | some e => .error e w
      | none =>
        let n := w.nextId
        .ok n (((w.plant t parent pose).note (.made creator n t.size)).track creator n)

/-- delete what a shape has generated -/
def deleteGenerated [SymbolKind κ] (s : ShapeId) : Act α κ σ Unit := fun w =>
  match (w.shape? s).bind (·.generated), w.inContext s with
  | none, _ => .ok () w
  | some _, .error e => .error e w
  | some _, .ok _ => .ok () (w.cleanWithin w.teardownBound s)

/-! ## Drawing -/

/-- start the draws of a source again, under another seed if one is given -/
def reseed (i : SourceId) (seed : Option Int) : Act α κ σ Unit := fun w =>
  match w.sources[i]? with
  | none => .ok () w
  | some r =>
    let (r, e) := match seed with
      | none => r.reset w.entropy
      | some x => r.reseed x w.entropy
    .ok () (w.setSource i r e)

/-- a random integer of `[low, high)` for a symbol -/
def randomInt [SymbolKind κ] (s : ShapeId) (low high : Int) : Act α κ σ Int := fun w =>
  match w.sourceOf s with
  | .error e => .error e w
  | .ok i =>
    match w.sources[i]? with
    | none => .ok low w
    | some r =>
      match r.nextInt low high w.entropy with
      | (.ok x, r, e) => .ok x (w.setSource i r e)
      | (.error x, r, e) => .error (.range x) (w.setSource i r e)

/-- a random fraction for a symbol, as the integer `k` of `k / 2 ^ 53` -/
def randomFraction [SymbolKind κ] (s : ShapeId) : Act α κ σ Nat := fun w =>
  match w.sourceOf s with
  | .error e => .error e w
  | .ok i =>
    match w.sources[i]? with
    | none => .ok 0 w
    | some r =>
      let (k, r, e) := r.next w.entropy
      .ok k (w.setSource i r e)

/-! ## The agenda -/

/-- plan an expansion of a shape -/
def schedule [Scalar α] [SymbolKind κ] (s : ShapeId) (delay : α) : Act α κ σ Unit := fun w =>
  if delay < Scalar.zero then .error (.negativeDelay delay) w
  else
    match w.nodeOf s with
    | .error e => .error e w
    | .ok n => .ok () { w with agenda := w.agenda.schedule n s delay }

/-- drop the pending appointment of a node; whether there was one -/
def cancel (n : NodeId) : Act α κ σ Bool := fun w =>
  let (found, agenda) := w.agenda.cancel n
  .ok found { w with agenda }

/-- a shape whose rule is about to run -/
def markExpanded (w : World α κ σ) (s : ShapeId) : World α κ σ :=
  (w.modifyShape s fun x => { x with state := .expanded }).note (.began s)

/-- expand a shape, given how rules are run -/
def runExpansion (expand : ShapeId → Act α κ σ Unit) (s : ShapeId) : Act α κ σ Unit := fun w =>
  match expand s (w.markExpanded s) with
  | .ok _ w => .ok () (w.note (.finished s))
  | .error e w => .error e w

/-- delete what a shape has generated and expand it again, now or, in a live world, after a positive delay -/
def generate [Scalar α] [SymbolKind κ] (expand : ShapeId → Act α κ σ Unit) (s : ShapeId) (delay : α) :
    Act α κ σ Unit := fun w =>
  if delay < Scalar.zero then .error (.negativeDelay delay) w
  else
    match deleteGenerated s w with
    | .error e w => .error e w
    | .ok _ w =>
      match w.nodeOf s with
      | .error _ => .error (.noContext (w.typeName s)) w
      | .ok n =>
        let w := { w with agenda := (w.agenda.cancel n).2 }
        if delay == Scalar.zero || !w.live then runExpansion expand s w else schedule s delay w

/-- a symbol generated by another one; in an eager world it is expanded at once -/
def createSymbol [SymbolKind κ] (expand : ShapeId → Act α κ σ Unit) (creator : ShapeId)
    (offer : KindOffer κ) (name : String) (parent : Option NodeId) (pose : Pose α) : Act α κ σ ShapeId :=
  fun w =>
    match placeSymbol creator offer name parent pose w with
    | .error e w => .error e w
    | .ok s w =>
      if w.eager then
        match runExpansion expand s w with
        | .ok _ w => .ok s w
        | .error e w => .error e w
      else .ok s w

/-- run what is due, at most the given number of appointments; the shapes expanded, in order -/
def runDue [Scalar α] (expand : ShapeId → Act α κ σ Unit) : Nat → List ShapeId → Act α κ σ (List ShapeId)
  | passes, done => fun w =>
    match w.agenda.popDue with
    | none => .ok done.reverse w
    | some (e, agenda) =>
      match passes with
      | 0 => .error .tooLong w
      | passes + 1 =>
        if e.cancelled then runDue expand passes done { w with agenda }
        else
          let w := { w with agenda := agenda.settle e.node }
          if w.shapeAlive e.shape then
            match runExpansion expand e.shape w with
            | .ok _ w => runDue expand passes (e.shape :: done) w
            | .error e w => .error e w
          else runDue expand passes done w

/-- move the clock and run what is due; `spare` bounds the appointments made and run meanwhile -/
def advance [Scalar α] (expand : ShapeId → Act α κ σ Unit) (spare : Nat) (dt : α) :
    Act α κ σ (List ShapeId) := fun w =>
  if dt < Scalar.zero then .error (.negativeStep dt) w
  else runDue expand (w.agenda.heap.size + spare) [] { w with agenda := w.agenda.tick dt }

end World

end SceneGrammar

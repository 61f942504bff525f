/-
Steps on symbols and on their components.

A new symbol's kind is offered as it stands, or as a scripted rule whose number is counted from that of the shape whose
rule is running (`KindSpec`). A terminal's template is given, or picked by the symbol at random (`Terminal`).
-/
import SceneGrammar.Script.Basic

namespace SceneGrammar.Script

/-- the kind of a new symbol -/
inductive KindSpec (α : Type) where
  | offered (offer : KindOffer (Kind α))
  /-- a scripted rule; its number is that of the running shape plus a difference -/
  | counted (rule : String) (shift : Int)

/-- the random source of a new root -/
inductive SourceSpec where
  | seeded (seed : Int)
  | kept (r : Ref)

/-- the template of a new terminal -/
inductive Terminal (α : Type) where
  | given (t : World.TemplateRef α)
  /-- one of these ids -/
  | pick (ids : List String)

/-- what can be asked about a shape -/
inductive Attribute where
  | context
  | node
  | nodeId
  | name
  | rootId
  | root
  | alive
  | state
  | count
  | generated
  deriving DecidableEq, Repr

/-- steps on symbols -/
inductive SymbolStep (α : Type) where
  | root (name : String) (kind : KindSpec α) (source : Option SourceSpec) (on : Ref) (place : Placing α)
  | create (on : Ref) (name : String) (kind : KindSpec α) (place : Placing α)
  | spawn (on : Ref) (what : Terminal α) (place : Placing α)
  | track (on node : Ref)
  | generate (on : Ref) (delay : α)
  | delete (on : Ref)
  | expand (on : Ref)
  /-- one of the generated nodes; a negative index counts from the end -/
  | generated (on : Ref) (index : Int)
  | inspect (on : Ref)
  | showText (on : Ref)
  | ask (on : Ref) (what : Attribute)
  | randomInt (on : Ref) (low high : Int)
  | randomFraction (on : Ref)
  | choose (on : Ref) (among : List (Datum α))
  /-- a shape outside the world -/
  | unbound (kind : Kind α)
  | bind (on node : Ref) (rootKey : Option Int)
  | setRule (on : Ref) (rule : String)
  /-- lower the number of a scripted shape by one -/
  | decrement (on : Ref)
  | raise (message : String)

/-- the class of a component -/
inductive ComponentClass where
  | source
  | relief
  | marker
  deriving DecidableEq, Repr

/-- a height map to make -/
inductive ReliefSpec (α : Type) where
  | flat (width height : Int) (fill : α)
  | noise (plan : Relief.Plan α) (width height : Int)

/-- steps on components -/
inductive ComponentStep (α : Type) where
  | source (seed : Int)
  | relief (spec : ReliefSpec α) (cells : List (Int × Int × α))
  | marker (value : Datum α)
  | attach (on component : Ref)
  | find (on : Ref) (what : ComponentClass)
  /-- take the first equal component away -/
  | detach (on component : Ref)
  /-- the source of roots that carry none -/
  | ambient

variable {α : Type}

/-- the number of a shape's kind -/
def countOf (w : World α (Kind α) (Memo α)) (s : ShapeId) : Int := ((w.shape? s).map (·.kind.count)).getD 0

/-- the node of a shape as a reply -/
def tellShape (s : ShapeId) : Routine α (Reply α) := do
  let n ← Prog.ask fun w => w.nodeOf s
  return .id n

namespace KindSpec

/-- the offer that is meant -/
def offer (self : Option ShapeId) : KindSpec α → Routine α (KindOffer (Kind α))
  | .offered o => return o
  | .counted rule shift => do
    let n ← Prog.see fun w => (self.map (countOf w)).getD 0
    return .of (.scripted rule (n + shift))

end KindSpec

namespace Attribute

/-- an attribute of a shape, and what it makes available under a name -/
def ofShape (w : World α (Kind α) (Memo α)) (s : ShapeId) : Attribute → Except (Fault α) (Reply α × Handle α)
  | .context => do
    w.inContext s
    return (.nothing, .nothing)
  | .node => do
    let n ← w.nodeOf s
    return (.id n, .node n)
  | .nodeId => do
    let n ← w.nodeOf s
    return (.id n, .nothing)
  | .name => do
    let name ← w.nameOf s
    return (.text name, .nothing)
  | .rootId => do
    let n ← w.rootKeyOf s
    return (.id n, .nothing)
  | .root => do
    let r ← w.rootOf s
    let n ← w.nodeOf r
    return (.id n, .shape r)
  | .alive => return (.flag (w.shapeAlive s), .nothing)
  | .state => return (.whole (((w.shape? s).map (·.state.number)).getD 0 : Nat), .nothing)
  | .count => return (.whole (w.generatedBy s).length, .nothing)
  | .generated => return (.ids (w.generatedBy s), .nothing)

end Attribute

namespace SymbolStep

variable [Scalar α]

/-- the reply and the handle of a new symbol -/
def made (s : ShapeId) : Routine α (Reply α × Handle α) := do
  let r ← tellShape s
  return (r, .shape s)

/-- an item of a list; a negative index counts from the end -/
def item? {β : Type} (l : List β) (index : Int) : Option β :=
  let i := if index < 0 then index + l.length else index
  if i < 0 then none else l[i.toNat]?

/-- run a step on symbols -/
def run (self : Option ShapeId) : SymbolStep α → Routine α (Reply α × Handle α)
  | .root name kind source on place => do
    let pose ← place.pose self on
    let parent ← place.under self
    let offer ← kind.offer self
    let source ← match source with
      | none => pure none
      | some (.seeded seed) => do
        let i ← Prog.act (.newSource seed)
        pure (some i)
      | some (.kept r) => do
        let i ← Script.sourceOf self r
        pure (some i)
    let s ← Prog.act (.createRoot offer name parent pose source)
    made s
  | .create on name kind place => do
    let creator ← shapeOf self on
    let pose ← place.pose self on
    let parent ← place.under self
    let offer ← kind.offer self
    let s ← Prog.act (.createSymbol creator offer name parent pose)
    made s
  | .spawn on what place => do
    let creator ← shapeOf self on
    let pose ← place.pose self on
    let parent ← place.under self
    let t ← match what with
      | .given t => pure t
      | .pick ids => do
        let id ← City.choose creator ids
        pure (.byId id)
    let n ← Prog.act (.spawn creator t parent pose)
    return (.id n, .node n)
  | .track on node => do
    let s ← shapeOf self on
    let n ← nodeOf self node
    Prog.act (.track s n)
    return (.id n, .node n)
  | .generate on delay => do
    let s ← shapeOf self on
    Prog.act (.generate s delay)
    return (.nothing, .nothing)
  | .delete on => do
    let s ← shapeOf self on
    Prog.act (.deleteGenerated s)
    return (.nothing, .nothing)
  | .expand on => do
    let s ← shapeOf self on
    Prog.act (.expand s)
    return (.nothing, .nothing)
  | .generated on index => do
    let s ← shapeOf self on
    let l ← Prog.see fun w => w.generatedBy s
    match item? l index with
    | some n => return (.id n, .node n)
    | none => Prog.fail (.noItem index)
  | .inspect on => do
    let s ← shapeOf self on
    let v ← Prog.ask fun w => viewShape w s
    return (.shape v, .nothing)
  | .showText on => do
    let s ← shapeOf self on
    let t ← Prog.see fun w => w.shapeText s
    return (.text t, .nothing)
  | .ask on what => do
    let s ← shapeOf self on
    Prog.ask fun w => what.ofShape w s
  | .randomInt on low high => do
    let s ← shapeOf self on
    let n ← Prog.act (.randomInt s low high)
    return (.whole n, .nothing)
  | .randomFraction on => do
    let s ← shapeOf self on
    let k ← Prog.act (.randomFraction s)
    return (.real (Scalar.unit k), .nothing)
  | .choose on among => do
    let s ← shapeOf self on
    let d ← City.choose s among
    return (.datum d, .nothing)
  | .unbound kind => do
    let s ← Prog.act (.newShape kind)
    return (.nothing, .shape s)
  | .bind on node rootKey => do
    let s ← shapeOf self on
    let n ← nodeOf self node
    Prog.act (.bind s n (rootKey.map Int.toNat))
    return (.nothing, .nothing)
  | .setRule on rule => do
    let s ← shapeOf self on
    let kind ← Prog.see fun w => (w.shape? s).map (·.kind.withRule rule)
    kind.forM fun k => Prog.act (.setKind s k)
    return (.nothing, .nothing)
  | .decrement on => do
    let s ← shapeOf self on
    let n ← Prog.see fun w => countOf w s - 1
    let kind ← Prog.see fun w => (w.shape? s).map (·.kind.withCount n)
    kind.forM fun k => Prog.act (.setKind s k)
    return (.whole n, .nothing)
  | .raise message => Prog.fail (.raised ("rule: " ++ message))

end SymbolStep

/-! ## Components -/

/-- whether a whole number and a scalar are equal -/
def sameNumber [Scalar α] (n : Int) (x : α) : Bool :=
  match Scalar.floor x with
  | .ok m => m == n && Scalar.ofInt n == x
  | .error _ => false

/-- equality of plain values; flags count as zero and one -/
def sameDatum [Scalar α] : Datum α → Datum α → Bool
  | .absent, .absent => true
  | .text s, .text t => s == t
  | .flag a, .flag b => a == b
  | .flag a, .whole n => (if a then 1 else 0) == n
  | .flag a, .real x => sameNumber (if a then 1 else 0) x
  | .whole m, .flag b => m == (if b then 1 else 0)
  | .whole m, .whole n => m == n
  | .whole m, .real x => sameNumber m x
  | .real x, .flag b => sameNumber (if b then 1 else 0) x
  | .real x, .whole n => sameNumber n x
  | .real x, .real y => x == y
  | _, _ => false

/-- equality of components: markers by value, others by number -/
def sameComponent [Scalar α] : Component α → Component α → Bool
  | .source i, .source j => i == j
  | .relief i _, .relief j _ => i == j
  | .marker d, .marker e => sameDatum d e
  | _, _ => false

namespace ComponentClass

/-- whether a component belongs to a class -/
def holds : ComponentClass → Component α → Bool
  | .source, .source _ => true
  | .relief, .relief .. => true
  | .marker, .marker _ => true
  | _, _ => false

end ComponentClass

namespace ReliefSpec

/-- the height map that is meant -/
def build [Scalar α] : ReliefSpec α → Except ReliefError (HeightMap α)
  | .flat width height fill => HeightMap.filled width height fill
  | .noise plan width height => Relief.noiseMap plan width height

end ReliefSpec

/-- a height map with some cells set -/
def fillCells (m : HeightMap α) (cells : List (Int × Int × α)) : Except ReliefError (HeightMap α) :=
  cells.foldlM (fun m (c : Int × Int × α) => m.set c.1 c.2.1 c.2.2) m

namespace ComponentStep

variable [Scalar α]

/-- a component as a reply and a handle -/
def told (c : Component α) : Routine α (Reply α × Handle α) := do
  let r ← Prog.see fun w => tell w c
  return (r, .component c)

/-- run a step on components -/
def run (self : Option ShapeId) : ComponentStep α → Routine α (Reply α × Handle α)
  | .source seed => do
    let i ← Prog.act (.newSource seed)
    told (.source i)
  | .relief spec cells => do
    let m ← Prog.ofExcept (spec.build.mapError .relief)
    let m ← Prog.ofExcept ((fillCells m cells).mapError .relief)
    let number ← Prog.see fun w => w.user.reliefs
    remember fun k => { k with reliefs := k.reliefs + 1 }
    told (.relief number m)
  | .marker value => told (.marker value)
  | .attach on component => do
    let s ← shapeOf self on
    let c ← componentOf self component
    Catalogue.attachComponent s c
    told c
  | .find on what => do
    let s ← shapeOf self on
    let found ← Prog.see fun w => (w.componentsOf s).find? what.holds
    match found with
    | some c => told c
    | none => return (.nothing, .nothing)
  | .detach on component => do
    let s ← shapeOf self on
    let c ← componentOf self component
    let cs ← Prog.see fun w => w.componentsOf s
    Prog.act (.setComponents s (cs.eraseP (sameComponent c)))
    return (.nothing, .nothing)
  | .ambient => do
    let i ← Prog.see fun w => w.ambient
    told (.source i)

end ComponentStep

end SceneGrammar.Script

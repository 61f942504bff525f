/-
The city grammar.

A city is a grid of lots: each is under water and stays empty, becomes a park, or holds a block. A block holds one to
four buildings on fixed slots. A building is a stack, a stack is one floor of facade with the rest of the stack or the
roof above it, and a roof is a terminal. Facades, roofs and parks are templates.

The rules work over any type `κ` of kinds that the city's kinds can be put into.
-/
import SceneGrammar.Program

namespace SceneGrammar.City

/-- the parameters of a city -/
structure Plan (α : Type) where
  blocksX : Int
  blocksY : Int
  blockSize : α
  maxFloors : Int
  emptyLotChance : α
  waterLevel : α

/-- the symbols of a city -/
inductive Kind (α : Type) where
  | city (plan : Plan α)
  | block (maxFloors : Int)
  | building (floors : Int)
  /-- `ground` tells the lowest stack of a building -/
  | stack (floors : Int) (ground : Bool)
  | roof

/-- the name of a symbol's kind -/
def Kind.typeName {α : Type} : Kind α → String
  | .city _ => "City"
  | .block _ => "Block"
  | .building _ => "Building"
  | .stack _ _ => "Stack"
  | .roof => "Roof"

instance {α : Type} : SymbolKind (Kind α) := ⟨Kind.typeName⟩

variable {α : Type} [Scalar α]

namespace Plan

/-- what holds unless something else is asked for -/
def standard : Plan α :=
  { blocksX := 4, blocksY := 4, blockSize := 12.0, maxFloors := 6, emptyLotChance := 0.15, waterLevel := 0.3 }

/-- the city that a configuration asks for -/
def ofConfig (c : Config α) : Plan α :=
  { blocksX := c.blocksX, blocksY := c.blocksY, blockSize := c.blockSize, maxFloors := c.maxFloors
    emptyLotChance := c.emptyLotChance, waterLevel := c.waterLevel }

end Plan

/-! ## Templates -/

/-- a vector of three integers -/
def at3 (x y z : Int) : Vector3 α := ⟨Scalar.ofInt x, Scalar.ofInt y, Scalar.ofInt z⟩

/-- a part without parts of its own -/
def part (id name : String) (offset : Vector3 α) : Template α := ⟨id, name, [], offset, []⟩

/-- the four sides of one floor -/
def facade (id name : String) : Template α :=
  { id, name, offset := .origin, tags := ["facade"]
    parts := [part (id ++ "_north") "North" (at3 0 0 1), part (id ++ "_east") "East" (at3 1 0 0),
      part (id ++ "_south") "South" (at3 0 0 (-1)), part (id ++ "_west") "West" (at3 (-1) 0 0)] }

/-- the terminals of a city -/
def templates : TemplateLibrary α := .ofList
  [facade "door_wall" "Door Wall",
   facade "shop_wall" "Shop Front",
   facade "wall" "Wall",
   facade "window_wall" "Window Wall",
   facade "balcony_wall" "Balcony Wall",
   ⟨"roof_flat", "Flat Roof", [], .origin, ["roof"]⟩,
   ⟨"roof_pointed", "Pointed Roof", [], .origin, ["roof"]⟩,
   ⟨"roof_garden", "Roof Garden", [part "tree" "Tree" ⟨0.5, Scalar.zero, 0.5⟩], .origin, ["roof"]⟩,
   ⟨"park", "Park", [part "tree" "Tree" (at3 (-2) 0 1), part "tree" "Tree" (at3 2 0 (-1)),
     part "bench" "Bench" .origin], .origin, ["ground"]⟩]

/-- what the ground floor of a building is made of -/
def groundFloors : List String := ["door_wall", "shop_wall"]

/-- what the other floors are made of -/
def upperFloors : List String := ["wall", "window_wall", "balcony_wall"]

/-- what a roof is made of -/
def roofs : List String := ["roof_flat", "roof_pointed", "roof_garden"]

/-- the corners of a block on which buildings stand, in units of `slotOffset` -/
def slots : List (Int × Int) := [(-1, -1), (1, -1), (-1, 1), (1, 1)]

/-- how far buildings stand from the middle of their block -/
def slotOffset : α := 2.5

/-- the height of one floor -/
def floorHeight : α := Scalar.ofInt 3

/-! ## Rules -/

variable {κ σ : Type} [SymbolKind κ]

/-- one of a list of texts, drawn by a symbol; nothing is drawn from an empty list -/
def choose {β : Type} (self : ShapeId) (xs : List β) : Prog α κ σ β := do
  if xs.isEmpty then Prog.fail .noChoice
  else
    let i ← Prog.act (.randomInt self 0 xs.length)
    match xs[i.toNat]? with
    | some x => return x
    | none => Prog.fail .noChoice

/-- whether a lot is under water -/
def isWater (plan : Plan α) (relief : Option (HeightMap α)) (x y : Nat) : Except NumberError Bool :=
  match relief with
  | none => .ok false
  | some m => do
    let u ← Scalar.divide (Scalar.ofInt x + 0.5) (Scalar.ofInt plan.blocksX)
    let v ← Scalar.divide (Scalar.ofInt y + 0.5) (Scalar.ofInt plan.blocksY)
    return (← m.sample u v) < plan.waterLevel

/-- where a lot lies -/
def lotPosition (plan : Plan α) (x y : Nat) : Vector3 α :=
  ⟨Scalar.ofInt x * plan.blockSize, Scalar.zero, Scalar.ofInt y * plan.blockSize⟩

/-- the rule of one lot: nothing under water, else a park or a block -/
def lot (put : Kind α → κ) (plan : Plan α) (self : ShapeId) (relief : Option (HeightMap α)) (x y : Nat) :
    Prog α κ σ Unit := do
  if ← Prog.ofExcept ((isWater plan relief x y).mapError .number) then return
  let pose := Pose.displaced (lotPosition plan x y)
  let k ← Prog.act (.randomFraction self)
  if Scalar.unit k < plan.emptyLotChance then
    let _ ← Prog.act (.spawn self (.byId "park") none pose)
  else
    let name := "Block_" ++ toString x ++ "_" ++ toString y
    let _ ← Prog.act (.createSymbol self (.of (put (.block plan.maxFloors))) name none pose)

/-- the rule of a city: its lots, column by column -/
def cityRule (put : Kind α → κ) (plan : Plan α) (self : ShapeId) : Prog α κ σ Unit := do
  let relief ← Prog.ask fun w => w.reliefOf self
  (List.range plan.blocksX.toNat).forM fun x =>
    (List.range plan.blocksY.toNat).forM fun y => lot put plan self relief x y

/-- the rule of one slot of a block: a building turned by a quarter, of random height -/
def slot (put : Kind α → κ) (maxFloors : Int) (self : ShapeId) (i : Nat) (corner : Int × Int) :
    Prog α κ σ Unit := do
  let quarter ← Prog.act (.randomInt self 0 4)
  let rotation ← Prog.ofExcept
    ((Quaternion.ofEuler Scalar.zero (Scalar.ofInt 90 * Scalar.ofInt quarter) Scalar.zero).mapError .number)
  let position : Vector3 α :=
    ⟨Scalar.ofInt corner.1 * slotOffset, Scalar.zero, Scalar.ofInt corner.2 * slotOffset⟩
  let floors ← Prog.act (.randomInt self 1 (maxFloors + 1))
  let _ ← Prog.act (.createSymbol self (.of (put (.building floors))) ("Building_" ++ toString i) none
    ⟨position, rotation⟩)

/-- the rule of a block: one to four buildings -/
def blockRule (put : Kind α → κ) (maxFloors : Int) (self : ShapeId) : Prog α κ σ Unit := do
  let count ← Prog.act (.randomInt self 1 (slots.length + 1))
  (slots.take count.toNat).zipIdx.forM fun (corner, i) => slot put maxFloors self i corner

/-- the rule of a building: its lowest stack -/
def buildingRule (put : Kind α → κ) (floors : Int) (self : ShapeId) : Prog α κ σ Unit := do
  let _ ← Prog.act (.createSymbol self (.of (put (.stack floors true))) "Stack" none .rest)

/-- the rule of a stack: one floor, and above it the rest or the roof -/
def stackRule (put : Kind α → κ) (floors : Int) (ground : Bool) (self : ShapeId) : Prog α κ σ Unit := do
  let id ← choose self (if ground then groundFloors else upperFloors)
  let _ ← Prog.act (.spawn self (.byId id) none .rest)
  let above := Pose.displaced ⟨Scalar.zero, floorHeight, Scalar.zero⟩
  if 1 < floors then
    let _ ← Prog.act (.createSymbol self (.of (put (.stack (floors - 1) false))) "Stack" none above)
  else
    let _ ← Prog.act (.createSymbol self (.of (put .roof)) "Roof" none above)

/-- the rule of a roof: one terminal -/
def roofRule (self : ShapeId) : Prog α κ σ Unit := do
  let id ← choose self roofs
  let _ ← Prog.act (.spawn self (.byId id) none .rest)

/-- the rules of a city -/
def rule (put : Kind α → κ) (kind : Kind α) (self : ShapeId) : Prog α κ σ Unit :=
  match kind with
  | .city plan => cityRule put plan self
  | .block maxFloors => blockRule put maxFloors self
  | .building floors => buildingRule put floors self
  | .stack floors ground => stackRule put floors ground self
  | .roof => roofRule self

end SceneGrammar.City

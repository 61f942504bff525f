/-
What a city looks like.

A `Lot` tells what stands on one lot: a park, or a block with its `House`s; a house has its stacks, from the ground up,
and its roof. `World.CityOn` says that a world shows these lots on the list of a city's root: each is a copy of the park's
template, or a symbol that carries exactly its houses, and so on down to the facades and what the roofs are made of. Each
of these predicates, but the last, is about nodes younger than the one it is given, and holds as long as these are upheld.
-/
import SceneGrammar.City
import SceneGrammar.Proofs.Cityscape.Gains

namespace SceneGrammar

namespace City

/-- a building: its node, its stacks from the ground up, its roof, and what the roof is made of -/
structure House where
  node : NodeId
  tiers : List NodeId
  roof : NodeId
  top : String

/-- the number of floors of a building -/
def House.floors (h : House) : Nat := h.tiers.length

/-- the draws for a building: for its turn, its height, a facade on each floor, and its roof -/
def House.draws (h : House) : Nat := h.floors + 3

/-- one more node stands on a roof with a garden -/
def garden (top : String) : Nat := if top = "roof_garden" then 1 else 0

/-- the nodes of a building: six for each floor, its own, its roof's, and those of what the roof is made of -/
def House.size (h : House) : Nat := 6 * h.floors + 3 + garden h.top

/-- what a building takes -/
def House.bill (h : House) : Bill := ⟨h.draws, h.size⟩

/-- what stands on a lot that is not under water -/
inductive Lot where
  | park (node : NodeId)
  | block (node : NodeId) (houses : List House)

/-- the node that stands on a lot -/
def Lot.node : Lot → NodeId
  | .park n => n
  | .block n _ => n

/-- the buildings on a lot -/
def Lot.houses : Lot → List House
  | .park _ => []
  | .block _ hs => hs

/-- the draws for what stands on a lot: for the number of its buildings, and for these -/
def Lot.draws : Lot → Nat
  | .park _ => 0
  | .block _ hs => 1 + (hs.map House.draws).sum

/-- the nodes of what stands on a lot -/
def Lot.size : Lot → Nat
  | .park _ => 4
  | .block _ hs => 1 + (hs.map House.size).sum

/-- what a lot takes, with the draw that tells blocks from parks -/
def Lot.bill (lot : Lot) : Bill := ⟨1 + lot.draws, lot.size⟩

variable {α : Type} [Scalar α]

/-- the place on top of a floor -/
def aloft : Pose α := .displaced ⟨Scalar.zero, floorHeight, Scalar.zero⟩

/-- the place of a building on its slot -/
def slotPosition (corner : Int × Int) : Vector3 α :=
  ⟨Scalar.ofInt corner.1 * slotOffset, Scalar.zero, Scalar.ofInt corner.2 * slotOffset⟩

/-- the facades of a floor -/
def facades (ground : Bool) : List String := if ground then groundFloors else upperFloors

/-- whether a lot is found not to be under water -/
def isDry (plan : Plan α) (relief : Option (HeightMap α)) (place : Nat × Nat) : Bool :=
  match isWater plan relief place.1 place.2 with
  | .ok wet => !wet
  | .error _ => false

/-- the lots that are not under water, column by column -/
def dryLots (plan : Plan α) (relief : Option (HeightMap α)) : List (Nat × Nat) :=
  (List.range plan.blocksX.toNat ×ˢ List.range plan.blocksY.toNat).filter (isDry plan relief)

end City

namespace World

open City

variable {α κ σ : Type} [Scalar α] {w v : World α κ σ} {k : NodeId}

/-- a copy of one of the city's templates, whose id is among some -/
structure Fixture (w : World α κ σ) (ids : List String) (id : String) (t : Template α) (under : NodeId) (pose : Pose α)
    (n : NodeId) : Prop where
  choice : id ∈ ids
  template : (City.templates : TemplateLibrary α).find? id = some t
  younger : under < n
  copy : w.Copied t (some under) pose n

variable (put : City.Kind α → κ)

/-- a roof, which holds one terminal -/
def RoofOn (w : World α κ σ) (under : NodeId) (pose : Pose α) (n : NodeId) (top : String) : Prop :=
  ∃ t leaf, w.Raised (put .roof) "Roof" under pose n [leaf] ∧ w.Fixture roofs top t n .rest leaf

/-- stacks, each of which holds a facade with four parts and what stands on top of it: the next stack, or the roof -/
def Storeys (w : World α κ σ) (roof : NodeId) (top : String) : Bool → NodeId → Pose α → List NodeId → Prop
  | _, under, pose, [] => w.RoofOn put under pose roof top
  | ground, under, pose, n :: above =>
    (∃ wall id t, w.Raised (put (.stack (above.length + 1) ground)) "Stack" under pose n [wall, above.headD roof] ∧
      w.Fixture (facades ground) id t n .rest wall ∧ t.parts.length = 4) ∧
    Storeys w roof top false n aloft above

/-- a building on a slot of a block, turned by some quarters -/
structure HouseOn (w : World α κ σ) (maxFloors : Int) (block : NodeId) (slot : (Int × Int) × Nat) (h : House) : Prop where
  floors : 1 ≤ h.floors ∧ h.floors ≤ maxFloors
  node : ∃ (quarter : Int) (rotation : Quaternion α), (0 ≤ quarter ∧ quarter < 4) ∧
    Quaternion.ofEuler Scalar.zero (Scalar.ofInt 90 * Scalar.ofInt quarter) Scalar.zero = .ok rotation ∧
    w.Raised (put (.building h.floors)) ("Building_" ++ toString slot.2) block ⟨slotPosition slot.1, rotation⟩ h.node
      [h.tiers.headD h.roof]
  storeys : w.Storeys put h.roof h.top true h.node .rest h.tiers

/-- what stands on a lot: a park, or a block with one to four buildings on the first slots -/
def LotOn (w : World α κ σ) (plan : City.Plan α) (root : NodeId) (place : Nat × Nat) : Lot → Prop
  | .park n => ∃ t, w.Fixture ["park"] "park" t root (.displaced (lotPosition plan place.1 place.2)) n
  | .block n houses =>
    w.Raised (put (.block plan.maxFloors)) ("Block_" ++ toString place.1 ++ "_" ++ toString place.2) root
      (.displaced (lotPosition plan place.1 place.2)) n (houses.map House.node) ∧
    (1 ≤ houses.length ∧ houses.length ≤ 4) ∧
    List.Forall₂ (w.HouseOn put plan.maxFloors n) (slots.take houses.length).zipIdx houses

/-- on the list of a city's root stands one thing for each lot that is not under water -/
structure CityOn (w : World α κ σ) (plan : City.Plan α) (relief : Option (HeightMap α)) (s : ShapeId) (root : NodeId)
    (lots : List Lot) : Prop where
  list : w.generatedBy s = lots.map Lot.node
  lots : List.Forall₂ (w.LotOn put plan root) (dryLots plan relief) lots

/-! ## What is upheld -/

section

variable {put}

theorem Fixture.upheld {ids : List String} {id : String} {t : Template α} {under n : NodeId} {pose : Pose α}
    (h : w.Fixture ids id t under pose n) (hk : k ≤ under) (hup : Upholds k w v) : v.Fixture ids id t under pose n :=
  { h with copy := Copied.upheld hup.node t _ _ n (hk.trans_lt h.younger) h.copy }

theorem RoofOn.upheld {under n : NodeId} {pose : Pose α} {top : String} (h : w.RoofOn put under pose n top)
    (hk : k ≤ under) (hup : Upholds k w v) : v.RoofOn put under pose n top := by
  obtain ⟨t, leaf, hn, hleaf⟩ := h
  exact ⟨t, leaf, hn.upheld hk hup, hleaf.upheld (hk.trans hn.younger.le) hup⟩

theorem Storeys.upheld (hup : Upholds k w v) {roof : NodeId} {top : String} {ground : Bool} {under : NodeId}
    {pose : Pose α} {tiers : List NodeId} (h : w.Storeys put roof top ground under pose tiers) (hk : k ≤ under) :
    v.Storeys put roof top ground under pose tiers := by
  induction tiers generalizing ground under pose with
  | nil => exact RoofOn.upheld h hk hup
  | cons n above ih =>
    obtain ⟨⟨wall, id, t, hn, hwall, hparts⟩, habove⟩ := h
    have hkn : k ≤ n := hk.trans hn.younger.le
    exact ⟨⟨wall, id, t, hn.upheld hk hup, hwall.upheld hkn hup, hparts⟩, ih habove hkn⟩

theorem HouseOn.upheld {maxFloors : Int} {block : NodeId} {slot : (Int × Int) × Nat} {h : House}
    (hh : w.HouseOn put maxFloors block slot h) (hk : k ≤ block) (hup : Upholds k w v) :
    v.HouseOn put maxFloors block slot h := by
  obtain ⟨hfloors, ⟨quarter, rotation, hquarter, hrotation, hn⟩, hstoreys⟩ := hh
  exact ⟨hfloors, ⟨quarter, rotation, hquarter, hrotation, hn.upheld hk hup⟩,
    Storeys.upheld hup hstoreys (hk.trans hn.younger.le)⟩

theorem LotOn.upheld {plan : City.Plan α} {root : NodeId} {place : Nat × Nat} {lot : Lot}
    (h : w.LotOn put plan root place lot) (hk : k ≤ root) (hup : Upholds k w v) : v.LotOn put plan root place lot := by
  cases lot with
  | park n =>
    obtain ⟨t, ht⟩ := h
    exact ⟨t, ht.upheld hk hup⟩
  | block n houses =>
    obtain ⟨hn, hcount, hhouses⟩ := h
    have hkn : k ≤ n := hk.trans hn.younger.le
    exact ⟨hn.upheld hk hup, hcount, hhouses.imp fun slot house hh => hh.upheld hkn hup⟩

end

end World

end SceneGrammar

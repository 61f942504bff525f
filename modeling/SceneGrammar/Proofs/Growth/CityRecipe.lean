/-
The rules of a city are recipes, and grow.

`City.rule_eq`: the rule of every kind is the program of a recipe. `Kind.rank` bounds how deep rules run inside one
another below a symbol; `Kind.Viable` says what a symbol needs: at least one floor, a number of floors within the range
of draws. `City.grows`: in a context that holds the templates, with scalars that are exact, a viable symbol's rule does
not fail when rules may run as deep as its rank.
-/
import SceneGrammar.City
import SceneGrammar.Proofs.Exact
import SceneGrammar.Proofs.Growth.Completion

namespace SceneGrammar.City

variable {α σ : Type} [Scalar α]

/-! ## Recipes -/

/-- a number of `[low, high)` -/
def roll (low high : Int) : Recipe α (Kind α) Int := .integer low high .done

/-- a fraction, as the integer `k` of `k / 2 ^ 53` -/
def chance : Recipe α (Kind α) Nat := .fraction .done

/-- a symbol under the own node -/
def put (kind : Kind α) (name : String) (pose : Pose α) : Recipe α (Kind α) Unit :=
  .symbol (.of kind) name pose (.done ())

/-- a terminal under the own node -/
def stand (id : String) (pose : Pose α) : Recipe α (Kind α) Unit := .terminal (.byId id) pose (.done ())

/-- one of a list of texts -/
def pick {β : Type} (xs : List β) : Recipe α (Kind α) β :=
  if xs.isEmpty then .fail .noChoice
  else do
    let i ← roll 0 xs.length
    match xs[i.toNat]? with
    | some x => return x
    | none => .fail .noChoice

/-- one lot -/
def lotRecipe (plan : Plan α) (relief : Option (HeightMap α)) (x y : Nat) : Recipe α (Kind α) Unit := do
  let wet ← Recipe.ofExcept ((isWater plan relief x y).mapError .number)
  if wet then return
  let k ← chance
  if Scalar.unit k < plan.emptyLotChance then stand "park" (.displaced (lotPosition plan x y))
  else put (.block plan.maxFloors) ("Block_" ++ toString x ++ "_" ++ toString y) (.displaced (lotPosition plan x y))

/-- all lots -/
def cityRecipe (plan : Plan α) : Recipe α (Kind α) Unit :=
  .relief fun relief =>
    (List.range plan.blocksX.toNat).forM fun x =>
      (List.range plan.blocksY.toNat).forM fun y => lotRecipe plan relief x y

/-- one slot of a block -/
def slotRecipe (maxFloors : Int) (i : Nat) (corner : Int × Int) : Recipe α (Kind α) Unit := do
  let quarter ← roll 0 4
  let rotation ← Recipe.ofExcept
    ((Quaternion.ofEuler Scalar.zero (Scalar.ofInt 90 * Scalar.ofInt quarter) Scalar.zero).mapError .number)
  let floors ← roll 1 (maxFloors + 1)
  put (.building floors) ("Building_" ++ toString i)
    ⟨⟨Scalar.ofInt corner.1 * slotOffset, Scalar.zero, Scalar.ofInt corner.2 * slotOffset⟩, rotation⟩

/-- one to four slots -/
def blockRecipe (maxFloors : Int) : Recipe α (Kind α) Unit := do
  let count ← roll 1 (slots.length + 1)
  (slots.take count.toNat).zipIdx.forM fun s => slotRecipe maxFloors s.2 s.1

/-- one floor, and what stands on it -/
def stackRecipe (floors : Int) (ground : Bool) : Recipe α (Kind α) Unit := do
  let id ← pick (if ground then groundFloors else upperFloors)
  stand id .rest
  if 1 < floors then put (.stack (floors - 1) false) "Stack" (.displaced ⟨Scalar.zero, floorHeight, Scalar.zero⟩)
  else put .roof "Roof" (.displaced ⟨Scalar.zero, floorHeight, Scalar.zero⟩)

/-- one terminal -/
def roofRecipe : Recipe α (Kind α) Unit := do
  let id ← pick roofs
  stand id .rest

/-- the recipes of a city -/
def recipe : Kind α → Recipe α (Kind α) Unit
  | .city plan => cityRecipe plan
  | .block maxFloors => blockRecipe maxFloors
  | .building floors => put (.stack floors true) "Stack" .rest
  | .stack floors ground => stackRecipe floors ground
  | .roof => roofRecipe

section

variable (self : ShapeId)

omit [Scalar α] in
theorem pick_toProg {β : Type} (xs : List β) : (pick xs).toProg self = (choose self xs : Prog α (Kind α) σ β) := by
  unfold pick choose
  split_ifs
  · rfl
  · rw [Recipe.toProg_bind]
    show _ = Prog.bind _ _
    congr 1
    funext i
    cases xs[i.toNat]? <;> rfl

theorem lot_toProg (plan : Plan α) (relief : Option (HeightMap α)) (x y : Nat) :
    (lotRecipe plan relief x y).toProg self = (lot id plan self relief x y : Prog α (Kind α) σ Unit) := by
  unfold lotRecipe lot
  rw [Recipe.toProg_bind, Recipe.toProg_ofExcept]
  congr 1
  funext wet
  cases wet with
  | true => rfl
  | false =>
    show (chance >>= _).toProg self = _
    rw [Recipe.toProg_bind]
    show Prog.perform _ _ = Prog.perform _ _
    congr 1
    funext k
    show Recipe.toProg self (if Scalar.unit k < _ then _ else _) = if Scalar.unit k < _ then _ else _
    split_ifs
    · rfl
    · rfl

theorem slot_toProg (maxFloors : Int) (i : Nat) (corner : Int × Int) :
    (slotRecipe maxFloors i corner).toProg self = (slot id maxFloors self i corner : Prog α (Kind α) σ Unit) := by
  unfold slotRecipe slot
  rw [Recipe.toProg_bind]
  show Prog.perform _ _ = Prog.perform _ _
  congr 1
  funext quarter
  show Recipe.toProg self (_ >>= _) = _
  rw [Recipe.toProg_bind, Recipe.toProg_ofExcept]
  rfl

/-- the rules of a city are recipes -/
theorem rule_eq (kind : Kind α) : (rule id kind self : Prog α (Kind α) σ Unit) = (recipe kind).toProg self := by
  symm
  cases kind with
  | city plan =>
    unfold rule cityRule recipe cityRecipe
    simp only [Recipe.toProg]
    show Prog.look _ _ = Prog.look _ _
    congr 1
    funext r
    cases r with
    | error e => rfl
    | ok relief =>
      show Recipe.toProg self (List.forM _ _) = List.forM _ _
      rw [Recipe.toProg_forM]
      congr 1
      funext x
      rw [Recipe.toProg_forM]
      congr 1
      funext y
      exact lot_toProg self plan relief x y
  | block maxFloors =>
    show Recipe.toProg self (_ >>= _) = _
    rw [Recipe.toProg_bind]
    show Prog.perform _ _ = Prog.perform _ _
    congr 1
    funext count
    show Recipe.toProg self (List.forM _ _) = List.forM _ _
    rw [Recipe.toProg_forM]
    congr 1
    funext s
    exact slot_toProg self maxFloors s.2 s.1
  | building floors => rfl
  | stack floors ground =>
    show Recipe.toProg self (_ >>= _) = _
    rw [Recipe.toProg_bind, pick_toProg]
    show Prog.bind _ _ = Prog.bind _ _
    congr 1
    funext id
    show Prog.perform _ _ = Prog.perform _ _
    congr 1
    funext n
    show Recipe.toProg self (if 1 < floors then _ else _) = if 1 < floors then _ else _
    split_ifs
    · rfl
    · rfl
  | roof =>
    show Recipe.toProg self (_ >>= _) = _
    rw [Recipe.toProg_bind, pick_toProg]
    rfl

end

/-! ## Growth -/

/-- a greatest number of floors that a number can be drawn up to -/
def Drawable (maxFloors : Int) : Prop := 1 ≤ maxFloors ∧ Rounding.toBits 53 maxFloors.toNat < Nat.pow 2 1024

/-- what a symbol needs to grow -/
def Kind.Viable : Kind α → Prop
  | .city plan => Drawable plan.maxFloors
  | .block maxFloors => Drawable maxFloors
  | .building floors => 1 ≤ floors
  | .stack floors _ => 1 ≤ floors
  | .roof => True

/-- how deep rules run inside one another at a symbol -/
def Kind.rank : Kind α → Nat
  | .city plan => Rounding.toBits 53 plan.maxFloors.toNat + 4
  | .block maxFloors => Rounding.toBits 53 maxFloors.toNat + 3
  | .building floors => floors.toNat + 2
  | .stack floors _ => floors.toNat + 1
  | .roof => 1

/-- a library that holds the templates of a city -/
def Stocked (l : TemplateLibrary α) : Prop := ∀ t ∈ (templates : TemplateLibrary α).entries, (l.find? t.id).isSome = true

theorem Stocked.find? {l : TemplateLibrary α} (h : Stocked l) {id : String}
    (hid : id ∈ (templates : TemplateLibrary α).order) : (l.find? id).isSome = true := by
  obtain ⟨t, ht, rfl⟩ := List.mem_map.1 hid
  exact h t ht

/-- the ids of the templates -/
theorem order_templates : (templates : TemplateLibrary α).order =
    groundFloors ++ upperFloors ++ roofs ++ ["park"] := by
  simp [TemplateLibrary.order, templates, TemplateLibrary.ofList, TemplateLibrary.register, TemplateLibrary.contains,
    TemplateLibrary.empty, facade, groundFloors, upperFloors, roofs]

section

variable {ctx : GrowthContext α (Kind α)} {expand : Option Nat → Grow α (Kind α) Unit} {self : Option Nat}

theorem completes_roll {low high : Int} (hlt : low < high)
    (hfits : Rounding.toBits 53 (high - low).toNat < Nat.pow 2 1024) :
    Recipe.Completes ctx expand self (fun x => low ≤ x ∧ x < low + Rounding.toBits 53 (high - low).toNat)
      (roll low high) := by
  exact .integer hlt hfits fun x hle hup => .pure ⟨hle, hup⟩

/-- a draw of a small range stays in the range -/
theorem completes_roll_small {low high : Int} (hlt : low < high) (hsmall : (high - low).toNat < Nat.pow 2 53) :
    Recipe.Completes ctx expand self (fun x => low ≤ x ∧ x < high) (roll low high) := by
  refine .integer hlt (Rounding.toBits_fits hsmall) fun x hle hup => .pure ⟨hle, ?_⟩
  rw [Rounding.toBits_of_lt hsmall] at hup
  omega

theorem completes_pick {β : Type} {xs : List β} (hne : xs ≠ []) (hsmall : xs.length < Nat.pow 2 53) :
    Recipe.Completes ctx expand self (· ∈ xs) (pick xs) := by
  have hpos := List.length_pos_iff.2 hne
  have hempty : ¬ xs.isEmpty = true := by simpa using hne
  unfold pick
  rw [if_neg hempty]
  apply (completes_roll_small (by omega) (by simpa using hsmall)).bind
  rintro i ⟨h0, hlt⟩
  have hi : i.toNat < xs.length := by omega
  simp only [List.getElem?_eq_getElem hi]
  exact .pure (List.getElem_mem hi)

theorem completes_stand (hlib : Stocked ctx.templates) {id : String}
    (hid : id ∈ (templates : TemplateLibrary α).order) (pose : Pose α) :
    Recipe.Completes ctx expand self (fun _ => True) (stand id pose) :=
  .terminal (hlib.find? hid) (.pure trivial)

theorem completes_put {kind : Kind α}
    (he : ∀ j P, (P.shapes[j]?).map (·.kind) = some kind → ∃ P', expand (some j) P = .ok () P')
    (name : String) (pose : Pose α) : Recipe.Completes ctx expand self (fun _ => True) (put kind name pose) :=
  .symbol he (.pure trivial)

/-- whether a lot is under water is decided -/
theorem isWater_decided [ExactScalar α] (plan : Plan α) (relief : Option (HeightMap α)) {x y : Nat}
    (hx : x < plan.blocksX.toNat) (hy : y < plan.blocksY.toNat) : ∃ b, isWater plan relief x y = .ok b := by
  cases relief with
  | none => exact ⟨false, rfl⟩
  | some m =>
    obtain ⟨u, hu⟩ := ExactScalar.divides (Scalar.ofInt x + 0.5 : α) (show plan.blocksX ≠ 0 by omega)
    obtain ⟨v, hv⟩ := ExactScalar.divides (Scalar.ofInt y + 0.5 : α) (show plan.blocksY ≠ 0 by omega)
    obtain ⟨h, hh⟩ := ExactScalar.samples m u v
    unfold isWater
    simp only [hu, hv]
    exact ⟨decide (h < plan.waterLevel), by simp only [bind, Except.bind, hh, pure, Except.pure]⟩

/-- a lot is left free, or gets a park or a block -/
theorem completes_lot [ExactScalar α] (hlib : Stocked ctx.templates) {plan : Plan α}
    (hblock : ∀ j P, (P.shapes[j]?).map (·.kind) = some (.block plan.maxFloors : Kind α) →
      ∃ P', expand (some j) P = .ok () P') {x y : Nat} (hx : x < plan.blocksX.toNat) (hy : y < plan.blocksY.toNat) :
    Recipe.Completes ctx expand self (fun _ => True) (lotRecipe plan ctx.relief x y) := by
  obtain ⟨wet, hwet⟩ := isWater_decided plan ctx.relief hx hy
  have hpark : "park" ∈ (templates : TemplateLibrary α).order := by rw [order_templates]; simp
  unfold lotRecipe
  rw [hwet]
  apply Recipe.Completes.bind (.ofExcept rfl trivial : Recipe.Completes ctx expand self (fun _ => True) _)
  intro wet _
  cases wet with
  | true => exact .pure trivial
  | false =>
    refine .fraction fun k => ?_
    show Recipe.Completes ctx expand self _ (if Scalar.unit k < _ then _ else _)
    split_ifs
    · exact completes_stand hlib hpark _
    · exact completes_put hblock _ _

/-- a slot of a block gets a building with one floor at least, and no more than can be drawn -/
theorem completes_slot [ExactScalar α] {maxFloors : Int} (hdraw : Drawable maxFloors)
    (hbuilding : ∀ floors, 1 ≤ floors → floors < 1 + (Rounding.toBits 53 maxFloors.toNat : Int) →
      ∀ j P, (P.shapes[j]?).map (·.kind) = some (.building floors : Kind α) → ∃ P', expand (some j) P = .ok () P')
    (i : Nat) (corner : Int × Int) :
    Recipe.Completes ctx expand self (fun _ => True) (slotRecipe maxFloors i corner) := by
  have hquarter : ((4 : Int) - 0).toNat < Nat.pow 2 53 := by decide
  apply (completes_roll_small (by decide) hquarter).bind
  rintro quarter ⟨h0, h4⟩
  obtain ⟨q, hq⟩ := ExactScalar.turns (α := α) h0 h4
  rw [hq]
  apply Recipe.Completes.bind (.ofExcept rfl trivial : Recipe.Completes ctx expand self (fun _ => True) _)
  intro rotation _
  obtain ⟨h1, hfits⟩ := hdraw
  have hwidth : maxFloors + 1 - 1 = maxFloors := by omega
  apply (completes_roll (by omega) (by rw [hwidth]; exact hfits)).bind
  rintro floors ⟨hge, hlt⟩
  rw [hwidth] at hlt
  exact completes_put (hbuilding floors hge hlt) _ _

/-- **One symbol.** Its rule does not fail if the rules of the symbols of lesser rank do not. -/
theorem recipe_completes [ExactScalar α] (hlib : Stocked ctx.templates) {kind : Kind α} (hviable : kind.Viable)
    (he : ∀ child : Kind α, child.Viable → child.rank < kind.rank →
      ∀ j P, (P.shapes[j]?).map (·.kind) = some child → ∃ P', expand (some j) P = .ok () P') :
    Recipe.Completes ctx expand self (fun _ => True) (recipe kind) := by
  cases kind with
  | city plan =>
    refine .relief (.forM fun x hx => .forM fun y hy => ?_)
    have hblock := he (.block plan.maxFloors) hviable (Nat.lt_succ_self _)
    exact completes_lot hlib hblock (List.mem_range.1 hx) (List.mem_range.1 hy)
  | block maxFloors =>
    have hslots : ((slots.length : Int) + 1 - 1).toNat < Nat.pow 2 53 := by decide
    apply (completes_roll_small (by decide) hslots).bind
    intro count _
    refine .forM fun s _ => completes_slot hviable (fun floors hge hlt => he (.building floors) hge ?_) s.2 s.1
    show floors.toNat + 2 < Rounding.toBits 53 maxFloors.toNat + 3
    omega
  | building floors =>
    apply completes_put
    exact he (.stack floors true) hviable (Nat.lt_succ_self _)
  | stack floors ground =>
    have hfloors : 1 ≤ floors := hviable
    have hids : ∀ id ∈ (if ground then groundFloors else upperFloors), id ∈ (templates : TemplateLibrary α).order := by
      intro id hid
      rw [order_templates]
      cases ground <;> simp_all
    have hpick : (if ground then groundFloors else upperFloors) ≠ [] ∧
        (if ground then groundFloors else upperFloors).length < Nat.pow 2 53 := by
      cases ground <;> exact ⟨by decide, by decide⟩
    apply (completes_pick hpick.1 hpick.2).bind
    intro id hid
    apply (completes_stand hlib (hids id hid) .rest).bind
    intro _ _
    split_ifs with hf
    · apply completes_put
      apply he (.stack (floors - 1) false) (show 1 ≤ floors - 1 by omega)
      show (floors - 1).toNat + 1 < floors.toNat + 1
      omega
    · apply completes_put
      apply he .roof trivial
      show 1 < floors.toNat + 1
      omega
  | roof =>
    apply (completes_pick (show roofs ≠ [] by decide) (by decide)).bind
    intro id hid
    apply completes_stand hlib
    rw [order_templates]
    simp [hid]

/-- **A city grows.** Where the library holds its templates and rules may nest as deep as its rank, a symbol that is
viable is expanded without a fault. -/
theorem grows [ExactScalar α] (hlib : Stocked ctx.templates) (depth : Nat) : ∀ kind : Kind α, kind.Viable →
    kind.rank ≤ depth → ∀ (j : Nat) (P : Subtree α (Kind α)), (P.shapes[j]?).map (·.kind) = some kind →
      ∃ P', Recipe.growWithin ctx recipe depth (some j) P = .ok () P' := by
  induction depth with
  | zero =>
    intro kind _ hrank
    cases kind <;> exact absurd hrank (by simp [Kind.rank])
  | succ depth ih =>
    intro kind hviable hrank j P hkind
    obtain ⟨x, hx, rfl⟩ := Option.map_eq_some_iff.1 hkind
    have hcompletes : Recipe.Completes ctx (Recipe.growWithin ctx recipe depth) (some j) (fun _ => True)
      (recipe x.kind) :=
      recipe_completes hlib hviable fun child hc hlt => ih child hc (by omega)
    obtain ⟨_, P', hP', -⟩ := hcompletes P
    exact ⟨P', by simp only [Recipe.growWithin, hx]; exact hP'⟩

/-- **A root grows.** -/
theorem grows_root [ExactScalar α] (hlib : Stocked ctx.templates) (hviable : ctx.kind.Viable) {depth : Nat}
    (hrank : ctx.kind.rank ≤ depth) (P : Subtree α (Kind α)) :
    ∃ P', Recipe.growWithin ctx recipe depth none P = .ok () P' := by
  cases depth with
  | zero => cases hk : ctx.kind <;> exact absurd hrank (by simp [hk, Kind.rank])
  | succ depth =>
    have hcompletes : Recipe.Completes ctx (Recipe.growWithin ctx recipe depth) none (fun _ => True) (recipe ctx.kind) :=
      recipe_completes hlib hviable fun child hc hlt => grows hlib depth child hc (by omega)
    obtain ⟨_, P', hP', -⟩ := hcompletes P
    exact ⟨P', hP'⟩

end

end SceneGrammar.City

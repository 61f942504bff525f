/-
What each rule of a city puts up, and what this takes.

One lemma for each kind of symbol, from the roof up: wherever a rule may run, its symbol is expanded without a fault, and
under its node stands what the layout of a city asks for. The bill of a rule is that of the layout, less the symbol's own
node. Stacks are by induction on their floors, and lots and slots by the rule for loops.
-/
import SceneGrammar.Proofs.Cityscape.Layout
import SceneGrammar.Proofs.Growth.CityRecipe

namespace SceneGrammar.World

open City

variable {α κ σ : Type} [Scalar α] {l : TemplateLibrary α}

/-- a library in which the ids of a city's templates stand for these -/
def Supplied (l : TemplateLibrary α) : Prop :=
  ∀ id ∈ (City.templates : TemplateLibrary α).order, l.find? id = (City.templates : TemplateLibrary α).find? id

omit [Scalar α] in
/-- whatever is registered is found -/
theorem find?_of_mem_order {l : TemplateLibrary α} {id : String} (h : id ∈ l.order) : ∃ t, l.find? id = some t := by
  obtain ⟨t, ht, hid⟩ := List.mem_map.1 h
  exact Option.isSome_iff_exists.1 (List.find?_isSome.2 ⟨t, ht, beq_iff_eq.2 hid⟩)

/-- the nodes of what a city's template stands for: a park, what a roof is made of, or a facade -/
def pieces (id : String) : Nat := if id = "park" then 4 else if id ∈ roofs then 1 + garden id else 5

theorem pieces_facade : ∀ ground : Bool, ∀ id ∈ facades ground, pieces id = 5 := by decide

theorem pieces_roof : ∀ id ∈ roofs, pieces id = 1 + garden id := by decide

/-- the parts of a city's templates have no parts of their own -/
theorem template_size {id : String} {t : Template α} (ht : (City.templates : TemplateLibrary α).find? id = some t) :
    t.size = pieces id ∧ t.size = t.parts.length + 1 := by
  have hmem := List.mem_of_find?_eq_some ht
  obtain rfl : t.id = id := by simpa using List.find?_some ht
  simp [City.templates, TemplateLibrary.ofList, TemplateLibrary.register, TemplateLibrary.contains,
    TemplateLibrary.empty, facade] at hmem
  rcases hmem with rfl | rfl | rfl | rfl | rfl | rfl | rfl | rfl | rfl <;> exact ⟨rfl, rfl⟩

/-- a facade has four parts -/
theorem facade_parts {ground : Bool} {id : String} {t : Template α} (hid : id ∈ facades ground)
    (ht : (City.templates : TemplateLibrary α).find? id = some t) : t.parts.length = 4 := by
  obtain ⟨hsize, hparts⟩ := template_size ht
  rw [pieces_facade ground id hid] at hsize
  omega

theorem facades_order {ground : Bool} {id : String} (hid : id ∈ facades ground) :
    id ∈ (City.templates : TemplateLibrary α).order := by
  rw [order_templates]
  cases ground <;> simp_all [facades]

/-- the part of a stack's rule that puts something on top of the facade -/
def onTop (put : City.Kind α → κ) (floors : Int) (self : ShapeId) : Prog α κ σ Unit := do
  if 1 < floors then
    let _ ← Prog.act (.createSymbol self (.of (put (.stack (floors - 1) false))) "Stack" none aloft)
  else
    let _ ← Prog.act (.createSymbol self (.of (put .roof)) "Roof" none aloft)

/-- what some floors and the roof on top of them take -/
def rise (floors : Nat) (top : String) : Bill := ⟨floors + 1, 6 * floors + 2 + garden top⟩

/-- a roof is a symbol with one terminal -/
theorem rise_zero (top : String) : ⟨0, 1⟩ + ⟨1, 1 + garden top⟩ = rise 0 top := by
  ext <;> simp [rise]
  omega

/-- a stack is a symbol with a facade and what stands on top of it -/
theorem rise_succ (floors : Nat) (top : String) : ⟨0, 1⟩ + (⟨1, 5⟩ + rise floors top) = rise (floors + 1) top := by
  ext <;> simp [rise] <;> omega

/-- a building is turned and gets its height before it is made -/
theorem house_bill (h : House) : ⟨1, 0⟩ + ⟨1, 0⟩ + (⟨0, 1⟩ + rise h.floors h.top) = h.bill := by
  ext <;> simp [rise, House.bill, House.draws, House.size] <;> omega

/-- a block is told from a park before it is made, and draws the number of its buildings -/
theorem block_bill (n : NodeId) (houses : List House) :
    ⟨1, 0⟩ + (⟨0, 1⟩ + (⟨1, 0⟩ + .total House.bill houses)) = (Lot.block n houses).bill := by
  ext
  · simp [Lot.bill, Lot.draws, Bill.total, House.bill]
  · simp [Lot.bill, Lot.size, Bill.total, House.bill]

/-- what stands under the node of a stack: a facade, and on top of it the other stacks and the roof -/
def Storey (put : City.Kind α → κ) (floors : Nat) (ground : Bool) (w : World α κ σ) (n : NodeId) (made : List NodeId)
    (bill : Bill) : Prop :=
  ∃ above roof top wall id t, above.length = floors ∧ made = [wall, above.headD roof] ∧
    bill = ⟨1, 5⟩ + rise floors top ∧
    w.Fixture (facades ground) id t n .rest wall ∧ t.parts.length = 4 ∧ w.Storeys put roof top false n aloft above

/-- what stands under the node of a building: its stacks, and the roof on top -/
def Tower (put : City.Kind α → κ) (floors : Nat) (w : World α κ σ) (n : NodeId) (made : List NodeId)
    (bill : Bill) : Prop :=
  ∃ tiers roof top, tiers.length = floors ∧ made = [tiers.headD roof] ∧ bill = rise floors top ∧
    w.Storeys put roof top true n .rest tiers

/-- what stands under the node of a block -/
def Yard (put : City.Kind α → κ) (maxFloors : Int) (w : World α κ σ) (n : NodeId) (made : List NodeId)
    (bill : Bill) : Prop :=
  ∃ houses, made = houses.map House.node ∧ bill = ⟨1, 0⟩ + .total House.bill houses ∧
    (1 ≤ houses.length ∧ houses.length ≤ 4) ∧
    List.Forall₂ (w.HouseOn put maxFloors n) (slots.take houses.length).zipIdx houses

/-- scalars among which the quarter turns about the vertical have angles -/
def Turning (α : Type) [Scalar α] : Prop :=
  ∀ n : Int, 0 ≤ n → n < 4 →
    ∃ q, Quaternion.ofEuler (Scalar.zero : α) (Scalar.ofInt 90 * Scalar.ofInt n) Scalar.zero = .ok q

theorem dryLots_eq (plan : City.Plan α) (relief : Option (HeightMap α)) : dryLots plan relief =
    (List.range plan.blocksX.toNat).flatMap fun x => (List.range plan.blocksY.toNat).flatMap fun y =>
      if isDry plan relief (x, y) then [(x, y)] else [] := by
  have hfilter (ps : List (Nat × Nat)) : ps.filter (isDry plan relief) =
      ps.flatMap fun p => if isDry plan relief p then [p] else [] := by
    induction ps with
    | nil => rfl
    | cons p ps ih =>
      rw [List.filter_cons, List.flatMap_cons, ih]
      split_ifs <;> rfl
  show List.filter _ (List.flatMap _ _) = _
  rw [hfilter, List.flatMap_assoc]
  exact List.flatMap_congr fun x _ => List.flatMap_map _ _ _

variable [SymbolKind κ] {put : City.Kind α → κ} {g : Grammar α κ σ} {w : World α κ σ} {s : ShapeId} {n : NodeId}

/-- a choice from a list that is neither empty nor too long -/
theorem Host.choose {β : Type} {spare : Nat} {expand : ShapeId → Act α κ σ Unit} (h : Host l w s n) {xs : List β}
    (hne : xs ≠ []) (hfew : xs.length < Nat.pow 2 53) :
    Yields spare expand (City.choose s xs) w fun x v => x ∈ xs ∧ Gains s n w v [] ⟨1, 0⟩ := by
  have hpos := List.length_pos_iff.2 hne
  unfold City.choose
  rw [if_neg (by simpa using hne)]
  refine (h.draw_few (by omega) (by simpa using hfew)).bind fun i v hv => ?_
  obtain ⟨⟨h0, hlt⟩, hs⟩ := hv
  have hi : i.toNat < xs.length := by omega
  simp only [List.getElem?_eq_getElem hi]
  exact .pure ⟨List.getElem_mem hi, hs⟩

/-- one of the city's terminals -/
theorem Host.fixture {spare : Nat} {expand : ShapeId → Act α κ σ Unit} (h : Host l w s n) (hl : Supplied l)
    {ids : List String} {id : String} (hid : id ∈ ids) (hmem : id ∈ (City.templates : TemplateLibrary α).order)
    (pose : Pose α) : Yields spare expand (Prog.act (.spawn s (.byId id) none pose)) w fun leaf v =>
      Gains s n w v [leaf] ⟨0, pieces id⟩ ∧ ∃ t, v.Fixture ids id t n pose leaf := by
  obtain ⟨t, ht⟩ := find?_of_mem_order hmem
  obtain ⟨leaf, v, hrun, hlt, hcopy, hs⟩ := h.spawn ((hl id hmem).trans ht) pose
  rw [(template_size ht).1] at hs
  exact .act ⟨leaf, v, hrun, hs, t, hid, ht, hlt, hcopy⟩

/-- a symbol whose expansion is known -/
theorem Host.symbol {spare : Nat} {expand : ShapeId → Act α κ σ Unit} {kind : κ}
    {Q : World α κ σ → NodeId → List NodeId → Bill → Prop} (h : Host l w s n) (hr : ExpandsTo expand l kind Q)
    (name : String) (pose : Pose α) :
    Yields spare expand (Prog.act (.createSymbol s (.of kind) name none pose)) w fun _ v =>
      ∃ m made bill, Gains s n w v [m] (⟨0, 1⟩ + bill) ∧ v.Raised kind name n pose m made ∧ Q v m made bill := by
  obtain ⟨t, v, m, made, bill, hrun, hm⟩ := h.createSymbol hr name pose
  exact .act ⟨t, v, hrun, m, made, bill, hm⟩

section

variable (hg : ∀ kind s, g.rule (put kind) s = rule put kind s) (hl : Supplied l)
include hg hl

/-! ## Roofs and stacks -/

theorem expandsTo_roof (depth : Nat) : ExpandsTo (g.expandWithin (depth + 1)) l (put .roof) fun w n made bill =>
    ∃ top t leaf, made = [leaf] ∧ bill = ⟨1, 1 + garden top⟩ ∧ w.Fixture roofs top t n .rest leaf := by
  refine expandsTo_of_yields (hg .roof) ?_ fun w s n h => ?_
  · rintro w v n made bill hup ⟨top, t, leaf, hmade, hbill, hleaf⟩
    exact ⟨top, t, leaf, hmade, hbill, hleaf.upheld le_rfl hup⟩
  show Yields _ _ (choose s roofs >>= fun id => Prog.act (.spawn s (.byId id) none .rest) >>= fun _ => Pure.pure ()) w _
  refine (h.choose (by decide) (by decide)).bind fun top v hv => ?_
  obtain ⟨htop, hv⟩ := hv
  have hmem : top ∈ (City.templates : TemplateLibrary α).order := by
    rw [order_templates]
    simp [htop]
  refine ((h.gains hv).fixture hl htop hmem .rest).bind fun leaf u hu => ?_
  obtain ⟨hu, t, hleaf⟩ := hu
  refine .pure ⟨[leaf], _, hv.trans hu, top, t, leaf, rfl, ?_, hleaf⟩
  rw [pieces_roof top htop]
  ext <;> simp

/-- a stack, given what its rule puts on top of the facade -/
theorem expandsTo_storey {floors depth : Nat} {ground : Bool}
    (htop : ∀ w s n, Host l w s n → Yields g.spare (g.expandWithin depth) (onTop put (floors + 1) s) w fun _ v =>
      ∃ above roof top, above.length = floors ∧ Gains s n w v [above.headD roof] (rise floors top) ∧
        v.Storeys put roof top false n aloft above) :
    ExpandsTo (g.expandWithin (depth + 1)) l (put (.stack (floors + 1) ground)) (Storey put floors ground) := by
  refine expandsTo_of_yields (hg _) ?_ fun w s n h => ?_
  · rintro w v n made bill hup ⟨above, roof, top, wall, id, t, hlen, hmade, hbill, hwall, hparts, habove⟩
    exact ⟨above, roof, top, wall, id, t, hlen, hmade, hbill, hwall.upheld le_rfl hup, hparts, habove.upheld hup le_rfl⟩
  show Yields _ _ (choose s (facades ground) >>= fun id =>
    Prog.act (.spawn s (.byId id) none .rest) >>= fun _ => onTop put (floors + 1) s) w _
  have hchoice : facades ground ≠ [] ∧ (facades ground).length < Nat.pow 2 53 := by
    cases ground <;> exact ⟨by decide, by decide⟩
  refine (h.choose hchoice.1 hchoice.2).bind fun id v hv => ?_
  obtain ⟨hid, hv⟩ := hv
  have hhost := h.gains hv
  refine (hhost.fixture hl hid (facades_order hid) .rest).bind fun wall u hu => ?_
  obtain ⟨hu, t, hwall⟩ := hu
  have hhost' := hhost.gains hu
  refine (htop u s n hhost').mono fun _ z hz => ?_
  obtain ⟨above, roof, top, hlen, hz, habove⟩ := hz
  refine ⟨[wall, above.headD roof], _, (hv.trans hu).trans hz, above, roof, top, wall, id, t, hlen, rfl, ?_, ?_, ?_,
    habove⟩
  · rw [pieces_facade ground id hid]
    rfl
  · exact hwall.upheld le_rfl (hz.upholds hhost'.home)
  · exact facade_parts hid hwall.template

/-- **Stacks.** A stack of some floors holds as many facades, one above the other, and the roof on top. -/
theorem expandsTo_stack (floors depth : Nat) (hdepth : floors + 1 ≤ depth) (ground : Bool) :
    ExpandsTo (g.expandWithin (depth + 1)) l (put (.stack (floors + 1) ground)) (Storey put floors ground) := by
  induction floors generalizing depth ground with
  | zero =>
    refine expandsTo_storey hg hl fun w s n h => ?_
    obtain ⟨d, rfl⟩ : ∃ d, depth = d + 1 := ⟨depth - 1, by omega⟩
    show Yields _ _ (Prog.act (.createSymbol s (.of (put .roof)) "Roof" none aloft) >>= fun _ => Pure.pure ()) w _
    refine (h.symbol (expandsTo_roof hg hl d) "Roof" aloft).bind fun _ v hv => ?_
    obtain ⟨m, _, _, hs, hm, top, t, leaf, rfl, rfl, hleaf⟩ := hv
    rw [rise_zero] at hs
    exact .pure ⟨[], m, top, rfl, hs, t, leaf, hm, hleaf⟩
  | succ floors ih =>
    refine expandsTo_storey hg hl fun w s n h => ?_
    obtain ⟨d, rfl⟩ : ∃ d, depth = d + 1 := ⟨depth - 1, by omega⟩
    have hmore : (1 : Int) < ((floors + 1 : Nat) : Int) + 1 := by omega
    have hless : ((floors + 1 : Nat) : Int) + 1 - 1 = (floors : Int) + 1 := by omega
    unfold onTop
    rw [if_pos hmore, hless]
    refine (h.symbol (ih d (by omega) false) "Stack" aloft).bind fun _ v hv => ?_
    obtain ⟨m, _, _, hs, hm, above, roof, top, wall, id, t, rfl, rfl, rfl, hwall, hparts, habove⟩ := hv
    rw [rise_succ] at hs
    exact .pure ⟨m :: above, roof, top, rfl, hs, ⟨wall, id, t, hm, hwall, hparts⟩, habove⟩

/-! ## Buildings and blocks -/

theorem expandsTo_building (floors depth : Nat) (hdepth : floors + 2 ≤ depth) :
    ExpandsTo (g.expandWithin (depth + 1)) l (put (.building (floors + 1 : Nat))) (Tower put (floors + 1)) := by
  refine expandsTo_of_yields (hg _) ?_ fun w s n h => ?_
  · rintro w v n made bill hup ⟨tiers, roof, top, hlen, hmade, hbill, htiers⟩
    exact ⟨tiers, roof, top, hlen, hmade, hbill, htiers.upheld hup le_rfl⟩
  obtain ⟨d, rfl⟩ : ∃ d, depth = d + 1 := ⟨depth - 1, by omega⟩
  show Yields _ _ (Prog.act (.createSymbol s (.of (put (.stack ((floors : Int) + 1) true))) "Stack" none .rest) >>=
    fun _ => Pure.pure ()) w _
  refine (h.symbol (expandsTo_stack hg hl floors d (by omega) true) "Stack" .rest).bind fun _ v hv => ?_
  obtain ⟨m, _, _, hs, hm, above, roof, top, wall, id, t, hlen, rfl, rfl, hwall, hparts, habove⟩ := hv
  subst hlen
  rw [rise_succ] at hs
  exact .pure ⟨[m], _, hs, m :: above, roof, top, rfl, rfl, rfl, ⟨wall, id, t, hm, hwall, hparts⟩, habove⟩

section

variable (hturning : Turning α) {maxFloors : Int} (hdraw : Drawable maxFloors)
include hturning hdraw

/-- one slot gets a building -/
theorem Host.slot {depth : Nat} (hdepth : maxFloors.toNat + 2 ≤ depth) (h : Host l w s n) (corner : Int × Int) (i : Nat) :
    Yields g.spare (g.expandWithin depth) (City.slot put maxFloors s i corner) w fun _ v =>
      GainsEach s n House.node House.bill (fun v => v.HouseOn put maxFloors n) [(corner, i)] w v := by
  obtain ⟨h1, hfits⟩ := hdraw
  refine (h.draw_few (by decide) (by decide)).bind fun quarter v hv => ?_
  obtain ⟨hquarter, hv⟩ := hv
  have hhost := h.gains hv
  obtain ⟨rotation, hrotation⟩ := hturning quarter hquarter.1 hquarter.2
  rw [hrotation]
  refine Yields.bind (Yields.ofExcept (Q := fun r u => r = rotation ∧ u = v) rfl ⟨rfl, rfl⟩) fun _ _ hr => ?_
  obtain ⟨rfl, rfl⟩ := hr
  have hwidth : maxFloors + 1 - 1 = maxFloors := by omega
  refine (hhost.draw (by omega) (by rw [hwidth]; exact hfits)).bind fun (floors : Int) u hu => ?_
  obtain ⟨⟨hlow, hhigh⟩, hu⟩ := hu
  obtain ⟨f, rfl⟩ : ∃ f : Nat, floors = ((f + 1 : Nat) : Int) := ⟨floors.toNat - 1, by omega⟩
  obtain ⟨d, rfl⟩ : ∃ d, depth = d + 1 := ⟨depth - 1, by omega⟩
  refine ((hhost.gains hu).symbol (expandsTo_building hg hl f d (by omega)) _ _).bind fun _ z hz => ?_
  obtain ⟨m, _, _, hs, hm, tiers, roof, top, hlen, rfl, rfl, htiers⟩ := hz
  rw [← hlen] at hm hlow hhigh hs
  refine .pure ⟨[⟨m, tiers, roof, top⟩], ?_, .cons ⟨⟨?_, ?_⟩, ⟨quarter, _, hquarter, hrotation, hm⟩, htiers⟩ .nil⟩
  · rw [Bill.total_singleton, ← house_bill]
    exact (hv.trans hu).trans hs
  · exact Int.ofNat_le.1 hlow
  · exact Int.lt_add_one_iff.1 hhigh

/-- **Blocks.** -/
theorem expandsTo_block {depth : Nat} (hdepth : maxFloors.toNat + 2 ≤ depth) :
    ExpandsTo (g.expandWithin (depth + 1)) l (put (.block maxFloors)) (Yard put maxFloors) := by
  refine expandsTo_of_yields (hg _) ?_ fun w s n h => ?_
  · rintro w v n made bill hup ⟨houses, hmade, hbill, hcount, hhouses⟩
    exact ⟨houses, hmade, hbill, hcount, hhouses.imp fun slot house hh => hh.upheld le_rfl hup⟩
  refine (h.draw_few (by decide) (by decide)).bind fun count v hv => ?_
  obtain ⟨⟨hlow, hhigh⟩, hv⟩ := hv
  have hpass : Yields g.spare (g.expandWithin depth)
      ((slots.take count.toNat).zipIdx.forM fun b => City.slot put maxFloors s b.2 b.1) v fun _ u =>
        GainsEach s n House.node House.bill (fun v => v.HouseOn put maxFloors n)
          ((slots.take count.toNat).zipIdx.flatMap fun b => [b]) v u :=
    yields_gainsEach (fun w v slot house hup hh => hh.upheld le_rfl hup)
      (fun b _ w h => h.slot hg hl hturning hdraw hdepth b.1 b.2) (h.gains hv)
  refine hpass.mono fun _ u hu => ?_
  obtain ⟨houses, hs, hhouses⟩ := hu
  rw [List.flatMap_singleton'] at hhouses
  have hfour : slots.length = 4 := rfl
  have hlen : houses.length = count.toNat := by
    rw [← hhouses.length_eq, List.length_zipIdx, List.length_take]
    omega
  refine ⟨houses.map House.node, _, hv.trans hs, houses, rfl, rfl, by omega, ?_⟩
  rw [hlen]
  exact hhouses

/-! ## Cities -/

/-- one lot stays empty under water, and otherwise gets a park or a block -/
theorem Host.lot {plan : City.Plan α} (hplan : plan.maxFloors = maxFloors) {depth : Nat}
    (hdepth : maxFloors.toNat + 3 ≤ depth) {relief : Option (HeightMap α)} {x y : Nat} {wet : Bool} (hwet : isWater plan relief x y = .ok wet)
    (h : Host l w s n) : Yields g.spare (g.expandWithin depth) (City.lot put plan s relief x y) w fun _ v =>
      GainsEach s n Lot.node Lot.bill (fun v => v.LotOn put plan n) (if isDry plan relief (x, y) then [(x, y)] else []) w
        v := by
  subst hplan
  have hdry : isDry plan relief (x, y) = !wet := by simp only [isDry, hwet]
  unfold City.lot
  rw [hwet, hdry]
  refine Yields.bind (Yields.ofExcept (Q := fun b v => b = wet ∧ v = w) rfl ⟨rfl, rfl⟩) fun b u hb => ?_
  obtain ⟨rfl, rfl⟩ := hb
  cases b with
  | true => exact .pure ⟨[], .refl s n u, .nil⟩
  | false =>
    rw [Bool.not_false, if_pos rfl, if_neg Bool.false_ne_true]
    refine h.chance.bind fun k v hv => ?_
    have hhost := h.gains hv
    split_ifs
    · refine (hhost.fixture hl (List.mem_singleton.2 rfl) (by rw [order_templates]; simp) _).bind fun leaf u hu => ?_
      obtain ⟨hu, t, hleaf⟩ := hu
      exact .pure ⟨[.park leaf], hv.trans hu, .cons ⟨t, hleaf⟩ .nil⟩
    · obtain ⟨d, rfl⟩ : ∃ d, depth = d + 1 := ⟨depth - 1, by omega⟩
      refine (hhost.symbol (expandsTo_block hg hl hturning hdraw (by omega : _ ≤ d)) _ _).bind fun _ u hu => ?_
      obtain ⟨m, _, _, hu, hm, houses, rfl, rfl, hcount, hhouses⟩ := hu
      refine .pure ⟨[.block m houses], ?_, .cons ⟨hm, hcount, hhouses⟩ .nil⟩
      rw [Bill.total_singleton, ← block_bill]
      exact hv.trans hu

/-- **Cities.** The rule of a city puts up one thing on each lot that is not under water, in order. -/
theorem Host.city {plan : City.Plan α} (hplan : plan.maxFloors = maxFloors) {depth : Nat}
    (hdepth : maxFloors.toNat + 3 ≤ depth) {relief : Option (HeightMap α)} (hrelief : w.reliefOf s = .ok relief)
    (hwater : ∀ x y : Nat, x < plan.blocksX.toNat → y < plan.blocksY.toNat → ∃ wet, isWater plan relief x y = .ok wet)
    (h : Host l w s n) : Yields g.spare (g.expandWithin depth) (cityRule put plan s) w fun _ v =>
      GainsEach s n Lot.node Lot.bill (fun v => v.LotOn put plan n) (dryLots plan relief) w v := by
  rw [dryLots_eq]
  refine Yields.bind (Yields.ask (Q := fun r v => r = relief ∧ v = w) hrelief ⟨rfl, rfl⟩) fun _ _ hr => ?_
  obtain ⟨rfl, rfl⟩ := hr
  have hup : ∀ (w v : World α κ σ) place lot, Upholds n w v → w.LotOn put plan n place lot → v.LotOn put plan n place lot :=
    fun w v place lot hup hlot => hlot.upheld le_rfl hup
  refine yields_gainsEach hup (fun x hx w h => yields_gainsEach hup (fun y hy w h => ?_) h) h
  obtain ⟨wet, hwet⟩ := hwater x y (List.mem_range.1 hx) (List.mem_range.1 hy)
  exact h.lot hg hl hturning hdraw hplan hdepth hwet

end

end

end SceneGrammar.World

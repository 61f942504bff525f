/-
Rules that keep to themselves, and what they grow.

A `Recipe` is a rule that uses nothing but the parameters of its own symbol, the random helpers, the height map at the
root, and creation under its own node; it may fail, and go on from a failure. `Recipe.toProg` is the program it stands
for. `Blind` recipes do not ask for the height map.

`Recipe.grow` says what a recipe does, apart from any world: it changes a `Subtree`, which holds the nodes and the symbols
grown so far, numbered from zero, and the number of draws. `GrowthContext` is what it is grown in. `growWithin` ties the
knot as `expandWithin` does.
-/
import SceneGrammar.Proofs.Runs

namespace SceneGrammar

/-! ## Recipes -/

/-- a rule that keeps to its own symbol -/
inductive Recipe (α κ : Type) : Type → Type 1 where
  | done {β : Type} (b : β) : Recipe α κ β
  | fail {β : Type} (fault : Fault α) : Recipe α κ β
  /-- look at the height map of the root -/
  | relief {β : Type} (next : Option (HeightMap α) → Recipe α κ β) : Recipe α κ β
  | integer {β : Type} (low high : Int) (next : Int → Recipe α κ β) : Recipe α κ β
  | fraction {β : Type} (next : Nat → Recipe α κ β) : Recipe α κ β
  /-- a symbol under the own node -/
  | symbol {β : Type} (offer : KindOffer κ) (name : String) (pose : Pose α) (next : Recipe α κ β) : Recipe α κ β
  /-- a terminal under the own node -/
  | terminal {β : Type} (template : World.TemplateRef α) (pose : Pose α) (next : Recipe α κ β) : Recipe α κ β
  /-- run a recipe and go on from its answer or its fault -/
  | attempt {β γ : Type} (body : Recipe α κ γ) (next : Except (Fault α) γ → Recipe α κ β) : Recipe α κ β

namespace Recipe

variable {α κ σ : Type} {β : Type}

/-- the program of a recipe, for the shape that follows it -/
def toProg {β : Type} [SymbolKind κ] (self : ShapeId) : Recipe α κ β → Prog α κ σ β
  | .done b => .done b
  | .fail fault => .fail fault
  | .relief next => .look (fun w => w.reliefOf self) fun
    | .ok m => (next m).toProg self
    | .error fault => .fail fault
  | .integer low high next => .perform (.randomInt self low high) fun x => (next x).toProg self
  | .fraction next => .perform (.randomFraction self) fun k => (next k).toProg self
  | .symbol offer name pose next => .perform (.createSymbol self offer name none pose) fun _ => next.toProg self
  | .terminal template pose next => .perform (.spawn self template none pose) fun _ => next.toProg self
  | .attempt body next => .attempt (body.toProg self) fun r => (next r).toProg self

/-- a recipe that never looks at the height map -/
def Blind {β : Type} : Recipe α κ β → Prop
  | .done _ => True
  | .fail _ => True
  | .relief _ => False
  | .integer _ _ next => ∀ x, (next x).Blind
  | .fraction next => ∀ k, (next k).Blind
  | .symbol _ _ _ next => next.Blind
  | .terminal _ _ next => next.Blind
  | .attempt body next => body.Blind ∧ ∀ r, (next r).Blind

end Recipe

/-! ## Subtrees -/

/-- a grown node; parents and children are grown nodes, too, and no parent stands for the root -/
structure Subtree.Node (α : Type) where
  name : String
  kind : NodeKind
  parent : Option Nat
  children : List Nat
  pose : Pose α
  template : Option String
  shape : Option Nat

/-- a grown symbol -/
structure Subtree.Shape (κ : Type) where
  kind : κ
  node : Nat
  generated : Option (List Nat)
  state : ShapeState

/-- what has grown under a root: nodes and symbols in the order of their creation -/
structure Subtree (α κ : Type) where
  nodes : List (Subtree.Node α)
  shapes : List (Subtree.Shape κ)
  /-- the nodes that hang under the root -/
  stems : List Nat
  /-- the nodes on the root's list -/
  top : List Nat
  draws : Nat

/-- what a subtree is grown in -/
structure GrowthContext (α κ : Type) where
  /-- the kind of the root -/
  kind : κ
  templates : TemplateLibrary α
  eager : Bool
  relief : Option (HeightMap α)
  /-- the key of the random source -/
  key : UInt64

/-- the template that is meant -/
def GrowthContext.resolve {α κ : Type} (ctx : GrowthContext α κ) : World.TemplateRef α → Except (Fault α) (Template α)
  | .inline t => .ok t
  | .byId id =>
    match ctx.templates.find? id with
    | some t => .ok t
    | none => .error (.unknownTemplate id)

namespace Subtree

variable {α κ : Type}

/-- nothing has grown yet -/
def bare : Subtree α κ := ⟨[], [], [], [], 0⟩

/-- one more node, under a grown one or under the root -/
def addNode (P : Subtree α κ) (name : String) (kind : NodeKind) (parent : Option Nat) (pose : Pose α)
    (template : Option String) (shape : Option Nat) : Subtree α κ :=
  let k := P.nodes.length
  let x : Subtree.Node α := ⟨name, kind, parent, [], pose, template, shape⟩
  match parent with
  | none => { P with nodes := P.nodes ++ [x], stems := P.stems ++ [k] }
  | some p => { P with nodes := P.nodes.modify p (fun y => { y with children := y.children ++ [k] }) ++ [x] }

/-- one more symbol on a new node -/
def addSymbol (P : Subtree α κ) (kind : κ) (name : String) (parent : Option Nat) (pose : Pose α) : Subtree α κ :=
  { P.addNode name .symbol parent pose none (some P.shapes.length) with
    shapes := P.shapes ++ [⟨kind, P.nodes.length, none, .uninitialized⟩] }

/-- put a node on the list of a grown symbol, or of the root -/
def track (P : Subtree α κ) (self : Option Nat) (k : Nat) : Subtree α κ :=
  match self with
  | none => { P with top := P.top ++ [k] }
  | some j =>
    { P with shapes := P.shapes.modify j fun x => { x with generated := some (x.generated.getD [] ++ [k]) } }

/-- the rule of a grown symbol is about to run -/
def markExpanded (P : Subtree α κ) (j : Nat) : Subtree α κ :=
  { P with shapes := P.shapes.modify j fun x => { x with state := .expanded } }

mutual

/-- a copy of a template -/
def plant [Scalar α] (P : Subtree α κ) : Template α → Option Nat → Pose α → Subtree α κ
  | ⟨id, name, parts, _, _⟩, parent, pose =>
    let shown := if name = "" then id else name
    plantParts (P.addNode shown .terminal parent pose (some id) none) parts P.nodes.length

/-- copies of parts under a grown node -/
def plantParts [Scalar α] (P : Subtree α κ) : List (Template α) → Nat → Subtree α κ
  | [], _ => P
  | t :: ts, under => plantParts (plant P t (some under) (.displaced t.offset)) ts under

end

/-- the node of a grown symbol; the root has none among the grown ones -/
def home (P : Subtree α κ) (self : Option Nat) : Option Nat := self.bind fun j => (P.shapes[j]?).map (·.node)

end Subtree

/-- what is done to a subtree -/
abbrev Grow (α κ : Type) := EStateM (Fault α) (Subtree α κ)

namespace Recipe

variable {α κ : Type}

/-- a number drawn by a symbol -/
def drawInt (ctx : GrowthContext α κ) (low high : Int) : Grow α κ Int := fun P =>
  if high ≤ low then .error (.range (.empty low high)) P
  else
    let k := RandomSource.fraction (RandomSource.word ctx.key P.draws)
    match RandomSource.scaled low high k with
    | .ok x => .ok x { P with draws := P.draws + 1 }
    | .error e => .error (.range e) { P with draws := P.draws + 1 }

/-- a symbol made by another one; in an eager context it is expanded at once -/
def makeSymbol (ctx : GrowthContext α κ) (expand : Option Nat → Grow α κ Unit) (self : Option Nat) (offer : KindOffer κ)
    (name : String) (pose : Pose α) : Grow α κ Unit := fun P =>
  match offer with
  | .unfit => .error .unfitParameters P
  | .abstractKind shown => .error (.abstractKind shown) P
  | .notAKind shown => .error (.notAKind shown) P
  | .of kind =>
    let j := P.shapes.length
    let P := (P.addSymbol kind name (P.home self) pose).track self P.nodes.length
    if ctx.eager then expand (some j) (P.markExpanded j) else .ok () P

/-- a terminal made by a symbol -/
def makeTerminal [Scalar α] (ctx : GrowthContext α κ) (self : Option Nat) (template : World.TemplateRef α)
    (pose : Pose α) : Grow α κ Unit := fun P =>
  match ctx.resolve template with
  | .error e => .error e P
  | .ok t => .ok () ((P.plant t (P.home self) pose).track self P.nodes.length)

/-- what a recipe does, given how symbols are expanded -/
def grow [Scalar α] {β : Type} (ctx : GrowthContext α κ) (expand : Option Nat → Grow α κ Unit) (self : Option Nat) :
    Recipe α κ β → Grow α κ β
  | .done b => fun P => .ok b P
  | .fail fault => fun P => .error fault P
  | .relief next => fun P => (next ctx.relief).grow ctx expand self P
  | .integer low high next => fun P =>
    match drawInt ctx low high P with
    | .ok x P => (next x).grow ctx expand self P
    | .error e P => .error e P
  | .fraction next => fun P =>
    (next (RandomSource.fraction (RandomSource.word ctx.key P.draws))).grow ctx expand self
      { P with draws := P.draws + 1 }
  | .symbol offer name pose next => fun P =>
    match makeSymbol ctx expand self offer name pose P with
    | .ok _ P => next.grow ctx expand self P
    | .error e P => .error e P
  | .terminal template pose next => fun P =>
    match makeTerminal ctx self template pose P with
    | .ok _ P => next.grow ctx expand self P
    | .error e P => .error e P
  | .attempt body next => fun P =>
    match body.grow ctx expand self P with
    | .ok x P => (next (.ok x)).grow ctx expand self P
    | .error e P => (next (.error e)).grow ctx expand self P

/-- expand a grown symbol or the root, with rules nested at most the given number deep -/
def growWithin [Scalar α] (ctx : GrowthContext α κ) (recipe : κ → Recipe α κ Unit) : Nat → Option Nat → Grow α κ Unit
  | 0, _ => fun P => .error .tooDeep P
  | depth + 1, none => fun P => (recipe ctx.kind).grow ctx (growWithin ctx recipe depth) none P
  | depth + 1, some j => fun P =>
    match P.shapes[j]? with
    | none => .ok () P
    | some x => (recipe x.kind).grow ctx (growWithin ctx recipe depth) (some j) P

/-- a blind recipe grows the same under another height map -/
theorem Blind.grow_eq [Scalar α] {β : Type} {r : Recipe α κ β} (h : r.Blind) (ctx : GrowthContext α κ)
    (m : Option (HeightMap α)) (expand : Option Nat → Grow α κ Unit) (self : Option Nat) (P : Subtree α κ) :
    r.grow { ctx with relief := m } expand self P = r.grow ctx expand self P := by
  induction r generalizing P with
  | done b => rfl
  | fail e => rfl
  | relief next => exact h.elim
  | integer low high next ih =>
    have hdraw : drawInt { ctx with relief := m } low high P = drawInt ctx low high P := by
      simp only [drawInt]
    simp only [grow, hdraw]
    cases drawInt ctx low high P with
    | ok x Q => exact ih x (h x) Q
    | error e Q => rfl
  | fraction next ih => exact ih _ (h _) _
  | symbol offer name pose next ih =>
    have hmake : makeSymbol { ctx with relief := m } expand self offer name pose P =
        makeSymbol ctx expand self offer name pose P := by simp only [makeSymbol]
    simp only [grow, hmake]
    cases makeSymbol ctx expand self offer name pose P with
    | ok x Q => exact ih h Q
    | error e Q => rfl
  | terminal template pose next ih =>
    have hmake : makeTerminal { ctx with relief := m } self template pose P =
        makeTerminal ctx self template pose P := by simp only [makeTerminal, GrowthContext.resolve]
    simp only [grow, hmake]
    cases makeTerminal ctx self template pose P with
    | ok x Q => exact ih h Q
    | error e Q => rfl
  | attempt body next ihb ihn =>
    simp only [grow, ihb h.1]
    cases body.grow ctx expand self P with
    | ok x Q => exact ihn _ (h.2 _) Q
    | error e Q => exact ihn _ (h.2 _) Q

theorem growWithin_blind [Scalar α] {recipe : κ → Recipe α κ Unit} (h : ∀ kind, (recipe kind).Blind)
    (ctx : GrowthContext α κ) (m : Option (HeightMap α)) (depth : Nat) :
    growWithin { ctx with relief := m } recipe depth = growWithin ctx recipe depth := by
  induction depth with
  | zero => rfl
  | succ depth ih =>
    funext self P
    cases self with
    | none =>
      simp only [growWithin, ih]
      exact (h ctx.kind).grow_eq ctx m _ none P
    | some j =>
      simp only [growWithin, ih]
      cases P.shapes[j]? with
      | none => rfl
      | some x => exact (h x.kind).grow_eq ctx m _ (some j) P

/-! ## What hangs under the root is on its list -/

/-- however it ends, a subtree is left that has a property -/
def Leaves {β : Type} (I : Subtree α κ → Prop) : EStateM.Result (Fault α) (Subtree α κ) β → Prop
  | .ok _ P => I P
  | .error _ P => I P

/-- on the root's list is what hangs under it, and no fewer symbols have grown than before -/
def StemsListed (count : Nat) (P : Subtree α κ) : Prop := P.stems = P.top ∧ count ≤ P.shapes.length

theorem Leaves.mono {β : Type} {I J : Subtree α κ → Prop} {r : EStateM.Result (Fault α) (Subtree α κ) β} (h : Leaves I r)
    (hIJ : ∀ P, I P → J P) : Leaves J r := by
  cases r with
  | ok x P => exact hIJ P h
  | error e P => exact hIJ P h

theorem stems_addNode (P : Subtree α κ) (name : String) (kind : NodeKind) (parent : Option Nat) (pose : Pose α)
    (template : Option String) (shape : Option Nat) : (P.addNode name kind parent pose template shape).stems =
      if parent = none then P.stems ++ [P.nodes.length] else P.stems := by
  cases parent <;> simp [Subtree.addNode]

mutual

theorem plant_stems [Scalar α] (t : Template α) (P : Subtree α κ) (parent : Option Nat) (pose : Pose α) :
    (P.plant t parent pose).stems = (if parent = none then P.stems ++ [P.nodes.length] else P.stems) ∧
      (P.plant t parent pose).top = P.top ∧ (P.plant t parent pose).shapes = P.shapes := by
  match t with
  | ⟨id, name, parts, offset, tags⟩ =>
    rw [Subtree.plant]
    obtain ⟨hstems, htop, hshapes⟩ := plantParts_stems parts
      (P.addNode (if name = "" then id else name) .terminal parent pose (some id) none) P.nodes.length
    refine ⟨hstems.trans (stems_addNode ..), htop.trans ?_, hshapes.trans ?_⟩
    · cases parent <;> rfl
    · cases parent <;> rfl

theorem plantParts_stems [Scalar α] (ts : List (Template α)) (P : Subtree α κ) (under : Nat) :
    (P.plantParts ts under).stems = P.stems ∧ (P.plantParts ts under).top = P.top ∧
      (P.plantParts ts under).shapes = P.shapes := by
  match ts with
  | [] => exact ⟨rfl, rfl, rfl⟩
  | t :: ts =>
    rw [Subtree.plantParts]
    obtain ⟨h1, h2, h3⟩ := plant_stems t P (some under) (.displaced t.offset)
    obtain ⟨k1, k2, k3⟩ := plantParts_stems ts (P.plant t (some under) (.displaced t.offset)) under
    exact ⟨k1.trans (by simpa using h1), k2.trans h2, k3.trans h3⟩

end

theorem stemsListed_track {P Q : Subtree α κ} {self : Option Nat} (hs : ∀ j, self = some j → j < P.shapes.length)
    (h : P.stems = P.top) (hstems : Q.stems = if P.home self = none then P.stems ++ [P.nodes.length] else P.stems)
    (htop : Q.top = P.top) (hshapes : P.shapes.length ≤ Q.shapes.length) :
    StemsListed P.shapes.length (Q.track self P.nodes.length) := by
  cases self with
  | none =>
    rw [if_pos (show P.home none = none from rfl)] at hstems
    exact ⟨by simp [Subtree.track, hstems, htop, h], hshapes⟩
  | some j =>
    have hhome : P.home (some j) ≠ none := by simpa [Subtree.home] using hs j rfl
    rw [if_neg hhome] at hstems
    exact ⟨by simp [Subtree.track, hstems, htop, h], by simpa [Subtree.track] using hshapes⟩

section

variable [Scalar α] {ctx : GrowthContext α κ} {expand : Option Nat → Grow α κ Unit}

omit [Scalar α] in
theorem makeSymbol_stemsListed
    (he : ∀ j P, j < P.shapes.length → P.stems = P.top → Leaves (StemsListed P.shapes.length) (expand (some j) P))
    {P : Subtree α κ} {self : Option Nat} (hs : ∀ j, self = some j → j < P.shapes.length) (h : P.stems = P.top)
    (offer : KindOffer κ) (name : String) (pose : Pose α) :
    Leaves (StemsListed P.shapes.length) (makeSymbol ctx expand self offer name pose P) := by
  cases offer with
  | unfit => exact ⟨h, le_rfl⟩
  | abstractKind shown => exact ⟨h, le_rfl⟩
  | notAKind shown => exact ⟨h, le_rfl⟩
  | of kind =>
    have hadd : (P.addSymbol kind name (P.home self) pose).shapes.length = P.shapes.length + 1 := by
      simp [Subtree.addSymbol]
    have hlisted := stemsListed_track (Q := P.addSymbol kind name (P.home self) pose) hs h
      (stems_addNode P name .symbol (P.home self) pose none (some P.shapes.length))
      (by unfold Subtree.addSymbol; cases P.home self <;> rfl) (hadd ▸ Nat.le_succ _)
    have hlen : P.shapes.length < ((P.addSymbol kind name (P.home self) pose).track self P.nodes.length).shapes.length := by
      cases self <;> simp [Subtree.track, hadd]
    simp only [makeSymbol]
    generalize (P.addSymbol kind name (P.home self) pose).track self P.nodes.length = Q at hlisted hlen ⊢
    by_cases hea : ctx.eager = true
    · simp only [if_pos hea]
      have hmark : (Q.markExpanded P.shapes.length).shapes.length = Q.shapes.length := by simp [Subtree.markExpanded]
      have hrun := he P.shapes.length (Q.markExpanded P.shapes.length) (by rw [hmark]; exact hlen) hlisted.1
      exact hrun.mono fun R hR => ⟨hR.1, (hlen.le.trans_eq hmark.symm).trans hR.2⟩
    · simp only [if_neg hea]
      exact hlisted

theorem makeTerminal_stemsListed {P : Subtree α κ} {self : Option Nat} (hs : ∀ j, self = some j → j < P.shapes.length)
    (h : P.stems = P.top) (template : World.TemplateRef α) (pose : Pose α) :
    Leaves (StemsListed P.shapes.length) (makeTerminal ctx self template pose P) := by
  unfold makeTerminal
  cases ctx.resolve template with
  | error e => exact ⟨h, le_rfl⟩
  | ok t =>
    obtain ⟨hstems, htop, hshapes⟩ := plant_stems t P (P.home self) pose
    exact stemsListed_track hs h hstems htop (by rw [hshapes])

/-- **One recipe.** What it hangs under the root is put on the root's list. -/
theorem grow_stemsListed
    (he : ∀ j P, j < P.shapes.length → P.stems = P.top → Leaves (StemsListed P.shapes.length) (expand (some j) P))
    {β : Type} (r : Recipe α κ β) {P : Subtree α κ} {self : Option Nat}
    (hs : ∀ j, self = some j → j < P.shapes.length) (h : P.stems = P.top) :
    Leaves (StemsListed P.shapes.length) (r.grow ctx expand self P) := by
  induction r generalizing P with
  | done b => exact ⟨h, le_rfl⟩
  | fail e => exact ⟨h, le_rfl⟩
  | relief next ih => exact ih ctx.relief hs h
  | integer low high next ih =>
    simp only [grow, drawInt]
    split_ifs
    · exact ⟨h, le_rfl⟩
    · cases RandomSource.scaled low high (RandomSource.fraction (RandomSource.word ctx.key P.draws)) with
      | error e => exact ⟨h, le_rfl⟩
      | ok x => exact ih x hs h
  | fraction next ih => exact ih _ hs h
  | symbol offer name pose next ih =>
    have hmake : Leaves (StemsListed P.shapes.length) (makeSymbol ctx expand self offer name pose P) :=
      makeSymbol_stemsListed he hs h offer name pose
    simp only [grow]
    cases hm : makeSymbol ctx expand self offer name pose P with
    | error e Q => rw [hm] at hmake; exact hmake
    | ok _ Q =>
      rw [hm] at hmake
      exact (ih (fun j hj => (hs j hj).trans_le hmake.2) hmake.1).mono fun R hR => ⟨hR.1, hmake.2.trans hR.2⟩
  | terminal template pose next ih =>
    have hmake : Leaves (StemsListed P.shapes.length) (makeTerminal ctx self template pose P) :=
      makeTerminal_stemsListed hs h template pose
    simp only [grow]
    cases hm : makeTerminal ctx self template pose P with
    | error e Q => rw [hm] at hmake; exact hmake
    | ok _ Q =>
      rw [hm] at hmake
      exact (ih (fun j hj => (hs j hj).trans_le hmake.2) hmake.1).mono fun R hR => ⟨hR.1, hmake.2.trans hR.2⟩
  | attempt body next ihb ihn =>
    have hbody := ihb hs h
    simp only [grow]
    cases hb : body.grow ctx expand self P with
    | error e Q =>
      rw [hb] at hbody
      exact (ihn _ (fun j hj => (hs j hj).trans_le hbody.2) hbody.1).mono fun R hR => ⟨hR.1, hbody.2.trans hR.2⟩
    | ok x Q =>
      rw [hb] at hbody
      exact (ihn _ (fun j hj => (hs j hj).trans_le hbody.2) hbody.1).mono fun R hR => ⟨hR.1, hbody.2.trans hR.2⟩

/-- **All rules.** Whatever grows under the root is on its list. -/
theorem growWithin_stemsListed (recipe : κ → Recipe α κ Unit) (depth : Nat) {P : Subtree α κ} {self : Option Nat}
    (hs : ∀ j, self = some j → j < P.shapes.length) (h : P.stems = P.top) :
    Leaves (StemsListed P.shapes.length) (growWithin ctx recipe depth self P) := by
  induction depth generalizing P self with
  | zero => cases self <;> exact ⟨h, le_rfl⟩
  | succ depth ih =>
    have he (j : Nat) (Q : Subtree α κ) (hj : j < Q.shapes.length) (hQ : Q.stems = Q.top) :
        Leaves (StemsListed Q.shapes.length) (growWithin ctx recipe depth (some j) Q) :=
      ih (fun i hi => Option.some.inj hi ▸ hj) hQ
    cases self with
    | none => exact grow_stemsListed he (recipe ctx.kind) hs h
    | some j =>
      simp only [growWithin]
      cases P.shapes[j]? with
      | none => exact ⟨h, le_rfl⟩
      | some x => exact grow_stemsListed he (recipe x.kind) hs h

end

end Recipe

end SceneGrammar

/-
Recipes do in a world what they do to a subtree.

A grammar whose rules are recipes is run twice, in a world that holds a subtree and on the subtree itself. Both runs end
alike, with the same answer or the same fault, and the world holds the subtree as it is then (`toProg_agrees`, by
induction on the recipe; `expandWithin_agrees`, by induction on the depth of nesting).
-/
import SceneGrammar.Proofs.Growth.Representation

namespace SceneGrammar.World

variable {α κ σ : Type}

/-- an act and its image end alike; the subtree has at least `floor` symbols then -/
def Agrees {β γ : Type} (F : Placement α) (ctx : GrowthContext α κ) (R : β → γ → Prop) (floor : Nat) :
    EStateM.Result (Fault α) (World α κ σ) β → EStateM.Result (Fault α) (Subtree α κ) γ → Prop
  | .ok b w, .ok c P => R b c ∧ Represents F ctx w P ∧ floor ≤ P.shapes.length
  | .error e w, .error f P => e = f ∧ Represents F ctx w P ∧ floor ≤ P.shapes.length
  | _, _ => False

section

variable {F : Placement α} {ctx : GrowthContext α κ} {w : World α κ σ} {P : Subtree α κ}

theorem Agrees.cases {β γ : Type} {R : β → γ → Prop} {floor : Nat} {a : EStateM.Result (Fault α) (World α κ σ) β}
    {b : EStateM.Result (Fault α) (Subtree α κ) γ} (h : Agrees F ctx R floor a b) :
    (∃ x w y P, a = .ok x w ∧ b = .ok y P ∧ R x y ∧ Represents F ctx w P ∧ floor ≤ P.shapes.length) ∨
      ∃ e w P, a = .error e w ∧ b = .error e P ∧ Represents F ctx w P ∧ floor ≤ P.shapes.length := by
  cases a with
  | ok x w =>
    cases b with
    | ok y P => exact Or.inl ⟨x, w, y, P, rfl, rfl, h⟩
    | error f P => exact h.elim
  | error e w =>
    cases b with
    | ok y P => exact h.elim
    | error f P => exact Or.inr ⟨e, w, P, rfl, by rw [h.1], h.2⟩

theorem Agrees.mono {β γ : Type} {R : β → γ → Prop} {m n : Nat} {a : EStateM.Result (Fault α) (World α κ σ) β}
    {b : EStateM.Result (Fault α) (Subtree α κ) γ} (h : Agrees F ctx R n a b) (hmn : m ≤ n) : Agrees F ctx R m a b := by
  rcases h.cases with ⟨x, w, y, P, rfl, rfl, hR, hb, hn⟩ | ⟨e, w, P, rfl, rfl, hb, hn⟩
  · exact ⟨hR, hb, hmn.trans hn⟩
  · exact ⟨rfl, hb, hmn.trans hn⟩

/-! ## Drawing -/

theorem Represents.randomInt [SymbolKind κ] (h : Represents F ctx w P) {self : Option Nat} (hs : Within P self)
    (low high : Int) : Agrees F ctx Eq P.shapes.length (World.randomInt (F.shapeAt self) low high w)
      (Recipe.drawInt ctx low high P) := by
  have hsource := h.source
  unfold World.randomInt Recipe.drawInt
  rw [h.sourceOf hs]
  simp only [hsource, RandomSource.nextInt, RandomSource.next]
  by_cases hle : high ≤ low
  · simp only [if_pos hle]
    exact ⟨rfl, h.draw _ w.entropy, le_rfl⟩
  · simp only [if_neg hle]
    cases RandomSource.scaled low high (RandomSource.fraction (RandomSource.word ctx.key P.draws)) with
    | error e => exact ⟨rfl, h.draw _ w.entropy, le_rfl⟩
    | ok x => exact ⟨rfl, h.draw _ w.entropy, le_rfl⟩

theorem Represents.randomFraction [SymbolKind κ] (h : Represents F ctx w P) {self : Option Nat} (hs : Within P self) :
    ∃ v, World.randomFraction (F.shapeAt self) w =
        .ok (RandomSource.fraction (RandomSource.word ctx.key P.draws)) v ∧
      Represents F ctx v { P with draws := P.draws + 1 } := by
  have hsource := h.source
  unfold World.randomFraction
  rw [h.sourceOf hs]
  simp only [hsource, RandomSource.next]
  exact ⟨_, rfl, h.draw _ w.entropy⟩

/-! ## Making -/

/-- a living shape's offer of a kind is taken -/
theorem placeSymbol_of [SymbolKind κ] {creator : ShapeId} {own key : NodeId} (ho : w.homeOf creator = some own)
    (hk : w.rootKeyAt creator = some key) (hl : w.isAlive own = true) (kind : κ) (name : String) (pose : Pose α) :
    placeSymbol creator (.of kind) name none pose w = .ok w.shapes.size
      ((w.seat kind name (some own) pose (some key)).take creator w.nextId 1) := by
  have hkey : w.rootKeyOf creator = .ok key := by
    unfold rootKeyOf
    unfold rootKeyAt at hk
    rw [hk]
  unfold placeSymbol
  simp only [KindOffer.refusal?, KindOffer.kind?, nodeOf_eq_ok_iff.2 ho, hkey, Option.getD_none,
    parentFault?_of_alive hl]
  rw [seat, ← bind_take _ (lt_size_of_homeOf ho).ne']
  rfl

theorem Represents.take (h : Represents F ctx w P) {self : Option Nat} (hs : Within P self) {k : Nat}
    (hk : k < P.nodes.length) (count : Nat) :
    Represents F ctx (w.take (F.shapeAt self) (F.id k) count) (P.track self k) :=
  (h.frame rfl rfl rfl rfl rfl : Represents F ctx (w.note (.made (F.shapeAt self) (F.id k) count)) P).track hs hk

theorem length_track (P : Subtree α κ) (self : Option Nat) (k : Nat) :
    (P.track self k).shapes.length = P.shapes.length := by
  cases self <;> simp [Subtree.track]

/-- a symbol is seated in a subtree and comes on the list of the one that makes it -/
theorem Represents.seated (h : Represents F ctx w P) {self : Option Nat} (hs : Within P self) (kind : κ) (name : String)
    (pose : Pose α) :
    Represents F ctx ((w.seat kind name (some (F.nodeAt (P.home self))) pose (some F.root)).take
        (F.shapeAt self) w.nextId 1)
        ((P.addSymbol kind name (P.home self) pose).track self P.nodes.length) ∧
      P.shapes.length < ((P.addSymbol kind name (P.home self) pose).track self P.nodes.length).shapes.length := by
  have hsubtree := h.addSymbol kind name pose (h.sound.home_lt self)
  have hlen : P.nodes.length < (P.addSymbol kind name (P.home self) pose).nodes.length := by
    rw [Subtree.length_addSymbol]
    exact Nat.lt_succ_self _
  have hmore : (P.addSymbol kind name (P.home self) pose).shapes.length = P.shapes.length + 1 := by
    simp [Subtree.addSymbol]
  have hwithin : Within (P.addSymbol kind name (P.home self) pose) self := by
    intro j hj
    rw [hmore]
    exact (hs j hj).trans (Nat.lt_succ_self _)
  have htake := hsubtree.take hwithin hlen 1
  rw [← h.nextId] at htake
  refine ⟨htake, ?_⟩
  rw [length_track, hmore]
  exact Nat.lt_succ_self _

theorem Represents.createSymbol [SymbolKind κ] {expand : ShapeId → Act α κ σ Unit} {grown : Option Nat → Grow α κ Unit}
    (he : ∀ j w P, Represents F ctx w P → j < P.shapes.length →
      Agrees F ctx Eq P.shapes.length (expand (F.shapes + j) w) (grown (some j) P))
    (h : Represents F ctx w P) {self : Option Nat} (hs : Within P self) (offer : KindOffer κ) (name : String)
    (pose : Pose α) : Agrees F ctx (fun _ _ => True) P.shapes.length
      (World.createSymbol expand (F.shapeAt self) offer name none pose w)
      (Recipe.makeSymbol ctx grown self offer name pose P) := by
  have hown := h.homeOf hs
  have hroot := h.rootKeyAt hs
  have hkey : w.rootKeyOf (F.shapeAt self) = .ok F.root := by
    unfold rootKeyOf
    unfold World.rootKeyAt at hroot
    rw [hroot]
  cases offer with
  | unfit =>
    simp only [World.createSymbol, placeSymbol, Recipe.makeSymbol, KindOffer.refusal?, KindOffer.kind?,
      nodeOf_eq_ok_iff.2 hown, hkey]
    exact ⟨rfl, h, le_rfl⟩
  | abstractKind shown => exact ⟨rfl, h, le_rfl⟩
  | notAKind shown => exact ⟨rfl, h, le_rfl⟩
  | of kind =>
    obtain ⟨htake, hfloor⟩ := h.seated hs kind name pose
    simp only [World.createSymbol, placeSymbol_of hown hroot (h.alive (h.sound.home_lt self)), Recipe.makeSymbol]
    generalize (w.seat kind name (some (F.nodeAt (P.home self))) pose (some F.root)).take (F.shapeAt self) w.nextId 1
      = v at htake ⊢
    generalize (P.addSymbol kind name (P.home self) pose).track self P.nodes.length = Q at htake hfloor ⊢
    rw [htake.eager]
    by_cases hea : ctx.eager = true
    · simp only [if_pos hea, runExpansion, h.shapes_size]
      have hmark := htake.markExpanded hfloor
      have hmarklen : (Q.markExpanded P.shapes.length).shapes.length = Q.shapes.length := by simp [Subtree.markExpanded]
      have hrun := he P.shapes.length _ _ hmark (hmarklen ▸ hfloor)
      rw [hmarklen] at hrun
      rcases hrun.cases with ⟨a, u, b, U, ha, hb, -, hU, hle⟩ | ⟨e, u, U, ha, hb, hU, hle⟩
      · simp only [ha, hb]
        exact ⟨trivial, hU.frame rfl rfl rfl rfl rfl, hfloor.le.trans hle⟩
      · simp only [ha, hb]
        exact ⟨rfl, hU, hfloor.le.trans hle⟩
    · simp only [if_neg hea]
      exact ⟨trivial, htake, hfloor.le⟩

theorem Represents.spawn [Scalar α] [SymbolKind κ] (h : Represents F ctx w P) {self : Option Nat} (hs : Within P self)
    (template : TemplateRef α) (pose : Pose α) : Agrees F ctx (fun _ _ => True) P.shapes.length
      (World.spawn (F.shapeAt self) template none pose w) (Recipe.makeTerminal ctx self template pose P) := by
  have hresolve : w.resolve template = ctx.resolve template := by
    have htemplates := h.templates
    unfold resolve GrowthContext.resolve
    generalize ctx.templates = l at htemplates ⊢
    subst htemplates
    cases template <;> rfl
  unfold World.spawn Recipe.makeTerminal
  simp only [nodeOf_eq_ok_iff.2 (h.homeOf hs), hresolve, Option.getD_none,
    parentFault?_of_alive (h.alive (h.sound.home_lt self))]
  have hput (t : Template α) : Represents F ctx
      (((w.plant t (some (F.nodeAt (P.home self))) pose).note (.made (F.shapeAt self) w.nextId t.size)).track
        (F.shapeAt self) w.nextId) ((P.plant t (P.home self) pose).track self P.nodes.length) ∧
      P.shapes.length ≤ ((P.plant t (P.home self) pose).track self P.nodes.length).shapes.length := by
    obtain ⟨hb, hlt, hshapes⟩ := h.plant t (P.home self) pose (h.sound.home_lt self)
    rw [length_track, hshapes]
    refine ⟨?_, le_rfl⟩
    rw [h.nextId]
    refine hb.take (fun j hj => ?_) hlt t.size
    rw [hshapes]
    exact hs j hj
  cases ctx.resolve template with
  | error e => exact ⟨rfl, h, le_rfl⟩
  | ok t => exact ⟨trivial, hput t⟩

end

/-! ## Recipes and rules -/

section

variable [Scalar α] [SymbolKind κ] {F : Placement α} {ctx : GrowthContext α κ}

/-- **One recipe.** It does in a world what it does to the subtree that the world holds. -/
theorem toProg_agrees {expand : ShapeId → Act α κ σ Unit} {grown : Option Nat → Grow α κ Unit} (spare : Nat)
    (he : ∀ j w P, Represents F ctx w P → j < P.shapes.length →
      Agrees F ctx Eq P.shapes.length (expand (F.shapes + j) w) (grown (some j) P))
    {β : Type} (r : Recipe α κ β) {w : World α κ σ} {P : Subtree α κ} (h : Represents F ctx w P) {self : Option Nat}
    (hs : Within P self) : Agrees F ctx Eq P.shapes.length ((r.toProg (F.shapeAt self)).exec spare expand w)
      (r.grow ctx grown self P) := by
  induction r generalizing w P with
  | done b => exact ⟨rfl, h, le_rfl⟩
  | fail e => exact ⟨rfl, h, le_rfl⟩
  | relief next ih =>
    simp only [Recipe.toProg, Prog.exec, Recipe.grow, h.reliefOf hs]
    exact ih ctx.relief h hs
  | integer low high next ih =>
    simp only [Recipe.toProg, Prog.exec, Recipe.grow, perform]
    rcases (h.randomInt hs low high).cases with ⟨x, v, y, Q, hx, hy, rfl, hb, hle⟩ | ⟨e, v, Q, hx, hy, hb, hle⟩
    · simp only [hx, hy]
      exact (ih x hb (hs.mono hle)).mono hle
    · simp only [hx, hy]
      exact ⟨rfl, hb, hle⟩
  | fraction next ih =>
    simp only [Recipe.toProg, Prog.exec, Recipe.grow, perform]
    obtain ⟨v, hv, hb⟩ := h.randomFraction hs
    simp only [hv]
    exact ih _ hb hs
  | symbol offer name pose next ih =>
    simp only [Recipe.toProg, Prog.exec, Recipe.grow, perform]
    rcases (h.createSymbol he hs offer name pose).cases with
      ⟨x, v, y, Q, hx, hy, -, hb, hle⟩ | ⟨e, v, Q, hx, hy, hb, hle⟩
    · simp only [hx, hy]
      exact (ih hb (hs.mono hle)).mono hle
    · simp only [hx, hy]
      exact ⟨rfl, hb, hle⟩
  | terminal template pose next ih =>
    simp only [Recipe.toProg, Prog.exec, Recipe.grow, perform]
    rcases (h.spawn hs template pose).cases with ⟨x, v, y, Q, hx, hy, -, hb, hle⟩ | ⟨e, v, Q, hx, hy, hb, hle⟩
    · simp only [hx, hy]
      exact (ih hb (hs.mono hle)).mono hle
    · simp only [hx, hy]
      exact ⟨rfl, hb, hle⟩
  | attempt body next ihb ihn =>
    simp only [Recipe.toProg, Prog.exec, Recipe.grow]
    rcases (ihb h hs).cases with ⟨x, v, y, Q, hx, hy, rfl, hb, hle⟩ | ⟨e, v, Q, hx, hy, hb, hle⟩
    · simp only [hx, hy]
      exact (ihn _ hb (hs.mono hle)).mono hle
    · simp only [hx, hy]
      exact (ihn _ hb (hs.mono hle)).mono hle

/-- **All rules.** In a grammar of recipes an expansion does in a world what it does to the subtree. -/
theorem expandWithin_agrees {g : Grammar α κ σ} {recipe : κ → Recipe α κ Unit}
    (hg : ∀ kind s, g.rule kind s = (recipe kind).toProg s) (depth : Nat) {w : World α κ σ} {P : Subtree α κ}
    (h : Represents F ctx w P) {self : Option Nat} (hs : Within P self) :
    Agrees F ctx Eq P.shapes.length (g.expandWithin depth (F.shapeAt self) w)
      (Recipe.growWithin ctx recipe depth self P) := by
  induction depth generalizing w P self with
  | zero =>
    cases self <;> exact ⟨rfl, h, le_rfl⟩
  | succ depth ih =>
    have he (j : Nat) (v : World α κ σ) (Q : Subtree α κ) (hb : Represents F ctx v Q) (hj : j < Q.shapes.length) :=
      ih hb (fun i hi => Option.some.inj hi ▸ hj : Within Q (some j))
    cases self with
    | none =>
      obtain ⟨x, hx, hkind, -⟩ := h.root
      simp only [Grammar.expandWithin, Placement.shapeAt, hx, Recipe.growWithin, hkind, hg]
      exact toProg_agrees g.spare he (recipe ctx.kind) h hs
    | some j =>
      obtain ⟨x, hx⟩ : ∃ x, P.shapes[j]? = some x := ⟨_, List.getElem?_eq_getElem (hs j rfl)⟩
      simp only [Grammar.expandWithin, Placement.shapeAt, h.shape j x hx, Recipe.growWithin, hx, hg]
      exact toProg_agrees g.spare he (recipe x.kind) h hs

/-- **One expansion.** A start symbol under which nothing grows is expanded as the recipes say for a bare subtree. -/
theorem Unexpanded.grows {g : Grammar α κ σ} {recipe : κ → Recipe α κ Unit}
    (hg : ∀ kind s, g.rule kind s = (recipe kind).toProg s) {w : World α κ σ} (h : World.Sound w) {s : ShapeId}
    {n : NodeId} {trunk : Node α} {i : SourceId} {seed : Int} (f : Unexpanded w ctx s n trunk i seed) (depth : Nat) :
    Agrees (w.placement s n trunk i seed) ctx Eq 0 (runExpansion (g.expandWithin depth) s w)
      (Recipe.growWithin ctx recipe depth none .bare) := by
  have hwithin : Within (.bare : Subtree α κ) none := fun j hj => absurd hj (by simp)
  have hrun := expandWithin_agrees hg depth (f.represents h).markRoot hwithin
  unfold runExpansion
  rcases hrun.cases with ⟨a, z, b, Q, ha, hb, rfl, hQ, hle⟩ | ⟨e, z, Q, ha, hb, hQ, hle⟩
  · simp only [Placement.shapeAt, placement] at ha
    simp only [ha, hb]
    exact ⟨rfl, hQ.frame rfl rfl rfl rfl rfl, hle⟩
  · simp only [Placement.shapeAt, placement] at ha
    simp only [ha, hb]
    exact ⟨rfl, hQ, hle⟩

end

end SceneGrammar.World

/-
Rules that are recipes, side by side in two worlds.

A recipe draws, makes symbols and makes terminals, all by its own symbol. A relation that these keep, besides what making
a symbol in an eager world is made of (`KeptByCreation`), is `KeptByRecipes`: then a recipe keeps it (`toProg_sparing`, by
induction on the recipe), and so does running any rule (`expandWithin_sparing`, by induction on the nesting). Nothing dies
meanwhile, so a symbol that runs its rule lives until the end of it. In particular the expansion of a living symbol is a
sequence of steps (`runExpansion_steps`): recipes ask for nothing that is not permitted.
-/
import SceneGrammar.Proofs.Growth.Recipe
import SceneGrammar.Proofs.Reachable

namespace SceneGrammar.World

variable {α κ σ β : Type} [SymbolKind κ]

/-- related worlds in which everything that lived in an earlier one lives still -/
def Since (R : World α κ σ → World α κ σ → Prop) (u w v : World α κ σ) : Prop := R w v ∧ Grown u w

/-- running the rule of a living shape keeps a relation, and nothing dies -/
def Sparing (R : World α κ σ → World α κ σ → Prop) (expand expand' : ShapeId → Act α κ σ Unit) : Prop :=
  ∀ ⦃w v⦄ s, R w v → w.shapeAlive s = true → Alike (Since R w) (expand s w) (expand' s v)

/-- a relation of sound worlds that whatever a recipe does keeps -/
structure KeptByRecipes [Scalar α] (R : World α κ σ → World α κ σ → Prop) : Prop extends KeptByCreation R where
  integer : ∀ {w v} s low high, R w v → w.shapeAlive s = true →
    Alike R (randomInt s low high w) (randomInt s low high v)
  fraction : ∀ {w v} s, R w v → w.shapeAlive s = true → Alike R (randomFraction s w) (randomFraction s v)
  terminal : ∀ {w v} s template pose, R w v → w.shapeAlive s = true →
    Alike R (spawn s template none pose w) (spawn s template none pose v)

section

variable {R : World α κ σ → World α κ σ → Prop} {w v u : World α κ σ}

omit [SymbolKind κ] in
theorem Alike.since {a : Act α κ σ β} {b : EStateM.Result (Fault α) (World α κ σ) β} (h : Alike R (a w) b)
    (hg : Grown w (a.after w)) : Alike (Since R w) (a w) b := by
  unfold Act.after at hg
  rcases h.cases with ⟨x, w', v', hw, rfl, h'⟩ | ⟨e, w', v', hw, rfl, h'⟩
  · rw [hw] at hg ⊢
    exact ⟨rfl, h', hg⟩
  · rw [hw] at hg ⊢
    exact ⟨rfl, h', hg⟩

omit [SymbolKind κ] in
theorem Alike.earlier {a b : EStateM.Result (Fault α) (World α κ σ) β} (h : Alike (Since R w) a b) (hg : Grown u w) :
    Alike (Since R u) a b := h.mono fun _ _ h' => ⟨h'.1, hg.trans h'.2⟩

theorem KeptByCreation.since (hR : KeptByCreation R) (u : World α κ σ) : KeptByCreation (Since R u) where
  sound h := hR.sound h.1
  muteEq h := hR.muteEq h.1
  mark s h := ⟨hR.mark s h.1, h.2.trans (grown_markExpanded _ s)⟩
  finish s h := ⟨hR.finish s h.1, h.2.trans (grown_note _ _)⟩
  place creator offer name parent pose h hc hk :=
    ((hR.place creator offer name parent pose h.1 hc hk).since (placeSymbol_grown hc hk offer name pose)).earlier h.2

omit [SymbolKind κ] in
theorem Sparing.since {expand expand' : ShapeId → Act α κ σ Unit} (he : Sparing R expand expand') (u : World α κ σ) :
    Keeping (Since R u) expand expand' := fun _ _ s h hs => (he s h.1 hs).earlier h.2

omit [SymbolKind κ] in
theorem Sparing.keeping {expand expand' : ShapeId → Act α κ σ Unit} (he : Sparing R expand expand') :
    Keeping R expand expand' := fun _ _ s h hs => (he s h hs).mono fun _ _ h' => h'.1

/-! ## Draws -/

theorem randomInt_grown (s : ShapeId) (low high : Int) (w : World α κ σ) :
    Grown w ((randomInt s low high).after w) := by
  rcases randomInt_after w s low high with h | ⟨i, r, e, -, h⟩ <;> rw [h]
  · exact .refl w
  · exact .of_nodes rfl rfl fun _ => rfl

theorem randomFraction_grown (s : ShapeId) (w : World α κ σ) : Grown w ((randomFraction s).after w) := by
  rcases randomFraction_after w s with h | ⟨i, r, e, -, h⟩ <;> rw [h]
  · exact .refl w
  · exact .of_nodes rfl rfl fun _ => rfl

/-! ## Recipes and rules -/

variable [Scalar α]

/-- an operation in which nothing dies, and then the rest of a program -/
theorem Alike.perform_next {expand expand' : ShapeId → Act α κ σ Unit} {spare : Nat} {o : Op α κ σ}
    {next : o.Answer → Prog α κ σ β} (h : Alike (Since R w) (perform spare expand o w) (perform spare expand' o v))
    (hnext : ∀ x {w' v'}, R w' v' → Grown w w' →
      Alike (Since R w') ((next x).exec spare expand w') ((next x).exec spare expand' v')) :
    Alike (Since R w) ((Prog.perform o next).exec spare expand w) ((Prog.perform o next).exec spare expand' v) := by
  simp only [Prog.exec]
  rcases h.cases with ⟨x, w', v', hw, hv, h', hg⟩ | ⟨e, w', v', hw, hv, h'⟩
  · simp only [hw, hv]
    exact (hnext x h' hg).earlier hg
  · simp only [hw, hv]
    exact ⟨rfl, h'⟩

/-- **One recipe.** It keeps the relation, and nothing dies. -/
theorem toProg_sparing (hR : KeptByRecipes R) {expand expand' : ShapeId → Act α κ σ Unit} (he : Sparing R expand expand')
    (spare : Nat) {s : ShapeId} (r : Recipe α κ β) (h : R w v) (hs : w.shapeAlive s = true) :
    Alike (Since R w) ((r.toProg s).exec spare expand w) ((r.toProg s).exec spare expand' v) := by
  induction r generalizing w v with
  | done b => exact ⟨rfl, h, .refl w⟩
  | fail e => exact ⟨rfl, h, .refl w⟩
  | relief next ih =>
    simp only [Recipe.toProg, Prog.exec, (hR.muteEq h).reliefOf]
    rcases w.reliefOf s with e | m
    · exact ⟨rfl, h, .refl w⟩
    · exact ih m h hs
  | integer low high next ih =>
    have hdraw := (hR.integer s low high h hs).since (randomInt_grown s low high w)
    exact hdraw.perform_next fun x _ _ h' hg => ih x h' (hg.shapeAlive hs)
  | fraction next ih =>
    have hdraw := (hR.fraction s h hs).since (randomFraction_grown s w)
    exact hdraw.perform_next fun k _ _ h' hg => ih k h' (hg.shapeAlive hs)
  | symbol offer name pose next ih =>
    have hmade := (hR.toKeptByCreation.since w).createSymbol (he.since w) ⟨h, .refl w⟩ hs
      (rfl : w.knows none = true) offer name pose
    exact hmade.perform_next fun _ _ _ h' hg => ih h' (hg.shapeAlive hs)
  | terminal template pose next ih =>
    have hmade := (hR.terminal s template pose h hs).since (spawn_grown hs rfl template pose).1
    exact hmade.perform_next fun _ _ _ h' hg => ih h' (hg.shapeAlive hs)
  | attempt body next ihb ihn =>
    simp only [Recipe.toProg, Prog.exec]
    rcases (ihb h hs).cases with ⟨x, w', v', hw, hv, h', hg⟩ | ⟨e, w', v', hw, hv, h', hg⟩
    · simp only [hw, hv]
      exact (ihn _ h' (hg.shapeAlive hs)).earlier hg
    · simp only [hw, hv]
      exact (ihn _ h' (hg.shapeAlive hs)).earlier hg

/-- **All rules.** In a grammar of recipes running a rule keeps the relation, and nothing dies. -/
theorem expandWithin_sparing (hR : KeptByRecipes R) {g : Grammar α κ σ} {recipe : κ → Recipe α κ Unit}
    (hg : ∀ kind s, g.rule kind s = (recipe kind).toProg s) (depth : Nat) :
    Sparing R (g.expandWithin depth) (g.expandWithin depth) := by
  induction depth with
  | zero => exact fun w v s h _ => ⟨rfl, h, .refl w⟩
  | succ depth ih =>
    intro w v s h hs
    simp only [Grammar.expandWithin, (hR.muteEq h).shape?]
    cases w.shape? s with
    | none => exact ⟨rfl, h, .refl w⟩
    | some x =>
      simp only [hg]
      exact toProg_sparing hR ih g.spare (recipe x.kind) h hs

/-- whatever a recipe does is a sequence of steps -/
theorem keptByRecipes_steps {w₀ : World α κ σ} (h₀ : Sound w₀) : KeptByRecipes (Itself (Steps w₀)) where
  toKeptByCreation := (keptByOperations_steps h₀).toKeptByCreation
  integer := by
    rintro _ w s low high ⟨rfl, h⟩ _
    exact alike_itself.2 (h.trans (randomInt_steps w s low high))
  fraction := by
    rintro _ w s ⟨rfl, h⟩ _
    exact alike_itself.2 (h.trans (randomFraction_steps w s))
  terminal := by
    rintro _ w s template pose ⟨rfl, h⟩ hs
    exact alike_itself.2 (h.trans (spawn_steps hs rfl template pose))

/-- the expansion of a living symbol by recipes is a sequence of steps -/
theorem runExpansion_steps {g : Grammar α κ σ} {recipe : κ → Recipe α κ Unit}
    (hg : ∀ kind s, g.rule kind s = (recipe kind).toProg s) (h : Sound w) {s : ShapeId} (hs : w.shapeAlive s = true)
    (depth : Nat) : Steps w ((runExpansion (g.expandWithin depth) s).after w) := by
  have hrecipes := keptByRecipes_steps h
  have hkeep := (expandWithin_sparing hrecipes hg depth).keeping
  exact alike_itself.1 (hrecipes.runExpansion hkeep ⟨rfl, .refl⟩ hs)

end

end SceneGrammar.World

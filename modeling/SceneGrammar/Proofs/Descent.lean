/-
Where a symbol belongs, and what it draws from.

A symbol finds its start symbol through a key that it was given when it was made: the node under which the start symbol
is registered. `Founds w R r`: `R` stands on the node `r`, and nobody has made it; `Descends w s r`: `s` stands on `r`, or
was made by one that does, and so on. `InheritsKeys` is the invariant behind it: whoever was made has the key of its
maker.

- `Reachable.draws_at_root`: in every reachable world the key says whom a symbol descends from, a living symbol finds its
  living start symbol, and whatever runs, the symbols of a tree draw from no other source than the one their start symbol
  names, as long as it lives.
- `draws_astray`: once the start symbol has been destroyed, they may draw from the ambient source instead.
-/
import SceneGrammar.Proofs.Ownership
import SceneGrammar.Proofs.Surroundings
import SceneGrammar.Proofs.Upkeep

namespace SceneGrammar

variable {α κ σ β : Type}

namespace World

/-- a start symbol and its node: nobody has made it -/
def Founds (w : World α κ σ) (R : ShapeId) (r : NodeId) : Prop := w.homeOf R = some r ∧ ∀ p, ¬ w.Creator r p

/-- a symbol stands on the node `r`, or was made by one that does, and so on -/
def Descends (w : World α κ σ) (s : ShapeId) (r : NodeId) : Prop :=
  ∃ n, w.homeOf s = some n ∧ (n = r ∨ w.Offspring r n)

/-- the source that a start symbol names for its tree, or the ambient one if it names none -/
def sourceAt (w : World α κ σ) (R : ShapeId) : SourceId := (firstSource? (w.componentsOf R)).getD w.ambient

/-! ## The invariant -/

/-- every symbol has a key, and one that was made has the key of its maker -/
structure InheritsKeys (w : World α κ σ) : Prop where
  keyed : ∀ s n, w.homeOf s = some n → ∃ k, w.rootKeyAt s = some k
  inherited : ∀ n s p t, w.shapeOn? n = some s → w.Creator n p → w.homeOf t = some p → w.rootKeyAt s = w.rootKeyAt t

theorem Pristine.inheritsKeys {w : World α κ σ} (h : Pristine w) : InheritsKeys w where
  keyed s n hn := by
    have hs := lt_size_of_homeOf hn
    rw [h.shapes] at hs
    exact absurd hs (Nat.not_lt_zero s)
  inherited n s p t hs _ _ := by
    have hn := le_size_of_shapeOn? hs
    obtain ⟨x, hx, -⟩ := Option.bind_eq_some_iff.1 hs
    have hsize : w.nodes.size = 0 := by rw [h.nodes]; rfl
    exact absurd (le_size_of_node? hx).1 (not_lt.2 (hn.trans_eq hsize))

section

variable {w v : World α κ σ}

/-- nothing new was made, and nobody has another key -/
theorem InheritsKeys.nothingMade (i : InheritsKeys w) (o : Owned w) (mk : v.makings = w.makings)
    (shape : ∀ n s, v.shapeOn? n = some s → w.shapeOn? n = some s) (rootKey : ∀ s, v.rootKeyAt s = w.rootKeyAt s)
    (home : ∀ s n, v.homeOf s = some n ↔ w.homeOf s = some n) : InheritsKeys v where
  keyed s n hn := by
    rw [rootKey]
    exact i.keyed s n ((home s n).1 hn)
  inherited n s p t hs hc ht := by
    rw [rootKey, rootKey]
    exact i.inherited n s p t (shape n s hs) (hc.back o.entered mk fun s n => (home s n).2) ((home t p).1 ht)

theorem InheritsKeys.sameScene (i : InheritsKeys w) (o : Owned w) (e : SameScene w v) (mk : v.makings = w.makings) :
    InheritsKeys v :=
  i.nothingMade o mk (fun n _ hs => e.shapeOn? n ▸ hs) e.rootKey fun s _ => by rw [e.home]

/-- a new symbol is nobody's maker, and nobody has made it so far -/
theorem InheritsKeys.seat (i : InheritsKeys w) (o : Owned w) (h : Sound w) (kind : κ) (name : String)
    (parent : Option NodeId)
    (pose : Pose α) (rootKey : Option NodeId) (hp : ∀ p, parent = some p → w.isAlive p = true) :
    InheritsKeys (w.seat kind name parent pose rootKey) where
  keyed s n hn := by
    rw [rootKeyAt_seat]
    split_ifs with hs
    · exact ⟨_, rfl⟩
    · rw [homeOf_seat, if_neg hs] at hn
      exact i.keyed s n hn
  inherited n s p t hs hc ht := by
    obtain ⟨-, hseat⟩ := o.seat kind name parent pose rootKey h hp
    rcases hseat n s hs with ⟨-, -, hnone⟩ | ⟨-, hkey, hsw, hiff⟩
    · exact absurd hc (hnone p)
    have hcw := (hiff p).1 hc
    have htold : t ≠ w.shapes.size := by
      rintro rfl
      rw [homeOf_seat, if_pos rfl] at ht
      obtain ⟨c, _, _, _, hcp, _⟩ := hcw
      exact nextId_ne (le_size_of_shapeOn? (h.on_home c p hcp)) (Option.some.inj ht).symm
    rw [homeOf_seat, if_neg htold] at ht
    rw [hkey, rootKeyAt_seat, if_neg htold]
    exact i.inherited n s p t hsw hcw ht

/-- what is taken carries no symbols, or one with the key of the maker -/
theorem InheritsKeys.take (i : InheritsKeys w) (h : Sound w) {creator : ShapeId} {first : NodeId} {count : Nat}
    (hkey : ∀ n s, first ≤ n → n < first + count → w.shapeOn? n = some s → w.rootKeyAt s = w.rootKeyAt creator) :
    InheritsKeys (w.take creator first count) where
  keyed s n hn := by
    have e := sameScene_take w creator first count
    rw [e.rootKey]
    exact i.keyed s n ((e.home s).symm.trans hn)
  inherited n s p t hs hc ht := by
    have e := sameScene_take w creator first count
    rw [e.shapeOn?] at hs
    rw [e.home] at ht
    rw [e.rootKey, e.rootKey]
    rcases creator_take hc with hc | ⟨⟨hle, hlt⟩, hp⟩
    · exact i.inherited n s p t hs hc ht
    · obtain rfl : t = creator := Option.some.inj ((h.on_home t p ht).symm.trans (h.on_home creator p hp))
      exact hkey n s hle hlt hs

theorem Step.inheritsKeys (h : Sound w) (o : Owned w) (s : Step w v) (i : InheritsKeys w) : InheritsKeys v := by
  cases s with
  | aside e _ _ hm => exact i.sameScene o e hm
  | agenda _ _ => exact i.sameScene o ⟨rfl, rfl, rfl, rfl, rfl, fun _ => rfl, fun _ => rfl, rfl⟩ rfl
  | node name kind parent pose template hp =>
    have a := adds_addNode w name kind parent pose template hp
    refine i.nothingMade o (makings_addNode w name kind parent pose template) (fun n s hs => ?_)
      (rootKeyAt_addNode w name kind parent pose template) fun s n => ?_
    · rw [a.shapeOn?] at hs
      split_ifs at hs
      exact hs
    · rw [homeOf_addNode]
  | root kind name parent pose hp => exact i.seat o h kind name parent pose none hp
  | symbol kind name parent pose ho hl hp =>
    rename_i creator own
    have hkey : ∀ k, some ((w.rootKeyAt creator).getD own) = some k → k ≤ w.nextId := by
      rintro k ⟨⟩
      exact (h.key_getD_le ho).trans ((le_size_of_isAlive hl).trans (Nat.le_succ _))
    have hcreator := (lt_size_of_homeOf ho).ne
    refine (i.seat o h kind name parent pose _ hp).take (h.seat kind name parent pose _ hp hkey) ?_
    intro n s hle hlt hs
    -- the only node taken is the new symbol's
    obtain rfl : n = w.nextId := le_antisymm (Nat.le_of_lt_succ hlt) hle
    have a := adds_seat w kind name parent pose (some ((w.rootKeyAt creator).getD own)) hp
    rw [a.shapeOn?, if_pos rfl] at hs
    obtain ⟨k, hk⟩ := i.keyed creator own ho
    rw [rootKeyAt_seat, rootKeyAt_seat, if_pos (Option.some.inj hs).symm, if_neg hcreator, hk]
    rfl
  | take ho hl hlt hf hk hbare hin =>
    refine i.take h fun n s hle hlt hs => ?_
    rw [hbare n hle (Nat.le_of_lt_succ (hlt.trans_eq hk))] at hs
    exact absurd hs (by simp)
  | track _ _ =>
    refine i.sameScene o (sameScene_track w _ _) ?_
    simp [makings, World.track, World.note, World.modifyShape]
  | kills k =>
    refine i.nothingMade o (makings_kills k) (fun n s hs => k.torn.shapeOn? n ▸ hs) k.torn.rootKeyAt fun s n => ?_
    rw [k.torn.homeOf]

theorem Steps.inheritsKeys (h : Sound w) (o : Owned w) (s : Steps w v) (i : InheritsKeys w) : InheritsKeys v := by
  induction s with
  | refl => exact i
  | tail s step ih => exact step.inheritsKeys (Steps.sound h s) (Steps.owned h s o) ih

/-- a symbol keeps its key -/
theorem Step.rootKey_kept (s : Step w v) {t : ShapeId} {n : NodeId} (ht : w.homeOf t = some n) :
    v.rootKeyAt t = w.rootKeyAt t := by
  have hold := (lt_size_of_homeOf ht).ne
  cases s with
  | aside e _ _ _ => exact e.rootKey t
  | agenda _ _ => rfl
  | node name kind parent pose template hp => exact rootKeyAt_addNode w name kind parent pose template t
  | root kind name parent pose hp => rw [rootKeyAt_seat, if_neg hold]
  | symbol kind name parent pose ho hl hp =>
    rw [(sameScene_take _ _ _ _).rootKey, rootKeyAt_seat, if_neg hold]
  | take _ _ _ _ _ _ _ => exact (sameScene_take _ _ _ _).rootKey t
  | track _ _ => exact (sameScene_track w _ _).rootKey t
  | kills k => exact k.torn.rootKeyAt t

/-! ## What follows -/

/-- a start symbol is its own -/
theorem Founds.key (o : Owned w) (h : Sound w) {R : ShapeId} {r : NodeId} (f : w.Founds R r) :
    w.rootKeyAt R = some r := by
  rcases o.started r R (h.on_home R r f.1) with hr | ⟨p, hp⟩
  · exact hr
  · exact absurd hp (f.2 p)

/-- whoever descends from a symbol has its key -/
theorem InheritsKeys.offspring_key (i : InheritsKeys w) (h : Sound w) {r n : NodeId} (hc : w.Offspring r n)
    {s R : ShapeId} (hs : w.homeOf s = some n) (hR : w.homeOf R = some r) : w.rootKeyAt s = w.rootKeyAt R := by
  induction hc using Relation.TransGen.head_induction_on generalizing s with
  | single hc => exact i.inherited _ s _ R (h.on_home s _ hs) hc hR
  | head hc _ ih =>
    have hmaker := hc
    obtain ⟨t, _, _, _, ht, _⟩ := hmaker
    exact (i.inherited _ s _ t (h.on_home s _ hs) hc ht).trans (ih ht)

/-- **Keys.** The key of a symbol says whom it descends from. -/
theorem InheritsKeys.key_iff (i : InheritsKeys w) (o : Owned w) (h : Sound w) {R s : ShapeId} {r : NodeId}
    (f : w.Founds R r) : w.rootKeyAt s = some r ↔ w.Descends s r := by
  constructor
  · intro hk
    have hs : s < w.shapes.size := by
      obtain ⟨x, hx, -⟩ := Option.bind_eq_some_iff.1 hk
      exact lt_size_of_shape? hx
    obtain ⟨n, hn⟩ := h.housed s hs
    clear hs
    -- up from maker to maker, who are older
    induction n using Nat.strong_induction_on generalizing s with
    | _ n ih =>
      rcases o.started n s (h.on_home s n hn) with hself | ⟨p, hp⟩
      · exact ⟨n, hn, Or.inl (Option.some.inj (hself.symm.trans hk))⟩
      · have hmaker := hp
        obtain ⟨t, first, count, hm, ht, hle, -⟩ := hmaker
        obtain ⟨q, hq, hlt⟩ := (o.entered t first count hm).younger
        obtain rfl : q = p := Option.some.inj (hq.symm.trans ht)
        have hkt : w.rootKeyAt t = some r := (i.inherited n s q t (h.on_home s n hn) hp ht).symm.trans hk
        obtain ⟨m, hm', hmr⟩ := ih q (hlt.trans_le hle) hkt ht
        obtain rfl : q = m := Option.some.inj (ht.symm.trans hm')
        refine ⟨n, hn, Or.inr ?_⟩
        rcases hmr with rfl | hmr
        · exact .single hp
        · exact .head hp hmr
  · rintro ⟨n, hn, rfl | hc⟩
    · have hsR : s = R := Option.some.inj ((h.on_home s n hn).symm.trans (h.on_home R n f.1))
      exact hsR ▸ f.key o h
    · exact (i.offspring_key h hc hn f.1).trans (f.key o h)

/-- a living symbol descends from a start symbol -/
theorem Owned.founder (o : Owned w) (h : Sound w) {s : ShapeId} (hs : w.shapeAlive s = true) :
    ∃ R r, w.Founds R r ∧ w.Descends s r := by
  obtain ⟨n, hn, hl⟩ := shapeAlive_iff.1 hs
  by_cases hm : ∃ p, w.Creator n p
  · obtain ⟨r, hr, -, R, hR, hkey⟩ := o.ends_at_start h hl hm
    exact ⟨R, r, ⟨h.home r R hR, fun p => o.unmade r R p hR hkey⟩, n, hn, Or.inr hr⟩
  · exact ⟨s, n, ⟨hn, fun p hp => hm ⟨p, hp⟩⟩, n, hn, Or.inl rfl⟩

/-- the start symbol of a living symbol lives -/
theorem Descends.root_alive (o : Owned w) (h : Sound w) {s : ShapeId} {r : NodeId} (hd : w.Descends s r)
    (hs : w.shapeAlive s = true) : w.isAlive r = true := by
  obtain ⟨n, hn, hl⟩ := shapeAlive_iff.1 hs
  obtain ⟨m, hm, hmr⟩ := hd
  obtain rfl : n = m := Option.some.inj (hn.symm.trans hm)
  rcases hmr with rfl | hmr
  · exact hl
  · exact (o.offspring h hmr hl).1

variable [SymbolKind κ]

/-- as long as a start symbol lives, whoever has its key finds it -/
theorem Sound.resolves (h : Sound w) {R s : ShapeId} {r : NodeId} (hR : w.homeOf R = some r) (hl : w.isAlive r = true)
    (hk : w.rootKeyAt s = some r) :
    w.registered? r = some R ∧ w.rootKeyOf s = .ok r ∧ w.rootOf s = .ok R ∧ w.sourceOf s = .ok (w.sourceAt R) := by
  have hreg : w.registered? r = some R :=
    (registered?_eq_some_iff h.bound_nodup).2 ((h.mem_bound r R).2 ⟨hl, h.on_home R r hR⟩)
  have hs : s < w.shapes.size := by
    obtain ⟨x, hx, -⟩ := Option.bind_eq_some_iff.1 hk
    exact lt_size_of_shape? hx
  obtain ⟨n, hn⟩ := h.housed s hs
  have hroot := rootOf_eq hn hk hreg
  refine ⟨hreg, ?_, hroot, sourceOf_eq hroot⟩
  rw [rootKeyOf_eq hn, hk]
  rfl

end

/-! ## Drawing -/

/-- a test: draws are made by symbols with the key `r`, while its start symbol `R` lives and does not name the source `i`,
and that source is not started anew -/
def drawsWithin (R : ShapeId) (r : NodeId) (i : SourceId) (w : World α κ σ) : Op α κ σ → Bool
  | .randomInt s _ _ => w.rootKeyAt s == some r && w.isAlive r && w.sourceAt R != i
  | .randomFraction s => w.rootKeyAt s == some r && w.isAlive r && w.sourceAt R != i
  | .reseed j _ => j != i
  | _ => true

/-- a start symbol, and a source as it was -/
structure Lineage (R : ShapeId) (r : NodeId) (i : SourceId) (x : RandomSource) (w : World α κ σ) : Prop where
  sound : w.Sound
  owned : w.Owned
  inheritsKeys : w.InheritsKeys
  home : w.homeOf R = some r
  key : w.rootKeyAt R = some r
  source : w.sources[i]? = some x

section

variable {R : ShapeId} {r : NodeId} {i : SourceId} {x : RandomSource} {w v : World α κ σ}

theorem Lineage.steps (l : Lineage R r i x w) (s : Steps w v) (hx : v.sources[i]? = some x) : Lineage R r i x v := by
  suffices h : v.Sound ∧ v.Owned ∧ v.InheritsKeys ∧ v.homeOf R = some r ∧ v.rootKeyAt R = some r from
    ⟨h.1, h.2.1, h.2.2.1, h.2.2.2.1, h.2.2.2.2, hx⟩
  clear hx
  induction s with
  | refl => exact ⟨l.sound, l.owned, l.inheritsKeys, l.home, l.key⟩
  | tail _ step ih =>
    obtain ⟨hs, ho, hh, hhome, hkey⟩ := ih
    exact ⟨step.sound hs, step.owned hs ho, step.inheritsKeys hs ho hh, step.later.homes R r hhome,
      (step.rootKey_kept hhome).trans hkey⟩

theorem Lineage.secluded (l : Lineage R r i x w) (s : Steps w v) (h : v.surroundings = w.surroundings) :
    Lineage R r i x v := by
  refine l.steps s ?_
  have hsources : v.sources = w.sources := congrArg Surroundings.sources h
  rw [hsources]
  exact l.source

/-- a draw from another source -/
theorem getElem?_setSource (w : World α κ σ) {i j : SourceId} (hj : j ≠ i) (y : RandomSource) (e : Entropy) :
    (w.setSource j y e).sources[i]? = w.sources[i]? := Array.getElem?_setIfInBounds_ne hj

variable [SymbolKind κ]

theorem keptByOperations_lineage : KeptByOperations (Itself (Lineage (α := α) (κ := κ) (σ := σ) R r i x)) := by
  refine keptByOperations_itself (fun _ l => l.sound) ?_ ?_ ?_ ?_ ?_
  · exact fun w s l => l.secluded (markExpanded_steps w s) rfl
  · exact fun w s l => l.secluded (.single (step_note _ _ (by simp))) rfl
  · exact fun w a l ha => l.secluded (.single (step_agenda ha)) rfl
  · intro creator offer name parent pose w l hc hk
    exact l.secluded (placeSymbol_steps hc hk offer name pose) (placeSymbol_secluded creator offer name parent pose w)
  · exact fun s w l => l.secluded (deleteGenerated_steps l.sound s) (deleteGenerated_secluded s w)

theorem randomInt_spares {s : ShapeId} {j : SourceId} (hs : w.sourceOf s = .ok j) (hj : j ≠ i) (low high : Int) :
    ((randomInt s low high).after w).sources[i]? = w.sources[i]? := by
  rcases randomInt_after w s low high with h | ⟨k, r, e, hk, h⟩ <;> rw [h]
  obtain rfl : j = k := Except.ok.inj (hs.symm.trans hk)
  exact getElem?_setSource w hj r e

theorem randomFraction_spares {s : ShapeId} {j : SourceId} (hs : w.sourceOf s = .ok j) (hj : j ≠ i) :
    ((randomFraction s).after w).sources[i]? = w.sources[i]? := by
  rcases randomFraction_after w s with h | ⟨k, r, e, hk, h⟩ <;> rw [h]
  obtain rfl : j = k := Except.ok.inj (hs.symm.trans hk)
  exact getElem?_setSource w hj r e

omit [SymbolKind κ] in
theorem reseed_spares {j : SourceId} (hj : j ≠ i) (seed : Option Int) :
    ((reseed j seed).after w).sources[i]? = w.sources[i]? := by
  rcases reseed_after w j seed with h | ⟨r, e, h⟩ <;> rw [h]
  exact getElem?_setSource w hj r e

variable [Scalar α]

/-- **One operation.** A start symbol stays what it is, and no other source is drawn from in its tree. -/
theorem lineage_endures (spare : Nat) : Endures spare (fun w o => w.permits o && drawsWithin R r i w o)
    (Lineage (α := α) (κ := κ) (σ := σ) R r i x) := by
  intro expand he w o l hok
  rw [Bool.and_eq_true] at hok
  obtain ⟨hp, hd⟩ := hok
  have hkeep := keeping_itself he
  -- an operation that runs no rules is the same with rules that do nothing
  have hsteps := steps_endure l.sound spare (fun _ w => .ok () w) (fun _ _ s => s) w o .refl hp
  have hroot {s : ShapeId} (hs : (w.rootKeyAt s == some r && w.isAlive r && w.sourceAt R != i) = true) :
      w.sourceOf s = .ok (w.sourceAt R) ∧ w.sourceAt R ≠ i := by
    simp only [Bool.and_eq_true, beq_iff_eq, bne_iff_ne] at hs
    exact ⟨(l.sound.resolves l.home hs.1.2 hs.1.1).2.2.2, hs.2⟩
  cases o with
  | createNode name parent pose => exact l.secluded hsteps (createNode_secluded name parent pose w)
  | instantiate t parent pose => exact l.secluded hsteps (instantiate_secluded t parent pose w)
  | reparent _ _ => simp [permits] at hp
  | destroy n => exact l.secluded hsteps (destroy_secluded n w)
  | clearScene => exact l.secluded hsteps (destroyAll_secluded w.roots w)
  | clear => exact l.secluded hsteps (clear_secluded w)
  | register t => exact l.steps hsteps l.source
  | newShape _ => simp [permits] at hp
  | bind _ _ _ => simp [permits] at hp
  | createRoot offer name parent pose source =>
    exact l.secluded hsteps (createRoot_secluded offer name parent pose source w)
  | createSymbol creator offer name parent pose =>
    rw [permits, Bool.and_eq_true] at hp
    exact alike_itself.1 (keptByOperations_lineage.createSymbol hkeep ⟨rfl, l⟩ hp.1 hp.2 offer name pose)
  | spawn creator template parent pose => exact l.secluded hsteps (spawn_secluded creator template parent pose w)
  | track s n => exact l.steps hsteps l.source
  | expand s => exact he s w l
  | generate s delay => exact alike_itself.1 (keptByOperations_lineage.generate hkeep ⟨rfl, l⟩ hp delay)
  | deleteGenerated s => exact l.secluded hsteps (deleteGenerated_secluded s w)
  | setKind s kind => exact l.steps hsteps l.source
  | setComponents s cs => exact l.steps hsteps l.source
  | newSource seed =>
    refine l.steps hsteps ?_
    have hi : i < w.sources.size := (Array.getElem?_eq_some_iff.1 l.source).1
    exact (Array.getElem?_push_lt hi).trans ((Array.getElem?_eq_getElem hi).symm.trans l.source)
  | reseed j seed => exact l.steps hsteps ((reseed_spares (by simpa [drawsWithin] using hd) seed).trans l.source)
  | randomInt s low high => exact l.steps hsteps ((randomInt_spares (hroot hd).1 (hroot hd).2 low high).trans l.source)
  | randomFraction s => exact l.steps hsteps ((randomFraction_spares (hroot hd).1 (hroot hd).2).trans l.source)
  | schedule s delay => exact l.secluded hsteps (schedule_secluded s delay w)
  | cancel n => exact l.steps hsteps l.source
  | advance dt => exact alike_itself.1 (keptByOperations_lineage.advance hkeep ⟨rfl, l⟩ spare dt)
  | clearAgenda => exact l.steps hsteps l.source
  | setLive live => exact l.steps hsteps l.source
  | listen listeners => exact l.steps hsteps l.source
  | warn x => exact l.steps hsteps l.source
  | setDesk desk => exact l.steps hsteps l.source
  | setUser user => exact l.steps hsteps l.source

end

end World

open World

section

variable [Scalar α] [SymbolKind κ]

theorem Reachable.inheritsKeys {w : World α κ σ} (h : Reachable w) : w.InheritsKeys := by
  induction h with
  | start hw => exact hw.inheritsKeys
  | run g p hr hp ih => exact (hp.steps hr.sound).inheritsKeys hr.sound hr.owned ih

/-- **Roots and draws.** In a reachable world
- a living symbol descends from a start symbol, and the key of a symbol, alive or dead, says from which one;
- the start symbol of a living symbol is alive, registered, and found by it;
- whoever descends from a living start symbol draws from the first source attached to that, or from the ambient one;
- so whatever is run, if draws are made by descendants of one start symbol, each while that lives, a source that it does
  not name at any draw is as before. -/
theorem Reachable.draws_at_root {w : World α κ σ} (h : Reachable w) :
    (∀ s, w.shapeAlive s = true → ∃ R r, w.Founds R r ∧ w.Descends s r) ∧
    (∀ s R r, w.Founds R r → (w.rootKeyAt s = some r ↔ w.Descends s r)) ∧
    (∀ s R r, w.shapeAlive s = true → w.Founds R r → w.Descends s r →
      w.isAlive r = true ∧ w.registered? r = some R ∧ w.rootKeyOf s = .ok r ∧ w.rootOf s = .ok R) ∧
    (∀ s R r, w.Founds R r → w.isAlive r = true → w.Descends s r → w.sourceOf s = .ok (w.sourceAt R)) ∧
    ∀ (β : Type) (g : Grammar α κ σ) (p : Prog α κ σ β) (R : ShapeId) (r : NodeId) (i : SourceId) (x : RandomSource),
      w.Founds R r → w.sources[i]? = some x →
      p.HeedsBy (fun v o => v.permits o && drawsWithin R r i v o) g w → ((p.run g).after w).sources[i]? = some x := by
  have hs := h.sound
  have ho := h.owned
  have hh := h.inheritsKeys
  have hkey (s R r) (f : w.Founds R r) := hh.key_iff (s := s) ho hs f
  refine ⟨fun s hl => ho.founder hs hl, hkey, ?_, ?_, ?_⟩
  · intro s R r hl f hd
    have hr := hd.root_alive ho hs hl
    obtain ⟨hreg, hkeyOf, hroot, -⟩ := hs.resolves f.1 hr ((hkey s R r f).2 hd)
    exact ⟨hr, hreg, hkeyOf, hroot⟩
  · intro s R r f hr hd
    exact (hs.resolves f.1 hr ((hkey s R r f).2 hd)).2.2.2
  · intro β g p R r i x f hx hp
    have l : Lineage R r i x w := ⟨hs, ho, hh, f.1, f.key ho hs, hx⟩
    exact (hp.endures (lineage_endures g.spare) l).source

end

/-- two roots, the first with a source of its own, and a symbol of the first -/
def branching : Prog Float (City.Kind Float) Unit Unit :=
  .perform (.newSource 5) fun source =>
    .perform (.createRoot (.of .roof) "home" none (.displaced .origin) (some source)) fun home =>
      .perform (.createRoot (.of .roof) "abroad" none (.displaced .origin) none) fun _ =>
        .perform (.createSymbol home (.of .roof) "child" none (.displaced .origin)) fun _ => .done ()

/-- the roots stand on the nodes 1 and 2, the symbol on the node 3 -/
def branched : World Float (City.Kind Float) Unit := (branching.run idle).after (.fresh ⟨fun _ => 0, 0⟩ ())

theorem reachable_branched : Reachable branched :=
  .run idle branching (.start (pristine_fresh _ _)) <|
    Prog.heeds_perform (by decide +kernel) rfl <| Prog.heeds_perform (by decide +kernel) rfl <|
      Prog.heeds_perform (by decide +kernel) rfl <| Prog.heeds_perform (by decide +kernel) rfl rfl

theorem founds_branched : branched.Founds 0 1 := by
  have hhome : branched.homeOf 0 = some 1 := by decide +kernel
  have hon := reachable_branched.sound.on_home 0 1 hhome
  exact ⟨hhome, fun p => reachable_branched.owned.unmade 1 0 p hon (by decide +kernel)⟩

/-- a rule that destroys a node, and then draws -/
def felling (n : NodeId) : Grammar Float (City.Kind Float) Unit :=
  { rule := fun _ self => .perform (.destroy n) fun _ => .perform (.randomInt self 0 2) fun _ => .done ()
    nesting := 1, spare := 0 }

/-- an expansion by that rule passes a test, if it does itself and its two operations do -/
theorem felling_heeds {ok : World Float (City.Kind Float) Unit → Op Float (City.Kind Float) Unit → Bool}
    {w : World Float (City.Kind Float) Unit} {n : NodeId} {s : ShapeId} (hs : (w.shape? s).isSome = true)
    (expand : ok w (.expand s) = true) (destroy : ok w (.destroy n) = true)
    (draw : ok ((World.destroy n).after w) (.randomInt s 0 2) = true) :
    (Prog.act (.expand s)).HeedsBy ok (felling n) w := by
  obtain ⟨x, hx⟩ := Option.isSome_iff_exists.1 hs
  have hrule : ((felling n).guarded ok).expandWithin 1 s w = (felling n).expandWithin 1 s w := by
    simp only [Grammar.expandWithin, hx]
    refine Prog.exec_guarded_perform destroy rfl fun _ v hv => ?_
    obtain rfl : v = (World.destroy n).after w := (Act.after_ok hv).symm
    exact Prog.exec_guarded_perform draw rfl fun _ _ _ => rfl
  exact Prog.exec_guarded_perform expand hrule fun _ _ _ => rfl

/-- the symbol destroys the other root and draws: from the source of its own root, and not from the ambient one -/
theorem draws_at_home :
    let v := ((Prog.act (.expand 2)).run (felling 2)).after branched
    branched.liveNodes = [1, 2, 3] ∧ v.liveNodes = [1, 3] ∧ branched.Founds 0 1 ∧ branched.Descends 2 1 ∧
      v.sources.map (·.draws) = #[0, 1] ∧ v.sources[branched.ambient]? = branched.sources[branched.ambient]? := by
  intro v
  have h := reachable_branched.draws_at_root
  obtain ⟨x, hx⟩ : ∃ x, branched.sources[branched.ambient]? = some x :=
    Option.isSome_iff_exists.1 (by decide +kernel)
  refine ⟨by decide +kernel, by decide +kernel, founds_branched, ?_, by decide +kernel, ?_⟩
  · exact (h.2.1 2 0 1 founds_branched).1 (by decide +kernel)
  · rw [hx]
    exact h.2.2.2.2 _ _ _ 0 1 branched.ambient x founds_branched hx
      (felling_heeds (by decide +kernel) (by decide +kernel) (by decide +kernel) (by decide +kernel))

/-- a test: draws are made by symbols with the key `r`, whether their start symbol lives or not, and no source is started
anew -/
def drawsBy (r : NodeId) (w : World α κ σ) : Op α κ σ → Bool
  | .randomInt s _ _ => w.rootKeyAt s == some r
  | .randomFraction s => w.rootKeyAt s == some r
  | .reseed .. => false
  | _ => true

/-- **Draws astray.** A symbol lives, and its start symbol names a source; its rule draws by itself alone, and yet from the
ambient source, since it destroys its start symbol first. -/
theorem draws_astray :
    ∃ (w : World Float (City.Kind Float) Unit) (g : Grammar Float (City.Kind Float) Unit) (R s : ShapeId) (r : NodeId),
      Reachable w ∧ w.Founds R r ∧ w.Descends s r ∧ w.shapeAlive s = true ∧ w.sourceAt R ≠ w.ambient ∧
      (Prog.act (.expand s)).HeedsBy (fun v o => v.permits o && drawsBy r v o) g w ∧
      (((Prog.act (.expand s)).run g).after w).sources[w.ambient]? ≠ w.sources[w.ambient]? := by
  have h := reachable_branched
  have hd : branched.Descends 2 1 := (h.inheritsKeys.key_iff h.owned h.sound founds_branched).1 (by decide +kernel)
  refine ⟨branched, felling 1, 0, 2, 1, h, founds_branched, hd, by decide +kernel, by decide +kernel, ?_, fun hsame => ?_⟩
  · exact felling_heeds (by decide +kernel) (by decide +kernel) (by decide +kernel) (by decide +kernel)
  · have hdraws := congrArg (Option.map (·.draws)) hsame
    revert hdraws
    decide +kernel

end SceneGrammar

/-
What comes into a world beside what is there.

A shape's badge is what stays with it through all its life in a grammar: its place, its key and what is attached to it.
`Grown w v`: nothing that was alive in `w` has died, and no shape of `w` has another badge. Symbols and terminals come so
(`Placed`, `spawn_grown`).
-/
import SceneGrammar.Proofs.Runs

namespace SceneGrammar.World

variable {α κ σ : Type}

/-- where a shape stands, its key, and what is attached to it -/
def badge (w : World α κ σ) (s : ShapeId) : Option (Option NodeId × Option NodeId × List (Component α)) :=
  (w.shape? s).map fun x => (x.node, x.rootKey, x.components)

/-- nothing has died, and no shape has another badge -/
structure Grown (w v : World α κ σ) : Prop where
  alive : ∀ n, w.isAlive n = true → v.isAlive n = true
  badge : ∀ s < w.shapes.size, v.badge s = w.badge s
  size : w.shapes.size ≤ v.shapes.size

section

variable {w v u : World α κ σ}

theorem homeOf_of_badge {s t : ShapeId} (h : v.badge s = w.badge t) : v.homeOf s = w.homeOf t := by
  have hhome (u : World α κ σ) (r : ShapeId) : u.homeOf r = (u.badge r).bind (·.1) := by
    rw [homeOf, badge, Option.bind_map]
    rfl
  rw [hhome, h, ← hhome]

theorem rootKeyAt_of_badge {s t : ShapeId} (h : v.badge s = w.badge t) : v.rootKeyAt s = w.rootKeyAt t := by
  have hkey (u : World α κ σ) (r : ShapeId) : u.rootKeyAt r = (u.badge r).bind (·.2.1) := by
    rw [rootKeyAt, badge, Option.bind_map]
    rfl
  rw [hkey, h, ← hkey]

theorem componentsOf_of_badge {s t : ShapeId} (h : v.badge s = w.badge t) : v.componentsOf s = w.componentsOf t := by
  have hcs (u : World α κ σ) (r : ShapeId) : u.componentsOf r = ((u.badge r).map (·.2.2)).getD [] := by
    rw [componentsOf, badge, Option.map_map]
    rfl
  rw [hcs, h, ← hcs]

theorem badge_modifyShape {f : Shape α κ → Shape α κ} (hn : ∀ x, (f x).node = x.node)
    (hr : ∀ x, (f x).rootKey = x.rootKey) (hc : ∀ x, (f x).components = x.components) (w : World α κ σ)
    (s t : ShapeId) : (w.modifyShape s f).badge t = w.badge t := by
  rw [badge, shape?_modifyShape, badge]
  split_ifs
  · cases w.shape? t <;> simp [hn, hr, hc]
  · rfl

theorem badge_track (w : World α κ σ) (s t : ShapeId) (n : NodeId) : (w.track s n).badge t = w.badge t :=
  badge_modifyShape (f := fun x => { x with generated := some (x.generated.getD [] ++ [n]) }) (fun _ => rfl)
    (fun _ => rfl) (fun _ => rfl) w s t

theorem badge_take (w : World α κ σ) (creator t : ShapeId) (first : NodeId) (count : Nat) :
    (w.take creator first count).badge t = w.badge t := badge_track (w.note (.made creator first count)) creator t first

theorem Torn.badge {d : List NodeId} {c : List ShapeId} (h : Torn w v d c) (s : ShapeId) : v.badge s = w.badge s := by
  rw [World.badge, h.shape, World.badge, Option.map_map]
  refine congrArg (Option.map · (w.shape? s)) (funext fun x => ?_)
  by_cases hs : s ∈ c <;> simp [hs]

theorem Grown.refl (w : World α κ σ) : Grown w w := ⟨fun _ => id, fun _ _ => rfl, le_rfl⟩

theorem Grown.trans (h : Grown w v) (i : Grown v u) : Grown w u where
  alive n hn := i.alive n (h.alive n hn)
  badge s hs := (i.badge s (hs.trans_le h.size)).trans (h.badge s hs)
  size := h.size.trans i.size

/-- the nodes are the same, and so are the badges -/
theorem Grown.of_nodes (hnodes : v.nodes = w.nodes) (hsize : v.shapes.size = w.shapes.size)
    (hbadge : ∀ s, v.badge s = w.badge s) : Grown w v where
  alive n hn := by rwa [isAlive, node?_congr hnodes]
  badge s _ := hbadge s
  size := hsize.ge

theorem Grown.shapeAlive (h : Grown w v) {s : ShapeId} (hs : w.shapeAlive s = true) : v.shapeAlive s = true := by
  obtain ⟨n, hn, hl⟩ := shapeAlive_iff.1 hs
  exact shapeAlive_iff.2 ⟨n, (homeOf_of_badge (h.badge s (lt_size_of_homeOf hn))).trans hn, h.alive n hl⟩

theorem grown_markExpanded (w : World α κ σ) (s : ShapeId) : Grown w (w.markExpanded s) :=
  .of_nodes rfl (by simp [markExpanded, note, modifyShape])
    (badge_modifyShape (f := fun x => { x with state := .expanded }) (fun _ => rfl) (fun _ => rfl) (fun _ => rfl) w s)

theorem grown_note (w : World α κ σ) (e : Entry) : Grown w (w.note e) := .of_nodes rfl rfl fun _ => rfl

/-! ## Symbols -/

variable [SymbolKind κ]

/-- `s` is a new symbol of `creator`, and nothing else is new -/
structure Placed (w v : World α κ σ) (creator s : ShapeId) : Prop extends Grown w v where
  last : s = w.shapes.size ∧ v.shapes.size = w.shapes.size + 1
  newborn : v.shapeAlive s = true
  key : ∀ own, w.homeOf creator = some own → v.rootKeyAt s = some ((w.rootKeyAt creator).getD own)

theorem placeSymbol_placed {creator s : ShapeId} {offer : KindOffer κ} {name : String} {parent : Option NodeId}
    {pose : Pose α} (hc : w.shapeAlive creator = true) (hk : w.knows parent = true)
    (h : placeSymbol creator offer name parent pose w = .ok s v) : Placed w v creator s := by
  rcases placeSymbol_cases creator offer name parent pose w with ⟨e, hr⟩ | ⟨own, key, kind, ho, hkey, -, hp, hr⟩
  · rw [h] at hr
    cases hr
  rw [h] at hr
  obtain ⟨rfl, rfl⟩ : s = w.shapes.size ∧ v = _ := by
    injection hr with hs hv
    exact ⟨hs, hv⟩
  obtain ⟨n, hn, hl⟩ := shapeAlive_iff.1 hc
  obtain rfl : own = n := Option.some.inj (ho.symm.trans hn)
  have a := adds_seat w kind name (some (parent.getD own)) pose (some key) (parent_alive_of_knows hl hk hp)
  have e := sameScene_take (w.seat kind name (some (parent.getD own)) pose (some key)) creator w.nextId 1
  have halive (n : NodeId) (hn : n = w.nextId ∨ w.isAlive n = true) :=
    (e.isAlive n).trans ((a.isAlive n).2 hn)
  refine ⟨⟨fun n hn => halive n (Or.inr hn), fun t ht => ?_, ?_⟩, ⟨rfl, ?_⟩, ?_, fun own' ho' => ?_⟩
  · rw [badge_take, badge, shape?_seat, if_neg ht.ne, badge]
  · rw [e.size, size_seat]
    exact Nat.le_succ _
  · rw [e.size, size_seat]
  · refine shapeAlive_iff.2 ⟨w.nextId, ?_, halive _ (Or.inl rfl)⟩
    rw [e.home, homeOf_seat, if_pos rfl]
  · obtain rfl : own = own' := Option.some.inj (ho.symm.trans ho')
    rw [e.rootKey, rootKeyAt_seat, if_pos rfl]
    exact congrArg some (Except.ok.inj (hkey.symm.trans (rootKeyOf_eq ho)))

theorem placeSymbol_grown {creator : ShapeId} {parent : Option NodeId} (hc : w.shapeAlive creator = true)
    (hk : w.knows parent = true) (offer : KindOffer κ) (name : String) (pose : Pose α) :
    Grown w ((placeSymbol creator offer name parent pose).after w) := by
  cases h : placeSymbol creator offer name parent pose w with
  | ok s v =>
    rw [Act.after_ok h]
    exact (placeSymbol_placed hc hk h).toGrown
  | error e v =>
    rcases placeSymbol_cases creator offer name parent pose w with ⟨f, hr⟩ | ⟨_, _, _, _, _, _, _, hr⟩
    · rw [Act.after_error hr]
      exact .refl w
    · rw [h] at hr
      cases hr

/-! ## Terminals -/

theorem spawn_grown [Scalar α] {creator : ShapeId} {parent : Option NodeId} (hc : w.shapeAlive creator = true)
    (hk : w.knows parent = true) (template : TemplateRef α) (pose : Pose α) :
    Grown w ((spawn creator template parent pose).after w) ∧
      ((spawn creator template parent pose).after w).shapes.size = w.shapes.size := by
  rcases spawn_cases creator template parent pose w with ⟨e, hr⟩ | ⟨own, t, ho, -, hp, hr⟩
  · rw [Act.after_error hr]
    exact ⟨.refl w, rfl⟩
  · rw [Act.after_ok hr]
    obtain ⟨n, hn, hl⟩ := shapeAlive_iff.1 hc
    obtain rfl : own = n := Option.some.inj (ho.symm.trans hn)
    have hplant := planted_plant t w (some (parent.getD own)) pose (parent_alive_of_knows hl hk hp)
    have hrest := hplant.rest
    have e := sameScene_take (w.plant t (some (parent.getD own)) pose) creator w.nextId t.size
    have hbadge (s : ShapeId) : ((w.plant t (some (parent.getD own)) pose).take creator w.nextId t.size).badge s =
        w.badge s := by
      rw [badge_take, hrest]
      rfl
    have hsize : ((w.plant t (some (parent.getD own)) pose).take creator w.nextId t.size).shapes.size =
        w.shapes.size := by
      rw [e.size, hrest]
    exact ⟨⟨fun n hn => (e.isAlive n).trans (hplant.kept n hn), fun s _ => hbadge s, hsize.ge⟩, hsize⟩

end

end SceneGrammar.World

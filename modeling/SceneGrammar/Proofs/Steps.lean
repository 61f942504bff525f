/-
The steps that all operations are made of.

`Step w v` is one indivisible change: a node comes, a symbol comes, nodes are entered as made by a shape, a node comes on
a list, nodes die, the agenda changes, or something else does. `Sound` worlds stay sound (`Steps.sound`), and ids are
never given out twice (`Steps.later`). A copy of a template is a node for each part (`plant_spec`).
-/
import SceneGrammar.Proofs.Sound

namespace SceneGrammar

variable {α κ σ : Type}

/-- a template has its own node at least -/
theorem Template.size_pos (t : Template α) : 0 < t.size := by cases t; simp [Template.size]

namespace World

/-- what the journal says of nodes made: by which shape, from which id on, how many -/
def makings (w : World α κ σ) : List (ShapeId × NodeId × Nat) :=
  w.journal.toList.filterMap fun
    | .made s n k => some (s, n, k)
    | _ => none

/-- the journal and the list of a shape after it has made nodes -/
def take (w : World α κ σ) (creator : ShapeId) (first : NodeId) (count : Nat) : World α κ σ :=
  (w.note (.made creator first count)).track creator first

/-- one indivisible change -/
inductive Step : World α κ σ → World α κ σ → Prop where
  /-- something apart from scene, lists and appointments -/
  | aside {w v : World α κ σ} : SameScene w v → (∀ s, v.generatedBy s = w.generatedBy s) → v.agenda = w.agenda →
      v.makings = w.makings → Step w v
  | agenda {w : World α κ σ} {a : Agenda α} : a.Sound →
      (∀ e ∈ a.heap, e.cancelled = false → (e.node, e.shape) ∈ w.bound) → Step w { w with agenda := a }
  | node {w : World α κ σ} (name : String) (kind : NodeKind) (parent : Option NodeId) (pose : Pose α)
      (template : Option String) : (∀ p, parent = some p → w.isAlive p = true) →
      Step w (w.addNode name kind parent pose template)
  | root {w : World α κ σ} (kind : κ) (name : String) (parent : Option NodeId) (pose : Pose α) :
      (∀ p, parent = some p → w.isAlive p = true) → Step w (w.seat kind name parent pose none)
  /-- a symbol that another one makes, under the same start symbol -/
  | symbol {w : World α κ σ} {creator : ShapeId} {own : NodeId} (kind : κ) (name : String) (parent : Option NodeId)
      (pose : Pose α) : w.homeOf creator = some own → w.isAlive own = true →
      (∀ p, parent = some p → w.isAlive p = true) →
      Step w ((w.seat kind name parent pose (some ((w.rootKeyAt creator).getD own))).take creator w.nextId 1)
  /-- nodes already there are entered as made; they carry no shapes, and all but the first hang under one another -/
  | take {w : World α κ σ} {creator : ShapeId} {own first : NodeId} {count : Nat} : w.homeOf creator = some own →
      w.isAlive own = true → own < first → w.isAlive first = true → first + count = w.nextId →
      (∀ m, first ≤ m → m ≤ w.nodes.size → w.shapeOn? m = none) →
      (∀ m, first < m → m ≤ w.nodes.size → ∃ p, w.parentOf m = some p ∧ first ≤ p) →
      Step w (w.take creator first count)
  | track {w : World α κ σ} {s : ShapeId} {g : NodeId} : g ≤ w.nodes.size →
      (∀ n, w.homeOf s = some n → n < g) → Step w (w.track s g)
  | kills {w v : World α κ σ} {dead : List NodeId} {cleaned : List ShapeId} : Kills w v dead cleaned → Step w v

/-- one step after another -/
abbrev Steps : World α κ σ → World α κ σ → Prop := Relation.ReflTransGen Step

/-! ## Sound worlds stay sound -/

section

variable {w v : World α κ σ}

theorem sameScene_note (w : World α κ σ) (e : Entry) : SameScene w (w.note e) :=
  ⟨rfl, rfl, rfl, rfl, rfl, fun _ => rfl, fun _ => rfl, rfl⟩

theorem Sound.note (h : Sound w) (e : Entry) : Sound (w.note e) :=
  h.sameScene (sameScene_note w e) (fun _ _ => Or.inl) h.agenda_sound h.planned

theorem sameScene_take (w : World α κ σ) (creator : ShapeId) (first : NodeId) (count : Nat) :
    SameScene w (w.take creator first count) := by
  have h := sameScene_note w (.made creator first count)
  have i := sameScene_track (w.note (.made creator first count)) creator first
  exact ⟨i.nodes, i.registry, i.created, i.destroyed, i.size.trans h.size, i.home, i.rootKey, i.bound⟩

theorem Sound.take (h : Sound w) {creator : ShapeId} {first : NodeId} (hk : first ≤ w.nodes.size)
    (hn : ∀ n, w.homeOf creator = some n → n < first) (count : Nat) : Sound (w.take creator first count) :=
  (h.note _).track hk hn

theorem Step.sound (h : Sound w) (s : Step w v) : Sound v := by
  cases s with
  | aside e hg ha _ =>
    refine h.sameScene e (fun s g hgs => Or.inl (hg s ▸ hgs)) (ha ▸ h.agenda_sound) ?_
    rw [ha]
    exact h.planned
  | agenda ha hp => exact h.agenda ha hp
  | node name kind parent pose template hp => exact h.addNode name kind parent pose template hp
  | root kind name parent pose hp => exact h.seat kind name parent pose none hp (by simp)
  | symbol kind name parent pose ho hl hp =>
    rename_i creator own
    have a := adds_seat w kind name parent pose (some ((w.rootKeyAt creator).getD own)) hp
    have hkey : ∀ k, some ((w.rootKeyAt creator).getD own) = some k → k ≤ w.nextId := by
      rintro k ⟨⟩
      exact (h.key_getD_le ho).trans ((le_size_of_isAlive hl).trans (Nat.le_succ _))
    refine (h.seat kind name parent pose _ hp hkey).take a.size.ge (fun n hn => ?_) 1
    rw [homeOf_seat, if_neg (lt_size_of_homeOf ho).ne, ho, Option.some.injEq] at hn
    exact hn ▸ Nat.lt_succ_of_le (le_size_of_isAlive hl)
  | take ho hl hlt hf _ _ _ =>
    refine h.take (le_size_of_isAlive hf) (fun n hn => ?_) _
    rw [ho, Option.some.injEq] at hn
    exact hn ▸ hlt
  | track hk hn => exact h.track hk hn
  | kills k => exact h.kills k

theorem Steps.sound (h : Sound w) (s : Steps w v) : Sound v := by
  induction s with
  | refl => exact h
  | tail _ hs ih => exact hs.sound ih

end

/-! ## Ids are not given out twice -/

/-- `v` comes after `w`: its nodes keep their ids and stay dead if they were, and new ones have new ids -/
structure Later (w v : World α κ σ) : Prop where
  size : w.nodes.size ≤ v.nodes.size
  kept : ∀ n x, w.node? n = some x → ∃ y, v.node? n = some y ∧ y.name = x.name ∧ y.template = x.template ∧
    (y.alive = true → x.alive = true)
  shapes : w.shapes.size ≤ v.shapes.size
  homes : ∀ s n, w.homeOf s = some n → v.homeOf s = some n

section

variable {w v u : World α κ σ}

theorem Later.refl (w : World α κ σ) : Later w w :=
  ⟨le_rfl, fun _ x hx => ⟨x, hx, rfl, rfl, id⟩, le_rfl, fun _ _ => id⟩

theorem Later.trans (h : Later w v) (i : Later v u) : Later w u where
  size := h.size.trans i.size
  kept := by
    intro n x hx
    obtain ⟨y, hy, hname, htemplate, halive⟩ := h.kept n x hx
    obtain ⟨z, hz, hname', htemplate', halive'⟩ := i.kept n y hy
    exact ⟨z, hz, hname'.trans hname, htemplate'.trans htemplate, halive ∘ halive'⟩
  shapes := h.shapes.trans i.shapes
  homes := fun s n hn => i.homes s n (h.homes s n hn)

theorem SameScene.later (e : SameScene w v) : Later w v where
  size := e.nodes ▸ le_rfl
  kept n x hx := ⟨x, (node?_congr e.nodes n).trans hx, rfl, rfl, id⟩
  shapes := e.size.ge
  homes s _ hn := (e.home s).trans hn

theorem Adds.kept {x : Node α} (a : Adds w v x) (n : NodeId) (y : Node α) (hy : w.node? n = some y) :
    ∃ z, v.node? n = some z ∧ z.name = y.name ∧ z.template = y.template ∧ (z.alive = true → y.alive = true) := by
  have hn := a.node n
  rw [if_neg (nextId_ne (le_size_of_node? hy).2), hy] at hn
  exact ⟨_, hn, rfl, rfl, id⟩

theorem later_seat (kind : κ) (name : String) (parent : Option NodeId) (pose : Pose α) (rootKey : Option NodeId)
    (hp : ∀ p, parent = some p → w.isAlive p = true) : Later w (w.seat kind name parent pose rootKey) := by
  have a := adds_seat w kind name parent pose rootKey hp
  refine ⟨a.size ▸ Nat.le_succ _, a.kept, ?_, fun s n hn => ?_⟩
  · rw [size_seat]
    exact Nat.le_succ _
  · rw [homeOf_seat, if_neg (lt_size_of_homeOf hn).ne]
    exact hn

theorem later_take (w : World α κ σ) (creator : ShapeId) (first : NodeId) (count : Nat) :
    Later w (w.take creator first count) :=
  (sameScene_note w _).later.trans (sameScene_track _ creator first).later

theorem Step.later (s : Step w v) : Later w v := by
  cases s with
  | aside e _ _ _ => exact e.later
  | agenda _ _ => exact ⟨le_rfl, fun _ x hx => ⟨x, hx, rfl, rfl, id⟩, le_rfl, fun _ _ => id⟩
  | node name kind parent pose template hp =>
    have a := adds_addNode w name kind parent pose template hp
    refine ⟨a.size ▸ Nat.le_succ _, a.kept, ?_, fun s n hn => ?_⟩
    · rw [addNode_shapes]
    · rw [homeOf_addNode]
      exact hn
  | root kind name parent pose hp => exact later_seat kind name parent pose none hp
  | symbol kind name parent pose _ _ hp =>
    exact (later_seat kind name parent pose _ hp).trans (later_take _ _ _ _)
  | take _ _ _ _ _ _ _ => exact later_take w _ _ _
  | track _ _ => exact (sameScene_track w _ _).later
  | kills k =>
    have t := k.torn
    refine ⟨t.sizes.1.ge, fun n x hx => ?_, t.sizes.2.ge, fun s n hn => (t.homeOf s).trans hn⟩
    refine ⟨_, (t.node n).trans (congrArg _ hx), rfl, rfl, fun hl => ?_⟩
    simp only at hl
    split_ifs at hl
    exact hl

theorem Steps.later (s : Steps w v) : Later w v := by
  induction s with
  | refl => exact Later.refl w
  | tail _ hs ih => exact ih.trans hs.later

end

/-! ## Copies of templates -/

/-- `v` is `w` with `count` living nodes more, which hang under `parent` or under one another -/
structure Planted (w v : World α κ σ) (parent : Option NodeId) (count : Nat) : Prop where
  steps : Steps w v
  size : v.nodes.size = w.nodes.size + count
  kept : ∀ m, w.isAlive m = true → v.isAlive m = true
  links : ∀ m ≤ w.nodes.size, v.parentOf m = w.parentOf m ∧ v.shapeOn? m = w.shapeOn? m
  bare : ∀ m, w.nodes.size < m → m ≤ v.nodes.size → v.shapeOn? m = none
  alive : ∀ m, w.nodes.size < m → m ≤ v.nodes.size → v.isAlive m = true
  hangs : ∀ m, w.nodes.size < m → m ≤ v.nodes.size →
    v.parentOf m = parent ∨ ∃ p, v.parentOf m = some p ∧ w.nodes.size < p
  rest : v = { w with nodes := v.nodes, registry := v.registry, created := v.created }

section

variable {w v u : World α κ σ} {parent : Option NodeId}

theorem Planted.refl (w : World α κ σ) (parent : Option NodeId) : Planted w w parent 0 where
  steps := Relation.ReflTransGen.refl
  size := rfl
  kept := fun _ => id
  links := fun _ _ => ⟨rfl, rfl⟩
  bare := fun _ hlt hle => absurd hlt (not_lt.2 hle)
  alive := fun _ hlt hle => absurd hlt (not_lt.2 hle)
  hangs := fun _ hlt hle => absurd hlt (not_lt.2 hle)
  rest := rfl

theorem planted_addNode (name : String) (kind : NodeKind) (pose : Pose α) (template : Option String)
    (hp : ∀ p, parent = some p → w.isAlive p = true) :
    Planted w (w.addNode name kind parent pose template) parent 1 := by
  have a := adds_addNode w name kind parent pose template hp
  have hnew (m : NodeId) (hlt : w.nodes.size < m) (hle : m ≤ (w.addNode name kind parent pose template).nodes.size) :
      m = w.nextId := le_antisymm (hle.trans_eq a.size) hlt
  refine ⟨.single (.node name kind parent pose template hp), a.size, fun m hm => (a.isAlive m).2 (Or.inr hm),
    fun m hm => ?_, fun m hlt hle => ?_, fun m hlt hle => (a.isAlive m).2 (Or.inl (hnew m hlt hle)),
    fun m hlt hle => Or.inl ?_, ?_⟩
  · rw [a.parentOf, a.shapeOn?, if_neg (nextId_ne hm), if_neg (nextId_ne hm)]
    exact ⟨rfl, rfl⟩
  · rw [a.shapeOn?, if_pos (hnew m hlt hle)]
  · rw [a.parentOf, if_pos (hnew m hlt hle)]
  · rw [addNode_eq]

/-- first some nodes come, then others under one of the first or under the same parent -/
theorem Planted.trans {parent' : Option NodeId} {k l : Nat} (h : Planted w v parent k) (i : Planted v u parent' l)
    (hp : parent' = parent ∨ ∃ p, parent' = some p ∧ w.nodes.size < p) : Planted w u parent (k + l) where
  steps := h.steps.trans i.steps
  size := by rw [i.size, h.size, Nat.add_assoc]
  kept m hm := i.kept m (h.kept m hm)
  links m hm := by
    have hi := i.links m (h.size ▸ Nat.le_add_right_of_le hm)
    exact ⟨hi.1.trans (h.links m hm).1, hi.2.trans (h.links m hm).2⟩
  bare m hlt hle := by
    by_cases hm : m ≤ v.nodes.size
    · rw [(i.links m hm).2]
      exact h.bare m hlt hm
    · exact i.bare m (not_le.1 hm) hle
  alive m hlt hle := by
    by_cases hm : m ≤ v.nodes.size
    · exact i.kept m (h.alive m hlt hm)
    · exact i.alive m (not_le.1 hm) hle
  hangs m hlt hle := by
    by_cases hm : m ≤ v.nodes.size
    · rw [(i.links m hm).1]
      exact h.hangs m hlt hm
    · rcases i.hangs m (not_le.1 hm) hle with hpar | ⟨p, hpar, hlt'⟩
      · rcases hp with rfl | ⟨p, rfl, hlt'⟩
        · exact Or.inl hpar
        · exact Or.inr ⟨p, hpar, hlt'⟩
      · exact Or.inr ⟨p, hpar, lt_of_le_of_lt (h.size ▸ Nat.le_add_right _ _) hlt'⟩
  rest := by
    rw [i.rest, h.rest]

end

section

variable [Scalar α]

mutual

/-- a copy of a template has a node for each part, the parts' nodes under the first or under one another -/
theorem plant_spec : ∀ (t : Template α) (w : World α κ σ) (parent : Option NodeId) (pose : Pose α),
    (∀ p, parent = some p → w.isAlive p = true) →
    ∃ u, Planted w u parent 1 ∧ Planted u (plant w t parent pose) (some w.nextId) (t.size - 1)
  | ⟨id, name, parts, offset, tags⟩, w, parent, pose, hp => by
    have h := planted_addNode (if name = "" then id else name) .terminal pose (some id) hp
    refine ⟨_, h, ?_⟩
    rw [plant, Template.size, Nat.add_sub_cancel]
    refine plantParts_spec parts _ w.nextId (h.alive w.nextId (Nat.lt_succ_self _) ?_)
    rw [h.size]
    exact le_rfl

theorem plantParts_spec : ∀ (ts : List (Template α)) (w : World α κ σ) (under : NodeId), w.isAlive under = true →
    Planted w (plantParts w ts under) (some under) (Template.sizeOfParts ts)
  | [], w, under, _ => by
    rw [plantParts, Template.sizeOfParts]
    exact Planted.refl w _
  | t :: ts, w, under, hl => by
    rw [plantParts, Template.sizeOfParts]
    obtain ⟨u, h, i⟩ := plant_spec t w (some under) (.displaced t.offset) (by simpa using hl)
    have hpos : 1 + (t.size - 1) = t.size := Nat.add_sub_of_le t.size_pos
    have ht := h.trans i (Or.inr ⟨_, rfl, Nat.lt_succ_self _⟩)
    rw [hpos] at ht
    exact ht.trans (plantParts_spec ts _ under (ht.kept under hl)) (Or.inl rfl)

end

theorem planted_plant (t : Template α) (w : World α κ σ) (parent : Option NodeId) (pose : Pose α)
    (hp : ∀ p, parent = some p → w.isAlive p = true) : Planted w (w.plant t parent pose) parent t.size := by
  obtain ⟨u, h, i⟩ := plant_spec t w parent pose hp
  have hsize : 1 + (t.size - 1) = t.size := Nat.add_sub_of_le t.size_pos
  rw [← hsize]
  exact h.trans i (Or.inr ⟨_, rfl, Nat.lt_succ_self _⟩)

/-- all nodes of a copy but its own hang under one another -/
theorem plant_inside (t : Template α) (w : World α κ σ) (parent : Option NodeId) (pose : Pose α)
    (hp : ∀ p, parent = some p → w.isAlive p = true) (m : NodeId) (hlt : w.nextId < m)
    (hle : m ≤ (w.plant t parent pose).nodes.size) :
    ∃ p, (w.plant t parent pose).parentOf m = some p ∧ w.nextId ≤ p := by
  obtain ⟨u, h, i⟩ := plant_spec t w parent pose hp
  rcases i.hangs m (h.size ▸ hlt) hle with hm | ⟨p, hm, hlt'⟩
  · exact ⟨w.nextId, hm, le_rfl⟩
  · exact ⟨p, hm, h.size.ge.trans hlt'.le⟩

end

end World

end SceneGrammar

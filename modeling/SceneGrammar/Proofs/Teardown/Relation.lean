/-
What a teardown does to a world.

`Torn w v dead cleaned`: `v` is `w` after the nodes `dead` have died, in this order, and the lists of the shapes
`cleaned` have been emptied. The two worlds differ in nothing else, warnings apart.

`Kills w v dead cleaned` adds what every teardown keeps to: the dead were alive, none dies twice, whatever a node leads
to (`successors`: its children, then what its shape has generated) dies before it does, and nothing that lives stays on
an emptied list. Teardowns compose (`Kills.trans`); `Tame` worlds, where children and generated nodes are younger than
what they belong to, stay tame (`Kills.tame`).
-/
import SceneGrammar.Proofs.Lookup
import SceneGrammar.World.Walk

namespace SceneGrammar.World

variable {α κ σ : Type}

/-- the agenda after the end of some nodes -/
def cancelAll (w : World α κ σ) (dead : List NodeId) (a : Agenda α) : Agenda α :=
  dead.foldl (fun a n => if (w.shapeOn? n).isSome then (a.cancel n).2 else a) a

/-- `v` is `w` after the end of the nodes `dead` and the emptying of the lists of `cleaned` -/
structure Torn (w v : World α κ σ) (dead : List NodeId) (cleaned : List ShapeId) : Prop where
  node : ∀ m, v.node? m = (w.node? m).map fun x =>
    { x with
      parent := if m ∈ dead then none else x.parent
      children := x.children.filter (· ∉ dead)
      alive := if m ∈ dead then false else x.alive }
  shape : ∀ s, v.shape? s = (w.shape? s).map fun x =>
    if s ∈ cleaned then { x with generated := some [], state := .cleared } else x
  registry : v.registry = w.registry.filter (· ∉ dead)
  destroyed : v.destroyed = w.destroyed + dead.length
  bound : v.bound = w.bound.filter fun p => ¬ (p.1 ∈ dead ∧ (w.shapeOn? p.1).isSome)
  agenda : v.agenda = w.cancelAll dead w.agenda
  journal : v.journal.toList = w.journal.toList ++ dead.map Entry.announced
  sizes : v.nodes.size = w.nodes.size ∧ v.shapes.size = w.shapes.size
  created : v.created = w.created
  surroundings : v.surroundings = w.surroundings

/-! ## What is looked up after a teardown -/

section

variable {w v : World α κ σ} {dead : List NodeId} {cleaned : List ShapeId}

theorem Torn.isAlive (t : Torn w v dead cleaned) (m : NodeId) :
    v.isAlive m = true ↔ w.isAlive m = true ∧ m ∉ dead := by
  unfold World.isAlive
  rw [t.node]
  by_cases hm : m ∈ dead
  · cases w.node? m <;> simp [hm]
  · cases w.node? m <;> simp [hm]

theorem Torn.children (t : Torn w v dead cleaned) (m : NodeId) :
    v.children m = (w.children m).filter (· ∉ dead) := by
  unfold World.children
  rw [t.node]
  cases w.node? m <;> rfl

theorem Torn.parentOf (t : Torn w v dead cleaned) (m : NodeId) :
    v.parentOf m = if m ∈ dead then none else w.parentOf m := by
  unfold World.parentOf
  rw [t.node]
  cases w.node? m <;> simp

theorem Torn.shapeOn? (t : Torn w v dead cleaned) (m : NodeId) : v.shapeOn? m = w.shapeOn? m := by
  unfold World.shapeOn?
  rw [t.node]
  cases w.node? m <;> rfl

theorem Torn.homeOf (t : Torn w v dead cleaned) (s : ShapeId) : v.homeOf s = w.homeOf s := by
  unfold World.homeOf
  rw [t.shape]
  cases w.shape? s with
  | none => rfl
  | some x => by_cases hs : s ∈ cleaned <;> simp [hs]

theorem Torn.rootKeyAt (t : Torn w v dead cleaned) (s : ShapeId) : v.rootKeyAt s = w.rootKeyAt s := by
  unfold World.rootKeyAt
  rw [t.shape]
  cases w.shape? s with
  | none => rfl
  | some x => by_cases hs : s ∈ cleaned <;> simp [hs]

theorem Torn.generatedBy (t : Torn w v dead cleaned) (s : ShapeId) :
    v.generatedBy s = if s ∈ cleaned then [] else w.generatedBy s := by
  unfold World.generatedBy
  rw [t.shape]
  cases w.shape? s with
  | none => simp
  | some x => by_cases hs : s ∈ cleaned <;> simp [hs]

end

/-- what the shape on a node has generated -/
theorem generatedAt_eq (w : World α κ σ) (m : NodeId) :
    w.generatedAt m = (w.shapeOn? m).elim [] w.generatedBy := by
  unfold generatedAt generatedBy
  cases w.shapeOn? m <;> rfl

theorem mem_successors {w : World α κ σ} {a b : NodeId} :
    b ∈ w.successors a ↔ b ∈ w.children a ∨ ∃ s, w.shapeOn? a = some s ∧ b ∈ w.generatedBy s := by
  rw [successors, List.mem_append, generatedAt_eq]
  cases w.shapeOn? a <;> simp

theorem Torn.refl (w : World α κ σ) : Torn w w [] [] where
  node m := by cases w.node? m <;> simp
  shape s := by cases w.shape? s <;> simp
  registry := by simp
  destroyed := rfl
  bound := by simp
  agenda := rfl
  journal := by simp
  sizes := ⟨rfl, rfl⟩
  created := rfl
  surroundings := rfl

theorem filter_notMem_append (l d e : List NodeId) :
    (l.filter (· ∉ d)).filter (· ∉ e) = l.filter (· ∉ d ++ e) := by
  rw [List.filter_filter]
  refine List.filter_congr fun m _ => ?_
  by_cases hd : m ∈ d <;> by_cases he : m ∈ e <;> simp [hd, he]

/-- nodes that end in two parts end as if all at once -/
theorem map_ends_append (x : Option (Node α)) (m : NodeId) (d e : List NodeId) :
    ((x.map fun x =>
        { x with
          parent := if m ∈ d then none else x.parent
          children := x.children.filter (· ∉ d)
          alive := if m ∈ d then false else x.alive }).map fun x =>
        { x with
          parent := if m ∈ e then none else x.parent
          children := x.children.filter (· ∉ e)
          alive := if m ∈ e then false else x.alive }) =
      x.map fun x =>
        { x with
          parent := if m ∈ d ++ e then none else x.parent
          children := x.children.filter (· ∉ d ++ e)
          alive := if m ∈ d ++ e then false else x.alive } := by
  cases x with
  | none => rfl
  | some x =>
    simp only [Option.map_some, filter_notMem_append, List.mem_append]
    by_cases hd : m ∈ d <;> by_cases he : m ∈ e <;> simp [hd, he]

/-- and their shapes are struck off as if all at once -/
theorem filter_unbound_append (w : World α κ σ) (l : List (NodeId × ShapeId)) (d e : List NodeId) :
    (l.filter fun p => ¬ (p.1 ∈ d ∧ (w.shapeOn? p.1).isSome)).filter (fun p => ¬ (p.1 ∈ e ∧ (w.shapeOn? p.1).isSome)) =
      l.filter fun p => ¬ (p.1 ∈ d ++ e ∧ (w.shapeOn? p.1).isSome) := by
  rw [List.filter_filter]
  refine List.filter_congr fun p _ => ?_
  simp only [List.mem_append]
  by_cases hd : p.1 ∈ d <;> by_cases he : p.1 ∈ e <;> simp [hd, he]

theorem Torn.trans {w v u : World α κ σ} {d e : List NodeId} {c k : List ShapeId} (h : Torn w v d c)
    (i : Torn v u e k) : Torn w u (d ++ e) (c ++ k) where
  node m := by rw [i.node, h.node, map_ends_append]
  shape s := by
    rw [i.shape, h.shape]
    cases w.shape? s with
    | none => rfl
    | some x => by_cases hc : s ∈ c <;> by_cases hk : s ∈ k <;> simp [hc, hk]
  registry := by rw [i.registry, h.registry, filter_notMem_append]
  destroyed := by rw [i.destroyed, h.destroyed, List.length_append]; omega
  bound := by
    rw [i.bound, h.bound, ← filter_unbound_append]
    simp only [h.shapeOn?]
  agenda := by
    rw [i.agenda, h.agenda]
    simp only [cancelAll, List.foldl_append, h.shapeOn?]
  journal := by rw [i.journal, h.journal]; simp
  sizes := ⟨i.sizes.1.trans h.sizes.1, i.sizes.2.trans h.sizes.2⟩
  created := i.created.trans h.created
  surroundings := i.surroundings.trans h.surroundings

/-! ## The parts of a teardown -/

theorem Torn.takeGenerated_markCleared {w v : World α κ σ} {s : ShapeId} {dead : List NodeId}
    {cleaned : List ShapeId} (h : Torn (w.takeGenerated s) v dead cleaned) :
    Torn w (v.markCleared s) dead (s :: cleaned) where
  node := h.node
  shape t := by
    have hv : (v.markCleared s).shape? t =
        if t = s then (v.shape? t).map fun x => { x with state := .cleared } else v.shape? t :=
      shape?_modifyShape v s t _
    rw [hv, h.shape]
    unfold takeGenerated
    rw [shape?_modifyShape]
    cases w.shape? t with
    | none => simp
    | some x =>
      by_cases ht : t = s
      · subst ht
        by_cases hc : t ∈ cleaned <;> simp [hc]
      · by_cases hc : t ∈ cleaned <;> simp [ht, hc]
  registry := h.registry
  destroyed := h.destroyed
  bound := h.bound
  agenda := h.agenda
  journal := h.journal
  sizes := by
    have := h.sizes
    simpa [markCleared, takeGenerated, modifyShape] using this
  created := h.created
  surroundings := h.surroundings

/-- a warning about a teardown is not told -/
theorem surroundings_warnCleanup (w : World α κ σ) (s : ShapeId) (n : NodeId) :
    (w.warnCleanup s n).surroundings = w.surroundings := by
  unfold warnCleanup
  cases w.node? n with
  | none => rfl
  | some x => simp [surroundings, told, warn]

theorem announce_eq (w : World α κ σ) (n : NodeId) :
    w.announce n = { w with
      bound := if (w.shapeOn? n).isSome then w.bound.filter fun p => p.1 != n else w.bound
      agenda := if (w.shapeOn? n).isSome then (w.agenda.cancel n).2 else w.agenda
      journal := w.journal.push (.announced n) } := by
  unfold announce retire
  cases w.shapeOn? n <;> rfl

/-- the end of one node -/
theorem Torn.bury {w : World α κ σ} {n : NodeId} (hr : w.registry.Nodup)
    (hc : ∀ p, n ∈ w.children p → w.parentOf n = some p) (hd : ∀ p, (w.children p).Nodup) :
    Torn w ((w.announce n).bury n) [n] [] := by
  have hnodes : (w.announce n).nodes = w.nodes := by rw [announce_eq]
  have heq : (w.announce n).bury n = { w.announce n with
      nodes := ((w.announce n).bury n).nodes, registry := w.registry.erase n, destroyed := w.destroyed + 1 } := by
    rw [bury_eq, announce_eq]
  have herase (l : List NodeId) (hl : l.Nodup) : l.erase n = l.filter (· ∉ [n]) := by
    rw [hl.erase_eq_filter]
    refine List.filter_congr fun k _ => ?_
    by_cases hk : k = n <;> simp [hk]
  constructor
  case node =>
    intro m
    have hp : World.parentOf (w.announce n) n = World.parentOf w n := by
      rw [World.parentOf, node?_congr hnodes, World.parentOf]
    rw [node?_bury, node?_congr hnodes, hp]
    cases hx : w.node? m with
    | none => rfl
    | some x =>
      have hcm : w.children m = x.children := by simp [World.children, hx]
      have hch : (if w.parentOf n = some m then x.children.erase n else x.children) =
          x.children.filter (· ∉ [n]) := by
        rw [← herase _ (hcm ▸ hd m)]
        split_ifs with h
        · rfl
        · rw [List.erase_of_not_mem fun hm => h (hc m (hcm ▸ hm))]
      simp [hch]
  case shape =>
    intro s
    rw [heq, announce_eq]
    cases hx : w.shape? s <;> simpa [shape?] using hx
  case registry => rw [heq]; exact herase _ hr
  case destroyed => rw [heq]; rfl
  case bound =>
    rw [heq, announce_eq]
    split_ifs with hs
    · refine List.filter_congr fun p _ => ?_
      by_cases hp : p.1 = n <;> simp [hp, hs]
    · refine (List.filter_eq_self.2 fun p _ => ?_).symm
      by_cases hp : p.1 = n <;> simp [hp, hs]
  case agenda => rw [heq, announce_eq]; rfl
  case journal => rw [heq, announce_eq]; simp
  case sizes => exact ⟨by rw [size_bury, hnodes], by rw [heq, announce_eq]⟩
  case created => rw [heq, announce_eq]
  case surroundings => rw [heq, announce_eq]; rfl

/-! ## Tame worlds -/

/-- a forest in which children and generated nodes are younger than what they belong to -/
structure Tame (w : World α κ σ) : Prop where
  mem_children : ∀ n p, n ∈ w.children p ↔ w.parentOf n = some p
  children_nodup : ∀ p, (w.children p).Nodup
  parent_alive : ∀ n p, w.parentOf n = some p → w.isAlive n = true ∧ w.isAlive p = true ∧ p < n
  home : ∀ n s, w.shapeOn? n = some s → w.homeOf s = some n
  newer : ∀ s n, w.homeOf s = some n → ∀ g ∈ w.generatedBy s, n < g
  registry_nodup : w.registry.Nodup

/-- the links of a scene: children and parents agree, and what hangs is alive, under something older that is, too -/
structure Linked (w : World α κ σ) : Prop where
  mem_children : ∀ n p, n ∈ w.children p ↔ w.parentOf n = some p
  children_nodup : ∀ p, (w.children p).Nodup
  parent_alive : ∀ n p, w.parentOf n = some p → w.isAlive n = true ∧ w.isAlive p = true ∧ p < n

theorem Tame.linked {w : World α κ σ} (h : Tame w) : Linked w := ⟨h.mem_children, h.children_nodup, h.parent_alive⟩

/-- links stay right where the children of the dead are dead -/
theorem Torn.linked {w v : World α κ σ} {dead : List NodeId} {cleaned : List ShapeId} (t : Torn w v dead cleaned)
    (h : Linked w) (hc : ∀ p ∈ dead, ∀ n ∈ w.children p, n ∈ dead) : Linked v where
  mem_children n p := by
    rw [t.children, t.parentOf, List.mem_filter, h.mem_children]
    by_cases hd : n ∈ dead <;> simp [hd]
  children_nodup p := by
    rw [t.children]
    exact (h.children_nodup p).filter _
  parent_alive n p hp := by
    rw [t.parentOf] at hp
    split_ifs at hp with hd
    obtain ⟨hn, ha, hlt⟩ := h.parent_alive n p hp
    exact ⟨(t.isAlive n).2 ⟨hn, hd⟩, (t.isAlive p).2 ⟨ha, fun hpd => hd (hc p hpd n ((h.mem_children n p).2 hp))⟩, hlt⟩

theorem Tame.lt_of_successor {w : World α κ σ} (h : Tame w) {a b : NodeId} (hb : b ∈ w.successors a) : a < b := by
  rcases mem_successors.1 hb with hc | ⟨s, hs, hg⟩
  · exact (h.parent_alive b a ((h.mem_children b a).1 hc)).2.2
  · exact h.newer s a (h.home a s hs) b hg

/-- a living node is reached from another through living ones -/
inductive Reach (w : World α κ σ) : NodeId → NodeId → Prop where
  | refl {n : NodeId} : w.isAlive n = true → Reach w n n
  | step {n m k : NodeId} : w.isAlive n = true → m ∈ w.successors n → Reach w m k → Reach w n k

theorem Reach.alive_left {w : World α κ σ} {n m : NodeId} (h : Reach w n m) : w.isAlive n = true := by
  cases h <;> assumption

theorem Reach.trans {w : World α κ σ} {n m k : NodeId} (h : Reach w n m) (i : Reach w m k) : Reach w n k := by
  induction h with
  | refl _ => exact i
  | step ha hs _ ih => exact Reach.step ha hs (ih i)

theorem Reach.le {w : World α κ σ} (t : Tame w) {n m : NodeId} (h : Reach w n m) : n ≤ m := by
  induction h with
  | refl _ => exact le_rfl
  | step _ hs _ ih => exact (t.lt_of_successor hs).le.trans ih

/-! ## Teardowns in order -/

/-- a teardown in which nothing dies twice or after what it leads to, and no living node stays on an emptied list -/
structure Kills (w v : World α κ σ) (dead : List NodeId) (cleaned : List ShapeId) : Prop where
  torn : Torn w v dead cleaned
  nodup : dead.Nodup
  alive : ∀ m ∈ dead, w.isAlive m = true
  first : ∀ pre m post, dead = pre ++ m :: post → ∀ b ∈ w.successors m, w.isAlive b = true → b ∈ pre
  spent : ∀ s ∈ cleaned, ∀ g ∈ w.generatedBy s, w.isAlive g = true → g ∈ dead

section

variable {w v u : World α κ σ} {dead d e : List NodeId} {cleaned c k : List ShapeId}

theorem Kills.closed (h : Kills w v dead cleaned) {a b : NodeId} (ha : a ∈ dead) (hb : b ∈ w.successors a)
    (hl : w.isAlive b = true) : b ∈ dead := by
  obtain ⟨pre, post, hd⟩ := List.append_of_mem ha
  rw [hd]
  exact List.mem_append_left _ (h.first pre a post hd b hb hl)

theorem Kills.closed_reach (h : Kills w v dead cleaned) {a b : NodeId} (ha : a ∈ dead) (hr : Reach w a b) :
    b ∈ dead := by
  induction hr with
  | refl _ => exact ha
  | step _ hs hr ih => exact ih (h.closed ha hs hr.alive_left)

/-- what survives still leads to what it led to, if that survives and no emptied list held it -/
theorem Torn.successor_kept (h : Torn w v dead cleaned)
    (spent : ∀ s ∈ cleaned, ∀ g ∈ w.generatedBy s, w.isAlive g = true → g ∈ dead) {a b : NodeId}
    (hb : b ∈ w.successors a) (hl : v.isAlive b = true) : b ∈ v.successors a := by
  obtain ⟨hw, hd⟩ := (h.isAlive b).1 hl
  rcases mem_successors.1 hb with hc | ⟨s, hs, hg⟩
  · refine mem_successors.2 (Or.inl ?_)
    rw [h.children, List.mem_filter]
    exact ⟨hc, by simpa using hd⟩
  · refine mem_successors.2 (Or.inr ⟨s, by rw [h.shapeOn?]; exact hs, ?_⟩)
    rw [h.generatedBy, if_neg fun hcl => hd (spent s hcl b hg hw)]
    exact hg

theorem Kills.successor_kept (h : Kills w v dead cleaned) {a b : NodeId} (hb : b ∈ w.successors a)
    (hl : v.isAlive b = true) : b ∈ v.successors a :=
  h.torn.successor_kept h.spent hb hl

theorem Torn.successor_of (h : Torn w v dead cleaned) {a b : NodeId} (hb : b ∈ v.successors a) :
    b ∈ w.successors a := by
  rcases mem_successors.1 hb with hc | ⟨s, hs, hg⟩
  · rw [h.children] at hc
    exact mem_successors.2 (Or.inl (List.mem_filter.1 hc).1)
  · rw [h.shapeOn?] at hs
    rw [h.generatedBy] at hg
    split_ifs at hg
    · exact absurd hg (by simp)
    · exact mem_successors.2 (Or.inr ⟨s, hs, hg⟩)

theorem Torn.reach_of (h : Torn w v dead cleaned) {a b : NodeId} (hr : Reach v a b) : Reach w a b := by
  induction hr with
  | refl ha => exact Reach.refl ((h.isAlive _).1 ha).1
  | step ha hs _ ih => exact Reach.step ((h.isAlive _).1 ha).1 (h.successor_of hs) ih

theorem Kills.refl (w : World α κ σ) : Kills w w [] [] := ⟨Torn.refl w, List.nodup_nil, by simp, by simp, by simp⟩

theorem Kills.trans (h : Kills w v d c) (i : Kills v u e k) : Kills w u (d ++ e) (c ++ k) where
  torn := h.torn.trans i.torn
  nodup := by
    refine List.nodup_append'.2 ⟨h.nodup, i.nodup, fun m hd he => ?_⟩
    exact ((h.torn.isAlive m).1 (i.alive m he)).2 hd
  alive := by
    intro m hm
    rcases List.mem_append.1 hm with hm | hm
    · exact h.alive m hm
    · exact ((h.torn.isAlive m).1 (i.alive m hm)).1
  first := by
    intro pre m post heq b hb hl
    rcases List.append_eq_append_iff.1 heq with ⟨l, rfl, he⟩ | ⟨l, rfl, he⟩
    · -- `m` is one of the second part
      by_cases hd : b ∈ d
      · exact List.mem_append_left _ hd
      · have hv : v.isAlive b = true := (h.torn.isAlive b).2 ⟨hl, hd⟩
        exact List.mem_append_right _ (i.first l m post he b (h.successor_kept hb hv) hv)
    · cases l with
      | nil =>
        simp only [List.append_nil, List.nil_append] at he h ⊢
        by_cases hd : b ∈ pre
        · exact hd
        · have hv : v.isAlive b = true := (h.torn.isAlive b).2 ⟨hl, hd⟩
          exact absurd (i.first [] m post (by simpa using he.symm) b (h.successor_kept hb hv) hv) (by simp)
      | cons x l =>
        obtain ⟨rfl, -⟩ := List.cons_eq_cons.1 he
        exact h.first pre m l rfl b hb hl
  spent := by
    intro s hs g hg hl
    rw [List.mem_append]
    by_cases hd : g ∈ d
    · exact Or.inl hd
    · have hv : v.isAlive g = true := (h.torn.isAlive g).2 ⟨hl, hd⟩
      rcases List.mem_append.1 hs with hc | hk
      · exact Or.inl (h.spent s hc g hg hl)
      · refine Or.inr (i.spent s hk g ?_ hv)
        rw [h.torn.generatedBy, if_neg fun hc => hd (h.spent s hc g hg hl)]
        exact hg

theorem Kills.tame (t : Tame w) (h : Kills w v dead cleaned) : Tame v :=
  have hl : Linked v := h.torn.linked t.linked fun p hp n hn =>
    h.closed hp (mem_successors.2 (Or.inl hn)) (t.parent_alive n p ((t.mem_children n p).1 hn)).1
  { mem_children := hl.mem_children
    children_nodup := hl.children_nodup
    parent_alive := hl.parent_alive
    home := by
      intro n s hs
      rw [h.torn.shapeOn?] at hs
      rw [h.torn.homeOf]
      exact t.home n s hs
    newer := by
      intro s n hn g hg
      rw [h.torn.homeOf] at hn
      rw [h.torn.generatedBy] at hg
      split_ifs at hg
      · exact absurd hg (by simp)
      · exact t.newer s n hn g hg
    registry_nodup := by
      rw [h.torn.registry]
      exact t.registry_nodup.filter _ }

end

end SceneGrammar.World

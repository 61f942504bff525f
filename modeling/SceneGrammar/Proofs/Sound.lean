/-
The invariant of a scene and all that keeps books on it.

`Sound` links the registry of nodes, the links between parents and children, the two counters, the registry of shapes
and the agenda. One lemma per change says that it is kept: a new node (`Sound.addNode`), a new symbol (`Sound.seat`), a
node on a list (`Sound.track`), a teardown (`Sound.kills`), an appointment made, dropped or come up
(`Sound.schedule`, `Sound.cancel`, `Sound.popped`).
-/
import SceneGrammar.Proofs.Agenda
import SceneGrammar.Proofs.Teardown.Closure

namespace SceneGrammar.World

variable {α κ σ : Type}

/-- what holds between any two operations on a world -/
structure Sound (w : World α κ σ) : Prop extends Tame w where
  id_eq : ∀ n x, w.node? n = some x → x.id = n
  registered : ∀ n, n ∈ w.registry ↔ w.isAlive n = true
  created_eq : w.created = w.nodes.size
  count_eq : w.created = w.destroyed + w.registry.length
  on_home : ∀ s n, w.homeOf s = some n → w.shapeOn? n = some s
  housed : ∀ s, s < w.shapes.size → ∃ n, w.homeOf s = some n
  key_le : ∀ s n k, w.homeOf s = some n → w.rootKeyAt s = some k → k ≤ n
  known : ∀ s, ∀ g ∈ w.generatedBy s, g ≤ w.nodes.size
  mem_bound : ∀ n s, (n, s) ∈ w.bound ↔ w.isAlive n = true ∧ w.shapeOn? n = some s
  bound_nodup : (w.bound.map Prod.fst).Nodup
  agenda_sound : w.agenda.Sound
  planned : ∀ e ∈ w.agenda.heap, e.cancelled = false → (e.node, e.shape) ∈ w.bound

/-- a world in which nothing has happened yet -/
structure Pristine (w : World α κ σ) : Prop where
  nodes : w.nodes = #[]
  registry : w.registry = []
  created : w.created = 0
  destroyed : w.destroyed = 0
  shapes : w.shapes = #[]
  bound : w.bound = []
  heap : w.agenda.heap = #[]
  pending : w.agenda.pending = []
  journal : w.journal = #[]

theorem pristine_fresh [Scalar α] (entropy : Entropy) (user : σ) : Pristine (fresh entropy user : World α κ σ) := by
  constructor <;> rfl

theorem Pristine.sound {w : World α κ σ} (h : Pristine w) : Sound w := by
  have hnode (n : NodeId) : w.node? n = none := by
    refine node?_eq_none_iff.2 ?_
    rw [h.nodes]
    exact (Nat.eq_zero_or_pos n).imp id id
  have hshape (s : ShapeId) : w.shape? s = none := by
    rw [shape?_eq_none_iff, h.shapes]
    exact Nat.zero_le s
  have hchildren (n : NodeId) : w.children n = [] := by simp [children, hnode]
  have hparent (n : NodeId) : w.parentOf n = none := by simp [parentOf, hnode]
  have halive (n : NodeId) : w.isAlive n = false := by simp [isAlive, hnode]
  have hon (n : NodeId) : w.shapeOn? n = none := by simp [shapeOn?, hnode]
  have hhome (s : ShapeId) : w.homeOf s = none := by simp [homeOf, hshape]
  have hgen (s : ShapeId) : w.generatedBy s = [] := by simp [generatedBy, hshape]
  constructor
  case toTame => constructor <;> simp [hchildren, hparent, hon, hhome, h.registry]
  case agenda_sound => constructor <;> simp [h.heap, h.pending]
  case housed =>
    intro s hs
    rw [h.shapes] at hs
    exact absurd hs (Nat.not_lt_zero s)
  all_goals simp [hnode, halive, hon, hhome, hgen, h.registry, h.created, h.destroyed, h.nodes, h.bound, h.heap]

/-! ## Consequences -/

section

variable {w : World α κ σ}

theorem Sound.home_iff (h : Sound w) {s : ShapeId} {n : NodeId} : w.homeOf s = some n ↔ w.shapeOn? n = some s :=
  ⟨h.on_home s n, h.home n s⟩

theorem isAlive_iff {n : NodeId} : w.isAlive n = true ↔ ∃ x, w.node? n = some x ∧ x.alive = true := by
  unfold isAlive
  cases w.node? n <;> simp

theorem le_size_of_shapeOn? {n : NodeId} {s : ShapeId} (h : w.shapeOn? n = some s) : n ≤ w.nodes.size := by
  obtain ⟨x, hx, -⟩ := Option.bind_eq_some_iff.1 h
  exact (le_size_of_node? hx).2

theorem nextId_ne {n : NodeId} (h : n ≤ w.nodes.size) : n ≠ w.nextId := (Nat.lt_succ_of_le h).ne

theorem node?_nextId (w : World α κ σ) : w.node? w.nextId = none := node?_of_size_lt (Nat.lt_succ_self _)

/-- nothing is known of the next node -/
theorem Linked.notMem_children_nextId (h : Linked w) (p : NodeId) : w.nextId ∉ w.children p := by
  intro hc
  have hp := (h.mem_children _ _).1 hc
  simp [parentOf, node?_nextId] at hp

theorem Sound.nextId_notMem_bound (h : Sound w) : w.nextId ∉ w.bound.map Prod.fst := by
  intro hm
  obtain ⟨⟨n, s⟩, hp, rfl⟩ := List.mem_map.1 hm
  exact nextId_ne (le_size_of_isAlive ((h.mem_bound _ _).1 hp).1) rfl

theorem registered?_eq_some_iff (h : (w.bound.map Prod.fst).Nodup) {n : NodeId} {s : ShapeId} :
    w.registered? n = some s ↔ (n, s) ∈ w.bound := by
  refine ⟨fun hl => ?_, fun hm => ?_⟩
  · obtain ⟨pre, post, heq, -⟩ := List.lookup_eq_some_iff.1 hl
    rw [heq]
    simp
  · obtain ⟨pre, post, heq⟩ := List.append_of_mem hm
    refine List.lookup_eq_some_iff.2 ⟨pre, post, heq, fun p hp => ?_⟩
    rw [heq, List.map_append, List.map_cons] at h
    have hne := (List.nodup_append.1 h).2.2 p.1 (List.mem_map_of_mem hp) n (by simp)
    simpa using Ne.symm hne

theorem shapeAlive_iff {s : ShapeId} : w.shapeAlive s = true ↔ ∃ n, w.homeOf s = some n ∧ w.isAlive n = true := by
  unfold shapeAlive homeOf
  cases (w.shape? s).bind (·.node) <;> simp

end

/-- a symbol belongs to a start symbol that is not younger; one without a root key is its own -/
theorem Sound.key_getD_le {w : World α κ σ} (h : Sound w) {s : ShapeId} {n : NodeId} (hn : w.homeOf s = some n) :
    (w.rootKeyAt s).getD n ≤ n := by
  cases hk : w.rootKeyAt s with
  | none => exact le_rfl
  | some k => exact h.key_le s n k hn hk

/-! ## New nodes -/

/-- `v` is `w` with the node `x` under the next id, hung under its parent -/
structure Adds (w v : World α κ σ) (x : Node α) : Prop where
  fresh : x.id = w.nextId ∧ x.children = [] ∧ x.alive = true
  under : ∀ p, x.parent = some p → w.isAlive p = true
  node : ∀ m, v.node? m = if m = w.nextId then some x else
    (w.node? m).map fun y =>
      { y with children := if x.parent = some m then y.children ++ [w.nextId] else y.children }
  registry : v.registry = w.nextId :: w.registry
  size : v.nodes.size = w.nodes.size + 1
  created : v.created = w.created + 1
  destroyed : v.destroyed = w.destroyed

section

variable {w v : World α κ σ} {x : Node α}

theorem Adds.isAlive (a : Adds w v x) (m : NodeId) : v.isAlive m = true ↔ m = w.nextId ∨ w.isAlive m = true := by
  rw [World.isAlive, a.node]
  by_cases hm : m = w.nextId
  · simp [hm, a.fresh]
  · rw [if_neg hm, World.isAlive]
    cases w.node? m <;> simp [hm]

theorem Adds.children (a : Adds w v x) (m : NodeId) :
    v.children m = w.children m ++ if x.parent = some m then [w.nextId] else [] := by
  rw [World.children, a.node, World.children]
  by_cases hm : m = w.nextId
  · have hp : ¬ x.parent = some m := fun hp => by
      obtain ⟨y, hy, -⟩ := isAlive_iff.1 (a.under m hp)
      rw [hm, node?_nextId] at hy
      exact absurd hy (by simp)
    simp [hm, node?_nextId, a.fresh, hm ▸ hp]
  · rw [if_neg hm]
    cases hy : w.node? m with
    | none =>
      have hp : ¬ x.parent = some m := fun hp => by
        obtain ⟨y, hy', -⟩ := isAlive_iff.1 (a.under m hp)
        rw [hy] at hy'
        exact absurd hy' (by simp)
      simp [hp]
    | some y => by_cases hp : x.parent = some m <;> simp [hp]

theorem Adds.parentOf (a : Adds w v x) (m : NodeId) :
    v.parentOf m = if m = w.nextId then x.parent else w.parentOf m := by
  rw [World.parentOf, a.node, World.parentOf]
  by_cases hm : m = w.nextId
  · simp [hm]
  · rw [if_neg hm, if_neg hm]
    cases w.node? m <;> rfl

theorem Adds.shapeOn? (a : Adds w v x) (m : NodeId) :
    v.shapeOn? m = if m = w.nextId then x.shape else w.shapeOn? m := by
  rw [World.shapeOn?, a.node, World.shapeOn?]
  by_cases hm : m = w.nextId
  · simp [hm]
  · rw [if_neg hm, if_neg hm]
    cases w.node? m <;> rfl

/-- links stay right when a node comes -/
theorem Adds.linked (a : Adds w v x) (h : Linked w) : Linked v where
  mem_children n p := by
    rw [a.children, a.parentOf, List.mem_append, h.mem_children]
    by_cases hn : n = w.nextId
    · have hp : ¬ w.parentOf n = some p := fun hp => by simp [World.parentOf, hn, node?_nextId] at hp
      by_cases hx : x.parent = some p <;> simp [hn, hx, hn ▸ hp]
    · by_cases hx : x.parent = some p <;> simp [hn, hx]
  children_nodup p := by
    rw [a.children]
    by_cases hx : x.parent = some p
    · rw [if_pos hx]
      refine List.nodup_append'.2 ⟨h.children_nodup p, List.nodup_singleton _, ?_⟩
      rw [List.disjoint_singleton]
      exact h.notMem_children_nextId p
    · rw [if_neg hx, List.append_nil]
      exact h.children_nodup p
  parent_alive n p hp := by
    rw [a.parentOf] at hp
    split_ifs at hp with hn
    · have hl := a.under p hp
      refine ⟨(a.isAlive n).2 (Or.inl hn), (a.isAlive p).2 (Or.inr hl), ?_⟩
      exact hn ▸ Nat.lt_succ_of_le (le_size_of_isAlive hl)
    · obtain ⟨hn', hp', hlt⟩ := h.parent_alive n p hp
      exact ⟨(a.isAlive n).2 (Or.inr hn'), (a.isAlive p).2 (Or.inr hp'), hlt⟩

/-- a tame world stays tame when a node comes, if it carries no shape or one that has generated nothing -/
theorem Adds.tame (a : Adds w v x) (t : Tame w) (home : ∀ n s, v.shapeOn? n = some s → v.homeOf s = some n)
    (newer : ∀ s n, v.homeOf s = some n → ∀ g ∈ v.generatedBy s, n < g) (hr : w.nextId ∉ w.registry) : Tame v :=
  have hl : Linked v := a.linked t.linked
  { mem_children := hl.mem_children
    children_nodup := hl.children_nodup
    parent_alive := hl.parent_alive
    home := home
    newer := newer
    registry_nodup := by
      rw [a.registry, List.nodup_cons]
      exact ⟨hr, t.registry_nodup⟩ }

theorem Sound.nextId_notMem_registry (h : Sound w) : w.nextId ∉ w.registry := by
  rw [h.registered]
  exact fun hl => nextId_ne (le_size_of_isAlive hl) rfl

/-- a sound world stays sound when a node comes, with a new shape on it or none, if the shapes are entered rightly and no
list or appointment changes -/
theorem Adds.sound (a : Adds w v x) (h : Sound w) (lists : ∀ s, v.generatedBy s = w.generatedBy s)
    (agenda : v.agenda = w.agenda) (older : ∀ s n, v.homeOf s = some n → w.homeOf s = some n ∨ w.shapes.size ≤ s)
    (home : ∀ s n, v.homeOf s = some n ↔ v.shapeOn? n = some s) (housed : ∀ s < v.shapes.size, ∃ n, v.homeOf s = some n)
    (key_le : ∀ s n k, v.homeOf s = some n → v.rootKeyAt s = some k → k ≤ n)
    (mem_bound : ∀ n s, (n, s) ∈ v.bound ↔ v.isAlive n = true ∧ v.shapeOn? n = some s)
    (bound_nodup : (v.bound.map Prod.fst).Nodup) (kept : ∀ p ∈ w.bound, p ∈ v.bound) : Sound v := by
  have ht : Tame v := by
    refine a.tame h.toTame (fun n s => (home s n).2) (fun s n hn g hg => ?_) h.nextId_notMem_registry
    rw [lists] at hg
    rcases older s n hn with hn | hs
    · exact h.newer s n hn g hg
    · simp [generatedBy, shape?_eq_none_iff.2 hs] at hg
  exact
    { ht with
      id_eq := by
        intro n y hy
        rw [a.node] at hy
        by_cases hn : n = w.nextId
        · rw [if_pos hn] at hy
          rw [← Option.some.inj hy, a.fresh.1, hn]
        · rw [if_neg hn] at hy
          obtain ⟨z, hz, rfl⟩ := Option.map_eq_some_iff.1 hy
          exact h.id_eq n z hz
      registered := by
        intro n
        rw [a.registry, List.mem_cons, a.isAlive, h.registered]
      created_eq := by rw [a.created, a.size, h.created_eq]
      count_eq := by rw [a.created, a.destroyed, a.registry, List.length_cons, h.count_eq, Nat.add_assoc]
      on_home := fun s n => (home s n).1
      housed, key_le, mem_bound, bound_nodup
      known := by
        intro s g hg
        rw [lists] at hg
        rw [a.size]
        exact Nat.le_succ_of_le (h.known s g hg)
      agenda_sound := by rw [agenda]; exact h.agenda_sound
      planned := by
        intro e he hc
        rw [agenda] at he
        exact kept _ (h.planned e he hc) }

end

/-- a parent that was found fit is alive, or there is none -/
theorem adds_addNode (w : World α κ σ) (name : String) (kind : NodeKind) (parent : Option NodeId) (pose : Pose α)
    (template : Option String) (hp : ∀ p, parent = some p → w.isAlive p = true) :
    Adds w (w.addNode name kind parent pose template)
      { id := w.nextId, name, kind, parent, children := [], pose, template, shape := none, alive := true } where
  fresh := ⟨rfl, rfl, rfl⟩
  under := hp
  node m := by
    refine node?_addNode w name kind parent pose template (fun h => ?_) m
    exact nextId_ne (le_size_of_isAlive (hp _ h)) rfl
  registry := by rw [addNode_eq]
  size := size_addNode w name kind parent pose template
  created := by rw [addNode_eq]
  destroyed := by rw [addNode_eq]

theorem Sound.addNode {w : World α κ σ} (h : Sound w) (name : String) (kind : NodeKind) (parent : Option NodeId)
    (pose : Pose α) (template : Option String) (hp : ∀ p, parent = some p → w.isAlive p = true) :
    Sound (w.addNode name kind parent pose template) := by
  have a := adds_addNode w name kind parent pose template hp
  have hhome := homeOf_addNode w name kind parent pose template
  have hbound : (w.addNode name kind parent pose template).bound = w.bound := by rw [addNode_eq]
  have hon (n : NodeId) (s : ShapeId) :
      (w.addNode name kind parent pose template).shapeOn? n = some s ↔ w.shapeOn? n = some s := by
    rw [a.shapeOn?]
    split_ifs with hn
    · simp [shapeOn?, hn, node?_nextId]
    · rfl
  refine a.sound h (generatedBy_addNode w name kind parent pose template) (by rw [addNode_eq])
    (fun s n hn => Or.inl (hhome s ▸ hn)) (fun s n => ?_) (fun s hs => ?_) (fun s n k hn hk => ?_) (fun n s => ?_) ?_
    fun p hp => hbound ▸ hp
  · rw [hhome, hon]
    exact h.home_iff
  · rw [addNode_shapes] at hs
    rw [hhome]
    exact h.housed s hs
  · rw [hhome] at hn
    rw [rootKeyAt_addNode] at hk
    exact h.key_le s n k hn hk
  · rw [hbound, h.mem_bound, hon, a.isAlive]
    refine and_congr_left fun hs => (or_iff_right ?_).symm
    exact nextId_ne (le_size_of_shapeOn? hs)
  · rw [hbound]
    exact h.bound_nodup

/-! ## New symbols -/

/-- the world with a new symbol on a new node -/
def seat (w : World α κ σ) (kind : κ) (name : String) (parent : Option NodeId) (pose : Pose α)
    (rootKey : Option NodeId) : World α κ σ :=
  ((w.addShape kind).addNode name .symbol parent pose none).bind w.shapes.size w.nextId rootKey

section

variable (w : World α κ σ) (kind : κ) (name : String) (parent : Option NodeId) (pose : Pose α)
  (rootKey : Option NodeId)

theorem adds_seat (hp : ∀ p, parent = some p → w.isAlive p = true) :
    Adds w (w.seat kind name parent pose rootKey)
      { id := w.nextId, name, kind := .symbol, parent, children := [], pose, template := none
        shape := some w.shapes.size, alive := true } := by
  have a := adds_addNode (w.addShape kind) name .symbol parent pose none hp
  refine ⟨⟨rfl, rfl, rfl⟩, hp, fun m => ?_, ?_, ?_, ?_, ?_⟩
  · have hm : w.nextId = (w.addShape kind).nextId := rfl
    rw [seat, node?_bind, a.node, ← hm]
    by_cases hn : m = w.nextId
    · simp [hn]
    · simp only [if_neg hn, Option.map_map]
      rfl
  · rw [seat, bind_eq]; exact a.registry
  · rw [seat, (size_bind _ _ _ _).1]; exact a.size
  · rw [seat, bind_eq]; exact a.created
  · rw [seat, bind_eq]; exact a.destroyed

theorem shape?_seat (s : ShapeId) :
    (w.seat kind name parent pose rootKey).shape? s =
      if s = w.shapes.size then
        some { kind, node := some w.nextId, rootKey := some (rootKey.getD w.nextId), generated := none
               components := [], state := .uninitialized }
      else w.shape? s := by
  rw [seat, shape?_bind, shape?_addNode, shape?_addShape]
  by_cases hs : s = w.shapes.size
  · simp [hs]
  · cases w.shape? s <;> simp [hs]

theorem homeOf_seat (s : ShapeId) :
    (w.seat kind name parent pose rootKey).homeOf s = if s = w.shapes.size then some w.nextId else w.homeOf s := by
  rw [homeOf, shape?_seat, homeOf]
  split_ifs <;> rfl

theorem rootKeyAt_seat (s : ShapeId) : (w.seat kind name parent pose rootKey).rootKeyAt s =
    if s = w.shapes.size then some (rootKey.getD w.nextId) else w.rootKeyAt s := by
  rw [rootKeyAt, shape?_seat, rootKeyAt]
  split_ifs <;> rfl

theorem generatedBy_seat (s : ShapeId) :
    (w.seat kind name parent pose rootKey).generatedBy s = w.generatedBy s := by
  rw [generatedBy, shape?_seat, generatedBy]
  split_ifs with hs
  · simp [shape?_eq_none_iff.2 hs.ge]
  · rfl

theorem size_seat : (w.seat kind name parent pose rootKey).shapes.size = w.shapes.size + 1 := by
  rw [seat, (size_bind _ _ _ _).2, addNode_eq]
  simp [addShape]

theorem bound_seat (h : w.nextId ∉ w.bound.map Prod.fst) :
    (w.seat kind name parent pose rootKey).bound = w.bound ++ [(w.nextId, w.shapes.size)] := by
  rw [seat, bind_eq, addNode_eq]
  exact enter_of_notMem h

theorem registered?_seat (n : NodeId) : (w.seat kind name parent pose rootKey).registered? n =
    if n = w.nextId then some w.shapes.size else w.registered? n := by
  rw [registered?, seat, bind_eq, addNode_eq]
  split_ifs with hn
  · rw [hn]
    exact lookup_enter_self _ _ _
  · exact lookup_enter hn _ _

theorem agenda_seat : (w.seat kind name parent pose rootKey).agenda = w.agenda := by
  rw [seat, bind_eq, addNode_eq]; rfl

theorem journal_seat : (w.seat kind name parent pose rootKey).journal = w.journal := by
  rw [seat, bind_eq, addNode_eq]; rfl

theorem surroundings_seat : (w.seat kind name parent pose rootKey).surroundings = w.surroundings := by
  rw [seat, bind_eq, addNode_eq]; rfl

/-- the new shape stands on the new node, and nothing else does -/
theorem shapeOn?_seat_iff (hp : ∀ p, parent = some p → w.isAlive p = true) (n : NodeId) (s : ShapeId) :
    (w.seat kind name parent pose rootKey).shapeOn? n = some s ↔
      n = w.nextId ∧ s = w.shapes.size ∨ n ≠ w.nextId ∧ w.shapeOn? n = some s := by
  rw [(adds_seat w kind name parent pose rootKey hp).shapeOn?]
  by_cases hn : n = w.nextId <;> simp [hn, eq_comm]

theorem seat_home_iff (hp : ∀ p, parent = some p → w.isAlive p = true)
    (h : ∀ s n, w.homeOf s = some n ↔ w.shapeOn? n = some s) (s : ShapeId) (n : NodeId) :
    (w.seat kind name parent pose rootKey).homeOf s = some n ↔
      (w.seat kind name parent pose rootKey).shapeOn? n = some s := by
  have hold (hs : w.shapeOn? n = some s) : n ≠ w.nextId ∧ s ≠ w.shapes.size :=
    ⟨nextId_ne (le_size_of_shapeOn? hs), (lt_size_of_homeOf ((h s n).2 hs)).ne⟩
  rw [shapeOn?_seat_iff w kind name parent pose rootKey hp, homeOf_seat]
  by_cases hs : s = w.shapes.size
  · have hnone : ¬ w.shapeOn? n = some s := fun hc => (hold hc).2 hs
    simp [hs, hs ▸ hnone, eq_comm]
  · rw [if_neg hs, h]
    refine ⟨fun hc => Or.inr ⟨(hold hc).1, hc⟩, fun hc => ?_⟩
    exact (hc.resolve_left fun hc => hs hc.2).2

end

theorem Sound.seat {w : World α κ σ} (h : Sound w) (kind : κ) (name : String) (parent : Option NodeId)
    (pose : Pose α) (rootKey : Option NodeId) (hp : ∀ p, parent = some p → w.isAlive p = true)
    (hkey : ∀ k, rootKey = some k → k ≤ w.nextId) : Sound (w.seat kind name parent pose rootKey) := by
  have a := adds_seat w kind name parent pose rootKey hp
  have hhome := homeOf_seat w kind name parent pose rootKey
  have hbound := bound_seat w kind name parent pose rootKey h.nextId_notMem_bound
  have hon := shapeOn?_seat_iff w kind name parent pose rootKey hp
  refine a.sound h (generatedBy_seat w kind name parent pose rootKey) (agenda_seat w kind name parent pose rootKey)
    (fun s n hn => ?_) (seat_home_iff w kind name parent pose rootKey hp fun s n => h.home_iff) (fun s hs => ?_)
    (fun s n k hn hk => ?_) (fun n s => ?_) ?_ fun p hp => hbound ▸ List.mem_append_left _ hp
  · rw [hhome] at hn
    split_ifs at hn with hs
    · exact Or.inr hs.ge
    · exact Or.inl hn
  · rw [size_seat] at hs
    rw [hhome]
    split_ifs with hnew
    · exact ⟨w.nextId, rfl⟩
    · exact h.housed s (lt_of_le_of_ne (Nat.le_of_lt_succ hs) hnew)
  · rw [hhome] at hn
    rw [rootKeyAt_seat] at hk
    split_ifs at hn hk with hnew
    · rw [← Option.some.inj hn, ← Option.some.inj hk]
      cases rootKey with
      | none => exact le_rfl
      | some k => exact hkey k rfl
    · exact h.key_le s n k hn hk
  · rw [hbound, List.mem_append, List.mem_singleton, Prod.mk.injEq, h.mem_bound, hon, a.isAlive]
    constructor
    · rintro (⟨hl, hs⟩ | ⟨rfl, rfl⟩)
      · exact ⟨Or.inr hl, Or.inr ⟨nextId_ne (le_size_of_isAlive hl), hs⟩⟩
      · exact ⟨Or.inl rfl, Or.inl ⟨rfl, rfl⟩⟩
    · rintro ⟨hl, hs | ⟨hn, hs⟩⟩
      · exact Or.inr hs
      · exact Or.inl ⟨hl.resolve_left hn, hs⟩
  · rw [hbound, List.map_append, List.map_singleton]
    refine List.nodup_append'.2 ⟨h.bound_nodup, List.nodup_singleton _, ?_⟩
    rw [List.disjoint_singleton]
    exact h.nextId_notMem_bound

/-! ## Changes of lists and appointments -/

/-- the two worlds have the same nodes, and the same shapes on them -/
structure SameScene (w v : World α κ σ) : Prop where
  nodes : v.nodes = w.nodes
  registry : v.registry = w.registry
  created : v.created = w.created
  destroyed : v.destroyed = w.destroyed
  size : v.shapes.size = w.shapes.size
  home : ∀ s, v.homeOf s = w.homeOf s
  rootKey : ∀ s, v.rootKeyAt s = w.rootKeyAt s
  bound : v.bound = w.bound

section

variable {w v : World α κ σ}

theorem SameScene.isAlive (e : SameScene w v) (n : NodeId) : v.isAlive n = w.isAlive n := by
  rw [World.isAlive, node?_congr e.nodes, World.isAlive]

theorem SameScene.parentOf (e : SameScene w v) (n : NodeId) : v.parentOf n = w.parentOf n := by
  rw [World.parentOf, node?_congr e.nodes, World.parentOf]

theorem SameScene.children (e : SameScene w v) (n : NodeId) : v.children n = w.children n := by
  rw [World.children, node?_congr e.nodes, World.children]

theorem SameScene.shapeOn? (e : SameScene w v) (n : NodeId) : v.shapeOn? n = w.shapeOn? n := by
  rw [World.shapeOn?, node?_congr e.nodes, World.shapeOn?]

/-- new nodes on lists are younger than the shapes, and new appointments are those of registered shapes -/
theorem Sound.sameScene (h : Sound w) (e : SameScene w v)
    (lists : ∀ s, ∀ g ∈ v.generatedBy s, g ∈ w.generatedBy s ∨
      g ≤ w.nodes.size ∧ ∀ n, w.homeOf s = some n → n < g)
    (agenda : v.agenda.Sound) (planned : ∀ x ∈ v.agenda.heap, x.cancelled = false → (x.node, x.shape) ∈ w.bound) :
    Sound v where
  mem_children n p := by rw [e.children, e.parentOf, h.mem_children]
  children_nodup p := by rw [e.children]; exact h.children_nodup p
  parent_alive n p hp := by
    rw [e.parentOf] at hp
    rw [e.isAlive, e.isAlive]
    exact h.parent_alive n p hp
  home n s hs := by rw [e.home]; exact h.home n s (e.shapeOn? n ▸ hs)
  newer s n hn g hg := by
    rw [e.home] at hn
    rcases lists s g hg with hg | ⟨-, hg⟩
    · exact h.newer s n hn g hg
    · exact hg n hn
  registry_nodup := by rw [e.registry]; exact h.registry_nodup
  id_eq n x hx := h.id_eq n x (node?_congr e.nodes n ▸ hx)
  registered n := by rw [e.registry, e.isAlive, h.registered]
  created_eq := by rw [e.created, e.nodes, h.created_eq]
  count_eq := by rw [e.created, e.destroyed, e.registry, h.count_eq]
  on_home s n hn := by rw [e.shapeOn?]; exact h.on_home s n (e.home s ▸ hn)
  housed s hs := by
    rw [e.size] at hs
    rw [e.home]
    exact h.housed s hs
  key_le s n k hn hk := h.key_le s n k (e.home s ▸ hn) (e.rootKey s ▸ hk)
  known s g hg := by
    rw [e.nodes]
    exact (lists s g hg).elim (h.known s g) And.left
  mem_bound n s := by rw [e.bound, e.isAlive, e.shapeOn?, h.mem_bound]
  bound_nodup := by rw [e.bound]; exact h.bound_nodup
  agenda_sound := agenda
  planned x hx hc := by rw [e.bound]; exact planned x hx hc

/-- what belongs to no node, shape or appointment may be anything -/
theorem Sound.elsewhere (h : Sound w) {sources : Array RandomSource} {ambient : SourceId} {entropy : Entropy}
    {templates : TemplateLibrary α} {eager live : Bool} {listeners : List (Node α → Option (Fault α))}
    {warnings : Array Warning} {desk : Desk α} {user : σ} :
    Sound { w with sources, ambient, entropy, templates, eager, live, listeners, warnings, desk, user } :=
  h.sameScene ⟨rfl, rfl, rfl, rfl, rfl, fun _ => rfl, fun _ => rfl, rfl⟩ (fun _ _ => Or.inl) h.agenda_sound h.planned

/-- what is done to the agenda alone -/
theorem Sound.agenda (h : Sound w) {a : Agenda α} (ha : a.Sound)
    (planned : ∀ e ∈ a.heap, e.cancelled = false → (e.node, e.shape) ∈ w.bound) : Sound { w with agenda := a } :=
  h.sameScene ⟨rfl, rfl, rfl, rfl, rfl, fun _ => rfl, fun _ => rfl, rfl⟩ (fun _ _ => Or.inl) ha planned

theorem Sound.cancel (h : Sound w) (n : NodeId) : Sound { w with agenda := (w.agenda.cancel n).2 } := by
  refine h.agenda (h.agenda_sound.cancel n) fun e he hc => ?_
  obtain ⟨he', hc', -⟩ := (Agenda.mem_heap_cancel_live h.agenda_sound n e).1 ⟨he, hc⟩
  exact h.planned e he' hc'

theorem Sound.clearAgenda (h : Sound w) : Sound { w with agenda := w.agenda.clear } :=
  h.agenda h.agenda_sound.clear (by simp [Agenda.clear])

section

variable [Scalar α]

/-- an appointment of a living shape -/
theorem Sound.schedule (h : Sound w) {n : NodeId} {s : ShapeId} (hl : w.isAlive n = true)
    (hs : w.homeOf s = some n) (delay : α) : Sound { w with agenda := w.agenda.schedule n s delay } := by
  refine h.agenda (h.agenda_sound.schedule n s delay) fun e he hc => ?_
  rcases Agenda.mem_heap_schedule.1 he with rfl | he
  · exact (h.mem_bound n s).2 ⟨hl, h.on_home s n hs⟩
  · obtain ⟨he', hc', -⟩ := (Agenda.mem_heap_cancel_live h.agenda_sound n e).1 ⟨he, hc⟩
    exact h.planned e he' hc'

theorem Sound.tick (h : Sound w) (dt : α) : Sound { w with agenda := w.agenda.tick dt } :=
  h.agenda (h.agenda_sound.tick dt) h.planned

theorem Sound.dropped (h : Sound w) {e : Appointment α} {a : Agenda α} (hp : w.agenda.popDue = some (e, a))
    (hc : e.cancelled = true) : Sound { w with agenda := a } :=
  h.agenda (h.agenda_sound.pop_dropped hp hc) fun f hf => h.planned f ((Agenda.mem_of_popDue hp).2 (Or.inr hf))

theorem Sound.settled (h : Sound w) {e : Appointment α} {a : Agenda α} (hp : w.agenda.popDue = some (e, a))
    (hc : e.cancelled = false) : Sound { w with agenda := a.settle e.node } :=
  h.agenda (h.agenda_sound.pop_settled hp hc) fun f hf => h.planned f ((Agenda.mem_of_popDue hp).2 (Or.inr hf))

end

theorem homeOf_modifyShape {f : Shape α κ → Shape α κ} (hf : ∀ x, (f x).node = x.node) (w : World α κ σ)
    (s t : ShapeId) : (w.modifyShape s f).homeOf t = w.homeOf t := by
  rw [homeOf, shape?_modifyShape, homeOf]
  split_ifs
  · cases w.shape? t <;> simp [hf]
  · rfl

theorem rootKeyAt_modifyShape {f : Shape α κ → Shape α κ} (hf : ∀ x, (f x).rootKey = x.rootKey) (w : World α κ σ)
    (s t : ShapeId) : (w.modifyShape s f).rootKeyAt t = w.rootKeyAt t := by
  rw [rootKeyAt, shape?_modifyShape, rootKeyAt]
  split_ifs
  · cases w.shape? t <;> simp [hf]
  · rfl

theorem sameScene_modifyShape {f : Shape α κ → Shape α κ} (hn : ∀ x, (f x).node = x.node)
    (hr : ∀ x, (f x).rootKey = x.rootKey) (w : World α κ σ) (s : ShapeId) : SameScene w (w.modifyShape s f) :=
  ⟨rfl, rfl, rfl, rfl, by simp [modifyShape], homeOf_modifyShape hn w s, rootKeyAt_modifyShape hr w s, rfl⟩

/-- a change of a shape that leaves its place and its list alone -/
theorem Sound.modifyShape (h : Sound w) {f : Shape α κ → Shape α κ} (hn : ∀ x, (f x).node = x.node)
    (hr : ∀ x, (f x).rootKey = x.rootKey) (hg : ∀ x, (f x).generated = x.generated) (s : ShapeId) :
    Sound (w.modifyShape s f) := by
  refine h.sameScene (sameScene_modifyShape hn hr w s) (fun t g hgt => Or.inl ?_) h.agenda_sound h.planned
  rw [generatedBy, shape?_modifyShape] at hgt
  rw [generatedBy]
  split_ifs at hgt
  · cases hx : w.shape? t <;> simp_all
  · exact hgt

theorem generatedBy_track (w : World α κ σ) (s t : ShapeId) (n : NodeId) (hs : s < w.shapes.size) :
    (w.track s n).generatedBy t = if t = s then w.generatedBy t ++ [n] else w.generatedBy t := by
  rw [generatedBy, shape?_track, generatedBy]
  cases hx : w.shape? t with
  | none =>
    have ht : t ≠ s := fun ht => absurd hs (not_lt.2 (ht ▸ shape?_eq_none_iff.1 hx))
    simp [ht]
  | some x => by_cases ht : t = s <;> simp [ht]

/-- a list that no shape has cannot be changed -/
theorem generatedBy_track_of_le (w : World α κ σ) (s t : ShapeId) (n : NodeId) (hs : w.shapes.size ≤ s) :
    (w.track s n).generatedBy t = w.generatedBy t := by
  rw [generatedBy, shape?_track, generatedBy]
  cases hx : w.shape? t with
  | none => rfl
  | some x =>
    have ht : t ≠ s := fun ht => absurd (lt_size_of_shape? hx) (not_lt.2 (ht ▸ hs))
    simp [ht]

theorem mem_generatedBy_track (w : World α κ σ) (s t : ShapeId) (n : NodeId) {g : NodeId}
    (hg : g ∈ w.generatedBy t) : g ∈ (w.track s n).generatedBy t := by
  rcases lt_or_ge s w.shapes.size with hs | hs
  · rw [generatedBy_track w s t n hs]
    split_ifs
    · exact List.mem_append_left _ hg
    · exact hg
  · rw [generatedBy_track_of_le w s t n hs]
    exact hg

theorem sameScene_track (w : World α κ σ) (s : ShapeId) (n : NodeId) : SameScene w (w.track s n) :=
  ⟨rfl, rfl, rfl, rfl, by simp [track, note, World.modifyShape],
    homeOf_modifyShape (f := fun x => { x with generated := some (x.generated.getD [] ++ [n]) }) (fun _ => rfl) w s,
    rootKeyAt_modifyShape (f := fun x => { x with generated := some (x.generated.getD [] ++ [n]) }) (fun _ => rfl) w s,
    rfl⟩

/-- a node younger than a shape comes on its list -/
theorem Sound.track (h : Sound w) {s : ShapeId} {g : NodeId} (hk : g ≤ w.nodes.size)
    (hn : ∀ n, w.homeOf s = some n → n < g) : Sound (w.track s g) := by
  refine h.sameScene (sameScene_track w s g) (fun t k hkt => ?_) h.agenda_sound h.planned
  rcases lt_or_ge s w.shapes.size with hs | hs
  · rw [generatedBy_track w s t g hs] at hkt
    split_ifs at hkt with ht
    · rcases List.mem_append.1 hkt with hkt | hkt
      · exact Or.inl hkt
      · rw [List.mem_singleton.1 hkt, ht]
        exact Or.inr ⟨hk, hn⟩
    · exact Or.inl hkt
  · rw [generatedBy_track_of_le w s t g hs] at hkt
    exact Or.inl hkt

end

/-! ## Teardowns -/

/-- what is left of the agenda when nodes end -/
theorem cancelAll_sound {w : World α κ σ} (dead : List NodeId) {a : Agenda α} (h : a.Sound) :
    (w.cancelAll dead a).Sound ∧ ∀ e ∈ (w.cancelAll dead a).heap, e.cancelled = false →
      e ∈ a.heap ∧ (e.node ∈ dead → (w.shapeOn? e.node).isSome = false) := by
  induction dead generalizing a with
  | nil => exact ⟨h, fun e he _ => ⟨he, by simp⟩⟩
  | cons n dead ih =>
    by_cases hs : (w.shapeOn? n).isSome = true
    · have hstep : w.cancelAll (n :: dead) a = w.cancelAll dead (a.cancel n).2 := by simp [cancelAll, hs]
      rw [hstep]
      obtain ⟨hsound, hheap⟩ := ih (h.cancel n)
      refine ⟨hsound, fun e he hc => ?_⟩
      obtain ⟨he', hd⟩ := hheap e he hc
      obtain ⟨ha, -, hne⟩ := (Agenda.mem_heap_cancel_live h n e).1 ⟨he', hc⟩
      exact ⟨ha, fun hm => hd ((List.mem_cons.1 hm).resolve_left hne)⟩
    · have hstep : w.cancelAll (n :: dead) a = w.cancelAll dead a := by simp [cancelAll, hs]
      rw [hstep]
      obtain ⟨hsound, hheap⟩ := ih h
      refine ⟨hsound, fun e he hc => ?_⟩
      obtain ⟨ha, hd⟩ := hheap e he hc
      refine ⟨ha, fun hm => ?_⟩
      rcases List.mem_cons.1 hm with hn | hm
      · rw [hn]
        simpa using hs
      · exact hd hm

theorem length_filter_notMem {l d : List NodeId} (hl : l.Nodup) (hd : d.Nodup) (hsub : ∀ n ∈ d, n ∈ l) :
    (l.filter (· ∉ d)).length + d.length = l.length := by
  have hperm : (l.filter (· ∈ d)).Perm d := by
    refine (List.perm_ext_iff_of_nodup (hl.filter _) hd).2 fun n => ?_
    simp only [List.mem_filter, decide_eq_true_eq]
    exact ⟨And.right, fun hn => ⟨hsub n hn, hn⟩⟩
  have hsplit := List.length_eq_length_filter_add (l := l) (fun n => decide (n ∈ d))
  have hnot : l.filter (fun n => !decide (n ∈ d)) = l.filter (· ∉ d) := by simp
  rw [hnot, hperm.length_eq] at hsplit
  omega

theorem Sound.kills {w v : World α κ σ} {d : List NodeId} {c : List ShapeId} (h : Sound w) (k : Kills w v d c) :
    Sound v := by
  have t := k.torn
  have hag := cancelAll_sound (w := w) d h.agenda_sound
  exact
    { k.tame h.toTame with
      id_eq := by
        intro n x hx
        rw [t.node] at hx
        obtain ⟨y, hy, rfl⟩ := Option.map_eq_some_iff.1 hx
        exact h.id_eq n y hy
      registered := by
        intro n
        rw [t.registry, List.mem_filter, h.registered, t.isAlive]
        simp
      created_eq := by rw [t.created, t.sizes.1, h.created_eq]
      count_eq := by
        have hlen := length_filter_notMem h.registry_nodup k.nodup fun n hn => (h.registered n).2 (k.alive n hn)
        rw [t.created, t.destroyed, t.registry, h.count_eq]
        omega
      on_home := by
        intro s n hn
        rw [t.homeOf] at hn
        rw [t.shapeOn?]
        exact h.on_home s n hn
      housed := by
        intro s hs
        rw [t.sizes.2] at hs
        rw [t.homeOf]
        exact h.housed s hs
      key_le := by
        intro s n k hn hk
        rw [t.homeOf] at hn
        rw [t.rootKeyAt] at hk
        exact h.key_le s n k hn hk
      known := by
        intro s g hg
        rw [t.generatedBy] at hg
        rw [t.sizes.1]
        split_ifs at hg
        · exact absurd hg (by simp)
        · exact h.known s g hg
      mem_bound := by
        intro n s
        rw [t.bound, List.mem_filter, h.mem_bound, t.isAlive, t.shapeOn?]
        by_cases hs : w.shapeOn? n = some s
        · simp [hs]
        · simp [hs]
      bound_nodup := by
        rw [t.bound]
        exact (List.filter_sublist.map Prod.fst).nodup h.bound_nodup
      agenda_sound := by rw [t.agenda]; exact hag.1
      planned := by
        intro e he hc
        rw [t.agenda] at he
        obtain ⟨he', hd⟩ := hag.2 e he hc
        have hb := h.planned e he' hc
        rw [t.bound, List.mem_filter]
        refine ⟨hb, ?_⟩
        have hs := ((h.mem_bound _ _).1 hb).2
        rw [hs] at hd
        simpa [hs] using hd }

end SceneGrammar.World

/-
Instantiating a template, as a walk reads the copy.

`Template.preorder` lists what a template prescribes: itself at the pose of the copy, then its parts at their own offsets,
each followed by its own parts. A copy has one node for each entry, with consecutive ids, and a walk from the copy's node
meets them in that order (`Copied.walkWithin`, `Copied.stamped`).

- `instantiate_replica`: `instantiate` answers with the next id and leaves a replica (`Replica`) behind, in which of the
  older nodes only the parent has changed; a second copy hung outside the first leaves the first as it is.
-/
import SceneGrammar.Proofs.Cityscape.Copies
import SceneGrammar.Proofs.Exact
import SceneGrammar.Proofs.Runs
import SceneGrammar.World.Walk

namespace SceneGrammar

section

variable {α : Type} [Scalar α]

mutual

/-- a template and all its parts in pre-order, each with its pose relative to what carries it -/
def Template.preorder : Template α → Pose α → List (Template α × Pose α)
  | ⟨id, name, parts, offset, tags⟩, pose => (⟨id, name, parts, offset, tags⟩, pose) :: Template.preorderParts parts

/-- the same for the parts of a template, each at its own offset and not turned -/
def Template.preorderParts : List (Template α) → List (Template α × Pose α)
  | [] => []
  | t :: ts => t.preorder (.displaced t.offset) ++ Template.preorderParts ts

end

end

namespace World

variable {α κ σ : Type} [Scalar α] {w v u : World α κ σ}

/-! ## Walks through copies -/

mutual

/-- a walk from a copy's node meets the nodes of the copy in the order of their ids -/
theorem Copied.walkWithin : ∀ (t : Template α) (parent : Option NodeId) (pose : Pose α) (n depth : Nat),
    w.Copied t parent pose n → t.size ≤ depth → w.walkWithin depth n = List.range' n t.size
  | ⟨id, name, parts, offset, tags⟩, parent, pose, n, depth, hc, hd => by
    rw [Copied] at hc
    rw [Template.size] at hd ⊢
    obtain ⟨d, rfl⟩ : ∃ d, depth = d + 1 := Nat.exists_eq_succ_of_ne_zero (Nat.zero_lt_of_lt hd).ne'
    have hchildren : w.children n = Template.heads parts (n + 1) := by simp [children, hc.1]
    rw [World.walkWithin, hchildren, List.range'_succ,
      CopiedParts.walkWithin parts n (n + 1) d hc.2 (Nat.le_of_succ_le_succ hd)]

/-- the same for the copies of all parts, one after the other -/
theorem CopiedParts.walkWithin : ∀ (ts : List (Template α)) (under : NodeId) (k depth : Nat),
    w.CopiedParts ts under k → Template.sizeOfParts ts ≤ depth →
    (Template.heads ts k).flatMap (w.walkWithin depth) = List.range' k (Template.sizeOfParts ts)
  | [], _, _, _, _, _ => by rw [Template.heads, Template.sizeOfParts]; rfl
  | t :: ts, under, k, depth, hc, hd => by
    rw [CopiedParts] at hc
    rw [Template.sizeOfParts] at hd ⊢
    rw [Template.heads, List.flatMap_cons,
      Copied.walkWithin t _ _ k depth hc.1 ((Nat.le_add_right _ _).trans hd),
      CopiedParts.walkWithin ts under _ depth hc.2 ((Nat.le_add_left _ _).trans hd), List.range'_append_1]

end

/-- a living node made from an entry of a template's pre-order -/
def Stamped (w : World α κ σ) (n : NodeId) (e : Template α × Pose α) : Prop :=
  ∃ x, w.node? n = some x ∧ x.id = n ∧ x.name = e.1.displayName ∧ x.template = some e.1.id ∧ x.kind = .terminal ∧
    x.shape = none ∧ x.pose = e.2 ∧ x.alive = true

mutual

/-- the nodes of a copy are made from the entries of the template's pre-order, one by one -/
theorem Copied.stamped : ∀ (t : Template α) (parent : Option NodeId) (pose : Pose α) (n : NodeId),
    w.Copied t parent pose n → List.Forall₂ w.Stamped (List.range' n t.size) (t.preorder pose)
  | ⟨id, name, parts, offset, tags⟩, parent, pose, n, hc => by
    rw [Copied] at hc
    rw [Template.size, Template.preorder, List.range'_succ]
    exact .cons ⟨_, hc.1, rfl, rfl, rfl, rfl, rfl, rfl, rfl⟩ (CopiedParts.stamped parts n (n + 1) hc.2)

theorem CopiedParts.stamped : ∀ (ts : List (Template α)) (under k : NodeId), w.CopiedParts ts under k →
    List.Forall₂ w.Stamped (List.range' k (Template.sizeOfParts ts)) (Template.preorderParts ts)
  | [], _, _, _ => by rw [Template.sizeOfParts, Template.preorderParts]; exact .nil
  | t :: ts, under, k, hc => by
    rw [CopiedParts] at hc
    rw [Template.sizeOfParts, Template.preorderParts, ← List.range'_append_1]
    exact List.rel_append (Copied.stamped t _ _ k hc.1) (CopiedParts.stamped ts under _ hc.2)

end

/-! ## What a copy adds -/

/-- `v` is `w` with a copy of a template under `parent`; its nodes have the ids from the next one on -/
structure Replica (w v : World α κ σ) (t : Template α) (parent : Option NodeId) (pose : Pose α) : Prop where
  /-- the nodes are those of a copy, with the parts under it in order -/
  copied : v.Copied t parent pose w.nextId
  /-- a walk from its node meets them in the order of their ids -/
  walk : v.walk w.nextId = List.range' w.nextId t.size
  /-- and they are made from the entries of the template's pre-order -/
  stamped : List.Forall₂ v.Stamped (v.walk w.nextId) (t.preorder pose)
  /-- of the older nodes only the parent changes, which gains the copy at the end of its children -/
  older : ∀ m ≤ w.nodes.size, v.node? m = (w.node? m).map fun x =>
    { x with children := if parent = some m then x.children ++ [w.nextId] else x.children }
  size : v.nodes.size = w.nodes.size + t.size
  /-- nothing else has changed but the registry and the count of nodes created -/
  rest : v = { w with
    nodes := v.nodes, registry := (List.range' w.nextId t.size).reverse ++ w.registry, created := w.created + t.size }

theorem replica_plant (t : Template α) (parent : Option NodeId) (pose : Pose α)
    (hp : ∀ p, parent = some p → w.isAlive p = true) : Replica w (w.plant t parent pose) t parent pose := by
  have hplant := planted_plant t w parent pose hp
  obtain ⟨hreg, hcreated⟩ := plant_enrols t w parent pose hp
  obtain ⟨hcopy, hhangs⟩ := plant_copied t w parent pose hp
  have hdepth : t.size ≤ (w.plant t parent pose).nodes.size + 1 := by
    rw [hplant.size]
    omega
  have hwalk : (w.plant t parent pose).walk w.nextId = List.range' w.nextId t.size :=
    Copied.walkWithin t parent pose w.nextId _ hcopy hdepth
  refine ⟨hcopy, hwalk, hwalk ▸ Copied.stamped t parent pose w.nextId hcopy, hhangs.node, hplant.size, ?_⟩
  rw [← hreg, ← hcreated]
  exact hplant.rest

section

variable {t : Template α} {parent : Option NodeId} {pose : Pose α}

/-- the ids of a copy are those given out since -/
theorem Replica.mem_walk (r : Replica w v t parent pose) {m : NodeId} :
    m ∈ v.walk w.nextId ↔ w.nextId ≤ m ∧ m < v.nextId := by
  rw [r.walk, List.mem_range'_1, nextId, nextId, r.size, Nat.add_right_comm]

/-- an older node that is not the parent stays as it is -/
theorem Replica.node?_eq (r : Replica w v t parent pose) {m : NodeId} (hm : m < w.nextId) (hne : parent ≠ some m) :
    v.node? m = w.node? m := by
  rw [r.older m (Nat.le_of_lt_succ hm)]
  cases w.node? m <;> simp [hne]

end

/-- **Instantiation.** Under a living parent, or under none, `instantiate` leaves exactly one copy of the template behind,
and a second one hung outside the first is apart from it and leaves it as it is. -/
theorem instantiate_replica (t : Template α) (parent : Option NodeId) (pose : Pose α)
    (hp : ∀ p, parent = some p → w.isAlive p = true) :
    ∃ v, instantiate t parent pose w = .ok w.nextId v ∧ Replica w v t parent pose ∧
      ∀ parent' pose', (∀ p, parent' = some p → v.isAlive p = true ∧ p ∉ v.walk w.nextId) →
        ∃ u, instantiate t parent' pose' v = .ok v.nextId u ∧ Replica v u t parent' pose' ∧
          u.walk w.nextId = v.walk w.nextId ∧ (v.walk w.nextId).Disjoint (u.walk v.nextId) ∧
          ∀ m ∈ v.walk w.nextId, u.node? m = v.node? m := by
  have r := replica_plant t parent pose hp
  refine ⟨w.plant t parent pose, by rw [instantiate, parentFault?_eq_none hp], r, fun parent' pose' hp' => ?_⟩
  generalize w.plant t parent pose = v at r hp'
  have r' := replica_plant t parent' pose' fun p h => (hp' p h).1
  refine ⟨v.plant t parent' pose', by rw [instantiate, parentFault?_eq_none fun p h => (hp' p h).1], r', ?_⟩
  generalize v.plant t parent' pose' = u at r'
  have hsame (m : NodeId) (hm : m ∈ v.walk w.nextId) : u.node? m = v.node? m :=
    r'.node?_eq (r.mem_walk.1 hm).2 fun h => (hp' m h).2 hm
  -- what is younger than the nodes before the first copy belonged to it
  have hcopied : u.Copied t parent pose w.nextId := by
    refine Copied.upheld (fun m x hlt hx => ?_) t parent pose w.nextId (Nat.lt_succ_self w.nodes.size) r.copied
    rw [hsame m (r.mem_walk.2 ⟨hlt, Nat.lt_succ_of_le (le_size_of_node? hx).2⟩), hx]
  have hdepth : t.size ≤ u.nodes.size + 1 := by
    rw [r'.size]
    omega
  refine ⟨?_, fun m hm hm' => ?_, hsame⟩
  · exact (Copied.walkWithin t parent pose w.nextId _ hcopied hdepth).trans r.walk.symm
  · exact absurd (r.mem_walk.1 hm).2 (not_lt.2 (r'.mem_walk.1 hm').1)

/-- a scene with one node -/
def lawn : World ℚ Unit Unit := (fresh ⟨fun _ => 0, 0⟩ ()).addNode "Lawn" .empty none .rest none

/-- a template with parts on two levels -/
def court : Template ℚ :=
  ⟨"court", "Court", [⟨"bench", "", [.plain "slat" "Slat"], ⟨1, 0, 0⟩, []⟩, .plain "tree" ""],
    .origin, []⟩

theorem instantiate_replica_court :
    ∃ v u, instantiate court (some 1) .rest lawn = .ok 2 v ∧ v.walk 2 = [2, 3, 4, 5] ∧
      instantiate court (some 1) .rest v = .ok 6 u ∧ u.walk 2 = [2, 3, 4, 5] ∧ u.walk 6 = [6, 7, 8, 9] ∧
      u.children 1 = [2, 6] := by
  have halive : lawn.isAlive 1 = true := by decide
  obtain ⟨v, hv, r, hagain⟩ := instantiate_replica court (some 1) .rest fun p hp => Option.some.inj hp ▸ halive
  have hsize : court.size = 4 := rfl
  have hnext : v.nextId = 6 := congrArg (· + 1) r.size
  have hv1 : v.node? 1 = (lawn.node? 1).map _ := r.older 1 le_rfl
  obtain ⟨u, hu, r', hwalk, -, -⟩ := hagain (some 1) .rest fun p hp => by
    obtain rfl := Option.some.inj hp
    rw [r.walk]
    exact ⟨by rw [isAlive, hv1]; rfl, by decide⟩
  rw [hnext] at hu
  refine ⟨v, u, hv, r.walk, hu, hwalk.trans r.walk, ?_, ?_⟩
  · rw [← hnext, r'.walk, hnext, hsize]
    rfl
  · have hu1 : u.node? 1 = (v.node? 1).map _ := r'.older 1 (by rw [r.size]; decide)
    rw [children, hu1, hv1, hnext]
    rfl

end World

end SceneGrammar

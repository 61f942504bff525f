/-
World positions as forward kinematics.

`worldPosition` starts from a node and turns and moves its position by one pose after the other up to the scene root.
`Posed` reads the same scene downward: a scene root has its own pose, and a node below has its parent's pose followed by
its own (`Pose.carry`). Over any commutative ring the two agree at every node whose ancestors are turned by unit
quaternions, however deep it hangs.

- `Quaternion.rotate_mul`: for unit quaternions, the rotation of a product is the composition of the rotations.
- `Posed.carryUp`: a position carried up from a posed node is turned and moved by the pose of that node.
- `worldPosition_eq_posed`: in a scene without cycles every node has one pose, and `worldPosition` is where it stands.
-/
import SceneGrammar.Proofs.Exact
import SceneGrammar.Proofs.Sound
import SceneGrammar.World.Walk

namespace SceneGrammar

/-! ## Rotations over a commutative ring -/

attribute [ext] Vector3 Quaternion

section

variable {R : Type} [CommRing R]

namespace Vector3

variable (u v : Vector3 R)

@[simp] theorem add_x : (u + v).x = u.x + v.x := rfl

@[simp] theorem add_y : (u + v).y = u.y + v.y := rfl

@[simp] theorem add_z : (u + v).z = u.z + v.z := rfl

@[simp] theorem sub_x : (u - v).x = u.x - v.x := rfl

@[simp] theorem sub_y : (u - v).y = u.y - v.y := rfl

@[simp] theorem sub_z : (u - v).z = u.z - v.z := rfl

end Vector3

namespace Quaternion

variable (p q : Quaternion R)

@[simp] theorem mul_x : (p * q).x = p.w * q.x + p.x * q.w + p.y * q.z - p.z * q.y := rfl

@[simp] theorem mul_y : (p * q).y = p.w * q.y - p.x * q.z + p.y * q.w + p.z * q.x := rfl

@[simp] theorem mul_z : (p * q).z = p.w * q.z + p.x * q.y - p.y * q.x + p.z * q.w := rfl

@[simp] theorem mul_w : (p * q).w = p.w * q.w - p.x * q.x - p.y * q.y - p.z * q.z := rfl

/-- the square of the length -/
def normSq : R := p.x * p.x + p.y * p.y + p.z * p.z + p.w * p.w

theorem normSq_mul : (p * q).normSq = p.normSq * q.normSq := by
  simp only [normSq, mul_x, mul_y, mul_z, mul_w]
  ring

theorem rotate_add (u v : Vector3 R) : p.rotate (u + v) = p.rotate u + p.rotate v := by
  ext <;> simp only [rotate, Vector3.add_x, Vector3.add_y, Vector3.add_z] <;> ring

/-- rotating by a product differs from rotating twice by what the factors' lengths differ from one -/
theorem rotate_mul_eq (v : Vector3 R) :
    (p * q).rotate v =
      p.rotate (q.rotate v) + (q.rotate v - v).scale (p.normSq - 1) + (p.rotate v - v).scale (q.normSq - 1) := by
  ext <;>
    simp only [rotate, normSq, mul_x, mul_y, mul_z, mul_w, Vector3.add_x, Vector3.add_y, Vector3.add_z, Vector3.sub_x,
      Vector3.sub_y, Vector3.sub_z, Vector3.scale] <;>
    ring

/-- for unit quaternions, the rotation of a product is the composition of the rotations -/
theorem rotate_mul {p q : Quaternion R} (hp : p.normSq = 1) (hq : q.normSq = 1) (v : Vector3 R) :
    (p * q).rotate v = p.rotate (q.rotate v) := by
  rw [rotate_mul_eq, hp, hq]
  ext <;> simp [Vector3.scale]

end Quaternion

end

/-- a pose followed by another one relative to it -/
def Pose.carry {R : Type} [CommRing R] (P Q : Pose R) : Pose R :=
  ⟨P.position + P.rotation.rotate Q.position, P.rotation * Q.rotation⟩

namespace World

/-! ## Scenes without cycles -/

section

variable {α κ σ : Type} {w : World α κ σ} {n p : NodeId}

/-- the link from a node up to its parent -/
def Under (w : World α κ σ) (n p : NodeId) : Prop := w.parentOf n = some p

/-- every link leads up to a node, and none leads back to where it started -/
structure Branching (w : World α κ σ) : Prop where
  held : ∀ n p, w.Under n p → ∃ x, w.node? p = some x
  acyclic : ∀ n, ¬ Relation.TransGen w.Under n n

/-- links that lead up in some ranking of the nodes do not lead back -/
theorem Branching.of_rank (rank : NodeId → Nat) (held : ∀ n p, w.Under n p → ∃ x, w.node? p = some x)
    (lower : ∀ n p, w.Under n p → rank p < rank n) : Branching w where
  held := held
  acyclic n hn := by
    have hlt (m : NodeId) (hm : Relation.TransGen w.Under n m) : rank m < rank n := by
      induction hm with
      | single hp => exact lower _ _ hp
      | tail _ hp ih => exact (lower _ _ hp).trans ih
    exact lt_irrefl _ (hlt n hn)

/-- where links are right, they lead from younger nodes to older ones -/
theorem Linked.branching (h : Linked w) : Branching w :=
  .of_rank id (fun n p hp => (isAlive_iff.1 (h.parent_alive n p hp).2.1).imp fun _ hx => hx.1)
    fun n p hp => (h.parent_alive n p hp).2.2

open Classical in
/-- a node and all above it -/
noncomputable def lineage (w : World α κ σ) (n : NodeId) : Finset NodeId :=
  {m ∈ Finset.Icc 1 w.nodes.size | Relation.ReflTransGen w.Under n m}

theorem mem_lineage {m : NodeId} :
    m ∈ w.lineage n ↔ m ∈ Finset.Icc 1 w.nodes.size ∧ Relation.ReflTransGen w.Under n m := by
  simp [lineage]

theorem card_lineage_le (w : World α κ σ) (n : NodeId) : (w.lineage n).card ≤ w.nodes.size := by
  have hle := Finset.card_le_card fun m (hm : m ∈ w.lineage n) => (mem_lineage.1 hm).1
  simpa using hle

theorem mem_lineage_self {x : Node α} (hx : w.node? n = some x) : n ∈ w.lineage n :=
  mem_lineage.2 ⟨Finset.mem_Icc.2 (le_size_of_node? hx), .refl⟩

/-- there is less above a parent than above its child, which is why a climb ends -/
theorem Branching.card_lineage_lt (h : Branching w) {x : Node α} (hx : w.node? n = some x) (hp : w.Under n p) :
    (w.lineage p).card < (w.lineage n).card := by
  refine Finset.card_lt_card (Finset.ssubset_iff_subset_ne.2 ⟨fun m hm => ?_, fun heq => ?_⟩)
  · obtain ⟨hm, habove⟩ := mem_lineage.1 hm
    exact mem_lineage.2 ⟨hm, .head hp habove⟩
  · have hn : n ∈ w.lineage p := heq ▸ mem_lineage_self hx
    exact h.acyclic n (.head' hp (mem_lineage.1 hn).2)

end

/-! ## Poses from the top down -/

variable {R κ σ : Type} [CommRing R] {w : World R κ σ} {n p : NodeId} {x : Node R} {P Q : Pose R}

/-- where a node stands and how it is turned, read from the scene root down -/
inductive Posed (w : World R κ σ) : NodeId → Pose R → Prop where
  | root {n : NodeId} {x : Node R} : w.node? n = some x → x.parent = none → Posed w n x.pose
  | child {n p : NodeId} {x : Node R} {P : Pose R} : Posed w p P → w.node? n = some x → x.parent = some p →
      Posed w n (P.carry x.pose)

/-- a node has one pose -/
theorem Posed.unique (hP : w.Posed n P) (hQ : w.Posed n Q) : P = Q := by
  induction hP generalizing Q with
  | root hx hnone =>
    cases hQ with
    | root hy _ => rw [Option.some.inj (hx.symm.trans hy)]
    | child _ hy hsome =>
      rw [← Option.some.inj (hx.symm.trans hy), hnone] at hsome
      cases hsome
  | child _ hx hsome ih =>
    cases hQ with
    | root hy hnone =>
      rw [← Option.some.inj (hx.symm.trans hy), hsome] at hnone
      cases hnone
    | child hP' hy hsome' =>
      obtain rfl := Option.some.inj (hx.symm.trans hy)
      obtain rfl := Option.some.inj (hsome.symm.trans hsome')
      rw [ih hP']

/-- in a scene without cycles every node has a pose -/
theorem Branching.posed (h : Branching w) : ∀ (n : NodeId) (x : Node R), w.node? n = some x → ∃ P, w.Posed n P := by
  intro n
  induction hk : (w.lineage n).card using Nat.strong_induction_on generalizing n with
  | _ k ih =>
    intro x hx
    cases hparent : x.parent with
    | none => exact ⟨_, .root hx hparent⟩
    | some p =>
      have hp : w.Under n p := by simp [Under, parentOf, hx, hparent]
      obtain ⟨y, hy⟩ := h.held n p hp
      obtain ⟨P, hP⟩ := ih _ (hk ▸ h.card_lineage_lt hx hp) p rfl y hy
      exact ⟨_, .child hP hx hparent⟩

/-- all from a node up are turned by unit quaternions -/
def TurnedAbove (w : World R κ σ) (n : NodeId) : Prop :=
  ∀ m y, Relation.ReflTransGen w.Under n m → w.node? m = some y → y.pose.rotation.normSq = 1

theorem TurnedAbove.parent (h : w.TurnedAbove n) (hp : w.Under n p) : w.TurnedAbove p :=
  fun m y hm hy => h m y (.head hp hm) hy

theorem TurnedAbove.normSq (h : w.TurnedAbove n) (hP : w.Posed n P) : P.rotation.normSq = 1 := by
  induction hP with
  | root hx _ => exact h _ _ .refl hx
  | child _ hx hsome ih =>
    have hp := ih (h.parent (by simp [Under, parentOf, hx, hsome]))
    rw [Pose.carry, Quaternion.normSq_mul, hp, h _ _ .refl hx, one_mul]

/-- A position carried up from a posed node is turned and moved by the pose of that node. The induction follows the pose
down from the root; what is gained at each node is the composition of its own turn with that of its parent. -/
theorem Posed.carryUp (hP : w.Posed n P) (hb : Branching w) (hu : w.TurnedAbove n) :
    ∀ (depth : Nat) (v : Vector3 R), (w.lineage n).card ≤ depth →
      w.carryUp depth (some n) v = P.position + P.rotation.rotate v := by
  induction hP with
  | @root n x hx hnone =>
    intro depth v hdepth
    obtain ⟨d, rfl⟩ : ∃ d, depth = d + 1 :=
      Nat.exists_eq_succ_of_ne_zero ((Finset.card_pos.2 ⟨n, mem_lineage_self hx⟩).trans_le hdepth).ne'
    simp only [World.carryUp, Option.bind_some, hx, hnone]
    cases d <;> simp only [World.carryUp, Option.bind_none] <;> ext <;> simp [add_comm]
  | @child n p x P hP hx hsome ih =>
    intro depth v hdepth
    have hp : w.Under n p := by simp [Under, parentOf, hx, hsome]
    have hlt := (hb.card_lineage_lt hx hp).trans_le hdepth
    obtain ⟨d, rfl⟩ : ∃ d, depth = d + 1 := Nat.exists_eq_succ_of_ne_zero (Nat.zero_lt_of_lt hlt).ne'
    have hturn := Quaternion.rotate_mul ((hu.parent hp).normSq hP) (hu n x .refl hx) v
    simp only [World.carryUp, Option.bind_some, hx, hsome]
    rw [ih (hu.parent hp) d _ (Nat.le_of_lt_succ hlt), Quaternion.rotate_add, Pose.carry, hturn]
    ext <;> simp only [Vector3.add_x, Vector3.add_y, Vector3.add_z] <;> ring

/-- **Forward kinematics.** In a scene without cycles every node has one pose read from the top down. Where all above a
node are turned by unit quaternions, its `worldPosition` is the position of that pose. -/
theorem worldPosition_eq_posed (hb : Branching w) (hx : w.node? n = some x)
    (hu : ∀ m y, Relation.TransGen w.Under n m → w.node? m = some y → y.pose.rotation.normSq = 1) :
    ∃ P, (∀ Q, w.Posed n Q ↔ Q = P) ∧ w.worldPosition x = P.position := by
  obtain ⟨P, hP⟩ := hb.posed n x hx
  refine ⟨P, fun Q => ⟨fun hQ => hQ.unique hP, fun hQ => hQ ▸ hP⟩, ?_⟩
  cases hP with
  | root hy hnone =>
    obtain rfl := Option.some.inj (hx.symm.trans hy)
    simp [worldPosition, World.carryUp, hnone]
  | @child _ p y P hP hy hsome =>
    obtain rfl := Option.some.inj (hx.symm.trans hy)
    have hp : w.Under n p := by simp [Under, parentOf, hx, hsome]
    have hup : w.TurnedAbove p := fun m z hm hz => hu m z (.head' hp hm) hz
    rw [worldPosition, hsome, hP.carryUp hb hup _ _ ((w.card_lineage_le p).trans (Nat.le_succ _)), Pose.carry]

/-- a jib with a hook on it, hung under a tower that came later, all turned off the axes -/
def crane : World ℚ Unit Unit :=
  let jib := (fresh ⟨fun _ => 0, 0⟩ () : World ℚ Unit Unit).addNode "jib" .empty none ⟨⟨3, -1, 3⟩, ⟨1 / 2, 1 / 2, 1 / 2, 1 / 2⟩⟩ none
  let hook := jib.addNode "hook" .empty (some 1) ⟨⟨1, 5, -2⟩, ⟨0, 3 / 5, 0, 4 / 5⟩⟩ none
  let tower := hook.addNode "tower" .empty none ⟨⟨0, 7, 1⟩, ⟨3 / 5, 0, 0, 4 / 5⟩⟩ none
  tower.reparent 1 (some 3)

theorem node?_crane {n : Nat} {x : Node ℚ} (h : crane.node? n = some x) : n = 1 ∨ n = 2 ∨ n = 3 := by
  have hn : 0 < n ∧ n ≤ 3 := le_size_of_node? h
  omega

theorem branching_crane : Branching crane := by
  have hup (n p : NodeId) (h : crane.Under n p) : (n = 1 ∧ p = 3) ∨ (n = 2 ∧ p = 1) := by
    obtain ⟨x, hx, -⟩ := Option.bind_eq_some_iff.1 h
    rcases node?_crane hx with rfl | rfl | rfl
    · exact .inl ⟨rfl, (Option.some.inj h).symm⟩
    · exact .inr ⟨rfl, (Option.some.inj h).symm⟩
    · cases h
  refine .of_rank (fun n => [0, 1, 2, 0].getD n 0) (fun n p h => ?_) fun n p h => ?_
  · rcases hup n p h with ⟨rfl, rfl⟩ | ⟨rfl, rfl⟩ <;> exact ⟨_, rfl⟩
  · rcases hup n p h with ⟨rfl, rfl⟩ | ⟨rfl, rfl⟩ <;> decide

theorem worldPosition_crane :
    ∃ x P, crane.node? 2 = some x ∧ (∀ Q, crane.Posed 2 Q ↔ Q = P) ∧ crane.worldPosition x = P.position ∧
      P.position = ⟨1, -17 / 25, 81 / 25⟩ := by
  have hturned (m : NodeId) (y : Node ℚ) (hy : crane.node? m = some y) : y.pose.rotation.normSq = 1 := by
    rcases node?_crane hy with rfl | rfl | rfl <;> cases hy <;> decide +kernel
  obtain ⟨P, hP, hpos⟩ := worldPosition_eq_posed branching_crane (n := 2) rfl fun m y _ hy => hturned m y hy
  exact ⟨_, P, rfl, hP, hpos, hpos ▸ by decide +kernel⟩

end World

end SceneGrammar

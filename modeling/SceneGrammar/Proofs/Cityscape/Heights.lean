/-
How high the stacks of a building stand.

Where sums and products are exact, a turn about the vertical does not move what stands above its centre, so heights add
up along a chain of nodes that are turned about the vertical only (`UprightToRoot.carryUp`). From the ground up the
stacks of a building stand three units above one another, and the roof stands on the last, however the building is
turned (`CityOn.level`).
-/
import SceneGrammar.Proofs.Cityscape.Layout
import SceneGrammar.Proofs.Exact
import Mathlib.Analysis.SpecialFunctions.Trigonometric.Basic

namespace SceneGrammar

/-- scalars that add and multiply as the elements of a ring do, among which the zero angle has cosine one and sine zero -/
class RingScalar (α : Type) [Scalar α] : Prop where
  assoc : ∀ a b c : α, a + b + c = a + (b + c)
  comm : ∀ a b : α, a + b = b + a
  add_zero : ∀ a : α, a + Scalar.zero = a
  sub_zero : ∀ a : α, a - Scalar.zero = a
  zero_mul : ∀ a : α, Scalar.zero * a = Scalar.zero
  mul_zero : ∀ a : α, a * Scalar.zero = Scalar.zero
  ofInt_add : ∀ m n : Int, Scalar.ofInt (m + n) = (Scalar.ofInt m + Scalar.ofInt n : α)
  straight : Scalar.halfAngle (Scalar.zero : α) = .ok (Scalar.one, Scalar.zero)

namespace RingScalar

variable {α : Type} [Scalar α] [RingScalar α]

theorem right_comm (a b c : α) : a + b + c = a + c + b := by
  rw [assoc, comm b, ← assoc]

theorem zero_add (a : α) : Scalar.zero + a = a := by rw [comm, add_zero]

end RingScalar

/-! ## Turns about the vertical -/

section

variable {α : Type} [Scalar α]

/-- a displacement along the vertical -/
def Vector3.up (a : α) : Vector3 α := ⟨Scalar.zero, a, Scalar.zero⟩

/-- a rotation about the vertical -/
def Quaternion.Upright (q : Quaternion α) : Prop := q.x = Scalar.zero ∧ q.z = Scalar.zero

theorem Quaternion.upright_identity : (identity : Quaternion α).Upright := ⟨rfl, rfl⟩

variable [RingScalar α]

theorem Vector3.add_up_up (v : Vector3 α) (m n : Int) :
    v + up (Scalar.ofInt m) + up (Scalar.ofInt n) = v + up (Scalar.ofInt (m + n)) := by
  show Vector3.mk (v.x + _ + _) (v.y + _ + _) (v.z + _ + _) = Vector3.mk (v.x + _) (v.y + _) (v.z + _)
  rw [Vector3.mk.injEq]
  refine ⟨RingScalar.add_zero _, ?_, RingScalar.add_zero _⟩
  rw [RingScalar.assoc, RingScalar.ofInt_add]
  rfl

theorem Vector3.add_up_add (v u : Vector3 α) (a : α) : v + up a + u = v + u + up a := by
  show Vector3.mk (v.x + _ + u.x) (v.y + _ + u.y) (v.z + _ + u.z) = _
  rw [RingScalar.right_comm, RingScalar.right_comm v.y, RingScalar.right_comm v.z]
  rfl

theorem Vector3.up_add (v : Vector3 α) (a : α) : up a + v = v + up a := by
  show Vector3.mk (_ + v.x) (a + v.y) (_ + v.z) = _
  rw [RingScalar.comm, RingScalar.comm a, RingScalar.comm _ v.z]
  rfl

/-- a turn about the vertical leaves heights alone -/
theorem Quaternion.Upright.rotate_add_up {q : Quaternion α} (hq : q.Upright) (v : Vector3 α) (a : α) :
    q.rotate (v + .up a) = q.rotate v + .up a := by
  obtain ⟨x, y, z, w⟩ := q
  obtain ⟨rfl, rfl⟩ : x = Scalar.zero ∧ z = Scalar.zero := hq
  show rotate _ ⟨v.x + Scalar.zero, v.y + a, v.z + Scalar.zero⟩ = Vector3.add (rotate _ v) ⟨Scalar.zero, a, Scalar.zero⟩
  simp only [rotate, Vector3.add, RingScalar.add_zero, RingScalar.zero_mul, RingScalar.sub_zero]
  rw [Vector3.mk.injEq]
  refine ⟨rfl, ?_, rfl⟩
  rw [RingScalar.right_comm v.y]

theorem Quaternion.Upright.rotate_up {q : Quaternion α} (hq : q.Upright) (a : α) : q.rotate (.up a) = .up a := by
  obtain ⟨x, y, z, w⟩ := q
  obtain ⟨rfl, rfl⟩ : x = Scalar.zero ∧ z = Scalar.zero := hq
  simp only [rotate, Vector3.up, RingScalar.add_zero, RingScalar.zero_mul, RingScalar.mul_zero, RingScalar.sub_zero]

/-- a turn by some quarters is one about the vertical -/
theorem Quaternion.upright_ofEuler {a : α} {q : Quaternion α} (h : ofEuler Scalar.zero a Scalar.zero = .ok q) :
    q.Upright := by
  unfold ofEuler at h
  rw [RingScalar.straight] at h
  cases ha : Scalar.halfAngle a with
  | error e =>
    rw [ha] at h
    cases h
  | ok c =>
    rw [ha] at h
    obtain rfl : ofHalfAngles (Scalar.one, Scalar.zero) c (Scalar.one, Scalar.zero) = q := Except.ok.inj h
    constructor
    · show c.1 * Scalar.zero * Scalar.one + c.2 * Scalar.one * Scalar.zero = Scalar.zero
      rw [RingScalar.mul_zero, RingScalar.zero_mul, RingScalar.mul_zero, RingScalar.add_zero]
    · show c.1 * Scalar.one * Scalar.zero - c.2 * Scalar.zero * Scalar.one = Scalar.zero
      rw [RingScalar.mul_zero, RingScalar.mul_zero, RingScalar.zero_mul, RingScalar.sub_zero]

end

/-! ## Chains of nodes -/

namespace World

variable {α κ σ : Type} [Scalar α] {w v : World α κ σ} {n m : NodeId}

/-- where a node stands relative to the scene -/
def standsAt (w : World α κ σ) (n : NodeId) : Option (Vector3 α) := (w.node? n).map w.worldPosition

/-- from a node up, every node is turned about the vertical only, and younger than the one above it -/
inductive UprightToRoot (w : World α κ σ) : NodeId → Prop where
  | intro {n : NodeId} {x : Node α} : w.node? n = some x → x.pose.rotation.Upright → (∀ p, x.parent = some p → p < n) →
      (∀ p, x.parent = some p → UprightToRoot w p) → UprightToRoot w n

/-- on the way to the top there are only older nodes -/
theorem UprightToRoot.unmoved (h : w.UprightToRoot n) (hkept : Unmoved n w v) : v.UprightToRoot n := by
  induction h with
  | @intro n x hx hup hlt _ ih =>
    obtain ⟨y, hy, hparent, hpose⟩ := hkept n le_rfl x hx
    refine .intro hy (hpose ▸ hup) (hparent ▸ hlt) fun p hp => ?_
    rw [hparent] at hp
    exact ih p hp fun m hm => hkept m (hm.trans (hlt p hp).le)

section

variable [RingScalar α]

/-- heights add up on the way to the top, and more levels than there are make no difference -/
theorem UprightToRoot.carryUp (h : w.UprightToRoot n) {d e : Nat} (hd : n ≤ d) (he : n ≤ e) (p : Vector3 α) (a : α) :
    w.carryUp d (some n) (p + .up a) = w.carryUp e (some n) p + .up a := by
  induction h generalizing d e p with
  | @intro n x hx hup hlt _ ih =>
    have hpos := (le_size_of_node? hx).1
    obtain ⟨d, rfl⟩ := Nat.exists_eq_succ_of_ne_zero (hpos.trans_le hd).ne'
    obtain ⟨e, rfl⟩ := Nat.exists_eq_succ_of_ne_zero (hpos.trans_le he).ne'
    simp only [World.carryUp, Option.bind_some, hx, hup.rotate_add_up, Vector3.add_up_add]
    cases hparent : x.parent with
    | none => cases d <;> cases e <;> rfl
    | some q =>
      have hq := hlt q hparent
      exact ih q hparent (Nat.le_of_lt_succ (hq.trans_le hd)) (Nat.le_of_lt_succ (hq.trans_le he)) _

/-- what stands straight above a node -/
theorem UprightToRoot.above (h : w.UprightToRoot n) {y : Node α} (hm : w.node? m = some y) (hparent : y.parent = some n)
    {a : α} (hpos : y.pose.position = .up a) : ∃ p, w.standsAt n = some p ∧ w.standsAt m = some (p + .up a) := by
  cases h with
  | @intro _ x hx hup hlt hupright =>
    refine ⟨w.worldPosition x, by rw [standsAt, hx]; rfl, ?_⟩
    rw [standsAt, hm, Option.map_some]
    congr 1
    have hsize := le_size_of_node? hx
    unfold worldPosition
    rw [hparent, hpos]
    simp only [World.carryUp, Option.bind_some, hx, hup.rotate_up, Vector3.up_add]
    cases hq : x.parent with
    | none => cases w.nodes.size <;> rfl
    | some q =>
      have hle := (hlt q hq).le.trans hsize.2
      exact (hupright q hq).carryUp hle (Nat.le_succ_of_le hle) _ _

end

/-! ## Buildings -/

/-- the stacks of a building stand three units above one another, the first on the ground, and the roof on the last -/
def Level (w : World α κ σ) (h : City.House) : Prop :=
  ∃ p, w.standsAt h.node = some p ∧
    (∀ (k : Nat) n, h.tiers[k]? = some n → w.standsAt n = some (p + ⟨Scalar.zero, Scalar.ofInt (3 * k), Scalar.zero⟩)) ∧
    w.standsAt h.roof = some (p + ⟨Scalar.zero, Scalar.ofInt (3 * h.floors), Scalar.zero⟩)

section

open City

variable {put : City.Kind α → κ}

theorem Raised.uprightToRoot {kind : κ} {name : String} {under : NodeId} {pose : Pose α} {made : List NodeId}
    (h : w.Raised kind name under pose n made) (hpose : pose.rotation.Upright) (hunder : w.UprightToRoot under) :
    w.UprightToRoot n := by
  obtain ⟨hlt, s, key, hn, -⟩ := h
  refine .intro hn hpose ?_ ?_
  · rintro p ⟨⟩
    exact hlt
  · rintro p ⟨⟩
    exact hunder

variable [RingScalar α]

theorem Raised.above {kind : κ} {name : String} {under : NodeId} {pose : Pose α} {made : List NodeId} {a : α}
    (h : w.Raised kind name under pose n made) (hpose : pose.position = .up a) (hunder : w.UprightToRoot under) :
    ∃ p, w.standsAt under = some p ∧ w.standsAt n = some (p + .up a) := by
  obtain ⟨-, s, key, hn, -⟩ := h
  exact hunder.above hn rfl hpose

/-- **Stacks.** Whatever stands under a node, the first of it at some height, stands three units above one another. -/
theorem Storeys.heights {roof : NodeId} {top : String} {ground : Bool} {under : NodeId} {pose : Pose α}
    {tiers : List NodeId} {i : Int} (h : w.Storeys put roof top ground under pose tiers) (hunder : w.UprightToRoot under)
    (hrotation : pose.rotation.Upright) (hposition : pose.position = .up (Scalar.ofInt i)) :
    ∃ p, w.standsAt under = some p ∧
      (∀ (k : Nat) n, tiers[k]? = some n → w.standsAt n = some (p + .up (Scalar.ofInt (i + 3 * k)))) ∧
      w.standsAt roof = some (p + .up (Scalar.ofInt (i + 3 * tiers.length))) := by
  induction tiers generalizing ground under pose i with
  | nil =>
    obtain ⟨t, leaf, hroof, -⟩ := h
    obtain ⟨p, hp, hr⟩ := hroof.above hposition hunder
    exact ⟨p, hp, by simp, by simpa using hr⟩
  | cons n above ih =>
    obtain ⟨⟨wall, id, t, hn, -, -⟩, habove⟩ := h
    obtain ⟨p, hp, hfirst⟩ := hn.above hposition hunder
    obtain ⟨q, hq, hrest, hroof⟩ := ih habove (hn.uprightToRoot hrotation hunder) Quaternion.upright_identity (i := 3) rfl
    obtain rfl : p + .up (Scalar.ofInt i) = q := Option.some.inj (hfirst.symm.trans hq)
    refine ⟨p, hp, fun k m hm => ?_, ?_⟩
    · cases k with
      | zero =>
        obtain rfl : n = m := Option.some.inj hm
        simpa using hfirst
      | succ k =>
        have hm' := hrest k m hm
        rw [Vector3.add_up_up] at hm'
        rw [hm']
        congr 4
        push_cast
        ring
    · rw [Vector3.add_up_up] at hroof
      rw [hroof]
      congr 4
      rw [List.length_cons]
      push_cast
      ring

theorem HouseOn.level {maxFloors : Int} {block : NodeId} {slot : (Int × Int) × Nat} {h : House}
    (hh : w.HouseOn put maxFloors block slot h) (hblock : w.UprightToRoot block) : w.Level h := by
  obtain ⟨-, ⟨quarter, rotation, -, hrotation, hn⟩, hstoreys⟩ := hh
  have hupright := hn.uprightToRoot (Quaternion.upright_ofEuler hrotation) hblock
  obtain ⟨p, hp, htiers, hroof⟩ := Storeys.heights (i := 0) hstoreys hupright Quaternion.upright_identity rfl
  refine ⟨p, hp, fun k n hn => ?_, ?_⟩
  · have := htiers k n hn
    rwa [zero_add] at this
  · rwa [zero_add] at hroof

omit [Scalar α] [RingScalar α] in
/-- whatever is on the right has its counterpart on the left -/
theorem exists_of_forall₂ {β γ : Type} {R : β → γ → Prop} {xs : List β} {ys : List γ} (h : List.Forall₂ R xs ys) :
    ∀ y ∈ ys, ∃ x, R x y := by
  induction h with
  | nil => simp
  | @cons x y xs ys hxy _ ih =>
    intro z hz
    rcases List.mem_cons.1 hz with rfl | hz
    · exact ⟨x, hxy⟩
    · exact ih z hz

/-- **Heights.** If the root of a city is turned about the vertical only, and so is whatever it hangs under, then all of
its buildings stand upright. -/
theorem CityOn.level {plan : City.Plan α} {relief : Option (HeightMap α)} {s : ShapeId} {root : NodeId} {lots : List Lot}
    (h : w.CityOn put plan relief s root lots) (hroot : w.UprightToRoot root) :
    ∀ lot ∈ lots, ∀ house ∈ lot.houses, w.Level house := by
  intro lot hlot house hhouse
  obtain ⟨place, hon⟩ := exists_of_forall₂ h.lots lot hlot
  cases lot with
  | park n => exact absurd hhouse List.not_mem_nil
  | block n houses =>
    obtain ⟨hn, -, hhouses⟩ := hon
    obtain ⟨slot, hslot⟩ := exists_of_forall₂ hhouses house hhouse
    exact hslot.level (hn.uprightToRoot Quaternion.upright_identity hroot)

end

end World

/-! ## The reals -/

/-- exact arithmetic, with the true cosines and sines -/
noncomputable instance : Scalar ℝ where
  beq a b := @decide (a = b) (Classical.propDecidable _)
  ofInt n := n
  fits _ := true
  ltDecidable := Classical.decRel _
  leDecidable := Classical.decRel _
  floor a := .ok ⌊a⌋
  truncate a := .ok (@ite _ (a < 0) (Classical.propDecidable _) ⌈a⌉ ⌊a⌋)
  cube a := a ^ 3
  halfAngle a := .ok (Real.cos (a * (Real.pi / 360)), Real.sin (a * (Real.pi / 360)))

instance : ExactScalar ℝ where
  beq_iff a b := @decide_eq_true_iff (a = b) (Classical.propDecidable _)
  lt_irrefl := lt_irrefl
  lt_trans _ _ _ := lt_trans
  lt_connex := lt_trichotomy
  le_iff _ _ := not_lt.symm
  ofInt_ne_zero _ hn h := hn (Int.cast_injective (α := ℝ) h)
  truncates _ := ⟨_, rfl⟩
  straight := ⟨_, rfl⟩
  turned _ _ _ := ⟨_, rfl⟩

instance : RingScalar ℝ where
  assoc := add_assoc
  comm := add_comm
  add_zero a := by
    show a + ((0 : Int) : ℝ) = a
    simp
  sub_zero a := by
    show a - ((0 : Int) : ℝ) = a
    simp
  zero_mul a := by
    show ((0 : Int) : ℝ) * a = ((0 : Int) : ℝ)
    simp
  mul_zero a := by
    show a * ((0 : Int) : ℝ) = ((0 : Int) : ℝ)
    simp
  ofInt_add m n := Int.cast_add m n
  straight := by
    show Except.ok (Real.cos (((0 : Int) : ℝ) * _), Real.sin (((0 : Int) : ℝ) * _)) = .ok (((1 : Int) : ℝ), ((0 : Int) : ℝ))
    simp

end SceneGrammar

/-
What a teardown does not heed.

Whatever the listeners say, whatever is in the log and whatever keys there are to come, a teardown does the same to the
rest of a world: on worlds that differ in these alone (`World.mute` is the same of both) it leaves worlds that differ in
these alone (`unheeding_within`).
-/
import SceneGrammar.Proofs.Framing

namespace SceneGrammar

namespace World

variable {α κ σ : Type}

/-- the world with nobody listening, an empty log, and one pool of keys for all -/
def mute (w : World α κ σ) : World α κ σ :=
  { w with listeners := [], warnings := #[], entropy := ⟨fun _ => 0, 0⟩ }

section

variable (w : World α κ σ)

@[simp] theorem node?_mute (n : NodeId) : w.mute.node? n = w.node? n := by cases n <;> rfl

@[simp] theorem isAlive_mute (n : NodeId) : w.mute.isAlive n = w.isAlive n := by simp [isAlive]

@[simp] theorem children_mute (n : NodeId) : w.mute.children n = w.children n := by simp [children]

@[simp] theorem shapeOn?_mute (n : NodeId) : w.mute.shapeOn? n = w.shapeOn? n := by simp [shapeOn?]

@[simp] theorem shape?_mute (s : ShapeId) : w.mute.shape? s = w.shape? s := rfl

theorem mute_modifyNode (n : NodeId) (f : Node α → Node α) :
    (w.modifyNode n f).mute = w.mute.modifyNode n f := by cases n <;> rfl

theorem mute_announce (n : NodeId) : (w.announce n).mute = w.mute.announce n := by
  rw [announce_eq, announce_eq, shapeOn?_mute]
  rfl

theorem mute_detach (n : NodeId) : (w.detach n).mute = w.mute.detach n := by
  simp only [detach, node?_mute]
  cases (w.node? n).bind (·.parent) with
  | none => rfl
  | some p => simp only [mute_modifyNode]

theorem mute_bury (n : NodeId) : (w.bury n).mute = w.mute.bury n := by
  simp only [bury, ← mute_detach, ← mute_modifyNode]
  rfl

theorem mute_warnCleanup (s : ShapeId) (n : NodeId) : (w.warnCleanup s n).mute = w.mute := by
  unfold warnCleanup
  cases w.node? n <;> rfl

theorem walkWithin_mute (depth : Nat) (n : NodeId) : w.mute.walkWithin depth n = w.walkWithin depth n := by
  induction depth generalizing n with
  | zero => rfl
  | succ depth ih => rw [walkWithin, walkWithin, funext ih, children_mute]

theorem reachFrom_mute (steps : Nat) (stack seen : List NodeId) :
    w.mute.reachFrom steps stack seen = w.reachFrom steps stack seen := by
  induction steps generalizing stack seen with
  | zero => rfl
  | succ steps ih =>
    cases stack with
    | nil => rfl
    | cons n stack =>
      rw [reachFrom, reachFrom, ih, ih, isAlive_mute]
      rfl

/-- two worlds that differ in what goes unheeded alone -/
theorem eq_of_mute {w v : World α κ σ} (h : w.mute = v.mute) :
    w = { v with listeners := w.listeners, warnings := w.warnings, entropy := w.entropy } := by
  calc w = { w.mute with listeners := w.listeners, warnings := w.warnings, entropy := w.entropy } := rfl
    _ = { v.mute with listeners := w.listeners, warnings := w.warnings, entropy := w.entropy } := by rw [h]
    _ = _ := rfl

end

/-- on worlds that differ in what goes unheeded alone this leaves worlds that differ in nothing else -/
def Unheeding (f : World α κ σ → World α κ σ) : Prop := ∀ w v : World α κ σ, w.mute = v.mute → (f w).mute = (f v).mute

theorem Unheeding.foldl {f : World α κ σ → NodeId → World α κ σ} (h : ∀ n, Unheeding fun w => f w n)
    (ns : List NodeId) : Unheeding fun w => ns.foldl f w := by
  induction ns with
  | nil => exact fun _ _ => id
  | cons n ns ih => exact fun w v hwv => ih _ _ (h n w v hwv)

section

variable {depth : Nat} (ihd : ∀ n, Unheeding (α := α) (κ := κ) (σ := σ) fun w => (destroyWithin depth n w).1)
  (ihc : ∀ s, Unheeding (α := α) (κ := κ) (σ := σ) (cleanWithin depth s))

include ihc in
theorem cleanAt_unheeding (n : NodeId) : Unheeding (α := α) (κ := κ) (σ := σ) (cleanAt depth n) := by
  intro w v h
  have hs : v.shapeOn? n = w.shapeOn? n := by rw [← shapeOn?_mute, ← h, shapeOn?_mute]
  cases hw : w.shapeOn? n with
  | none => rwa [cleanAt_none hw, cleanAt_none (hs.trans hw)]
  | some s =>
    rw [cleanAt_some hw, cleanAt_some (hs.trans hw)]
    exact ihc s w v h

include ihd ihc in
theorem destroy_unheeding_step (n : NodeId) :
    Unheeding (α := α) (κ := κ) (σ := σ) fun w => (destroyWithin (depth + 1) n w).1 := by
  intro w v h
  have hl : v.isAlive n = w.isAlive n := by rw [← isAlive_mute, ← h, isAlive_mute]
  dsimp only
  by_cases hw : w.isAlive n = true
  swap
  · rw [destroyWithin_dead hw, destroyWithin_dead (hl ▸ hw)]
    exact h
  rw [destroyWithin_alive hw, destroyWithin_alive (hl.trans hw)]
  have hclean := cleanAt_unheeding ihc n w v h
  have hch : (cleanAt depth n v).children n = (cleanAt depth n w).children n := by
    rw [← children_mute, ← hclean, children_mute]
  rw [hch]
  have hchildren := Unheeding.foldl ihd ((cleanAt depth n w).children n) _ _ hclean
  rw [mute_bury, mute_announce, mute_bury, mute_announce]
  exact congrArg (fun u => (u.announce n).bury n) hchildren

include ihd ihc in
theorem cleanOne_unheeding (s : ShapeId) (n : NodeId) :
    Unheeding (α := α) (κ := κ) (σ := σ) fun w => cleanOne depth s w n := by
  -- the warning about an objection goes to the log
  have hone (w : World α κ σ) (hw : w.isAlive n = true) :
      (cleanOne depth s w n).mute = (destroyWithin depth n (cleanAt depth n w)).1.mute := by
    rw [cleanOne_alive hw]
    split_ifs
    · exact mute_warnCleanup _ s n
    · rfl
  intro w v h
  have hl : v.isAlive n = w.isAlive n := by rw [← isAlive_mute, ← h, isAlive_mute]
  dsimp only
  by_cases hw : w.isAlive n = true
  · rw [hone w hw, hone v (hl.trans hw)]
    exact ihd n _ _ (cleanAt_unheeding ihc n w v h)
  · rw [cleanOne, cleanOne, if_neg hw, if_neg (hl ▸ hw)]
    exact h

include ihd ihc in
theorem clean_unheeding_step (s : ShapeId) : Unheeding (α := α) (κ := κ) (σ := σ) (cleanWithin (depth + 1) s) := by
  intro w v h
  have hs : v.shape? s = w.shape? s := by rw [← shape?_mute, ← h, shape?_mute]
  cases hg : (w.shape? s).bind (·.generated) with
  | none => rwa [cleanWithin_none hg, cleanWithin_none (hs ▸ hg)]
  | some gs =>
    rw [cleanWithin_some hg, cleanWithin_some (hs ▸ hg)]
    have htake : (w.takeGenerated s).mute = (v.takeGenerated s).mute :=
      congrArg (fun u : World α κ σ => u.takeGenerated s) h
    have hloop := Unheeding.foldl (cleanOne_unheeding ihd ihc s) gs _ _ htake
    exact congrArg (fun u : World α κ σ => u.markCleared s) hloop

end

theorem unheeding_within (depth : Nat) :
    (∀ n, Unheeding (α := α) (κ := κ) (σ := σ) fun w => (destroyWithin depth n w).1) ∧
      ∀ s, Unheeding (α := α) (κ := κ) (σ := σ) (cleanWithin depth s) := by
  induction depth with
  | zero => exact ⟨fun _ _ _ => id, fun _ _ _ => id⟩
  | succ depth ih => exact ⟨destroy_unheeding_step ih.1 ih.2, clean_unheeding_step ih.1 ih.2⟩

end World

end SceneGrammar

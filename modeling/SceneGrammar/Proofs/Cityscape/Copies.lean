/-
Copies of templates, node for node.

`World.Copied t parent pose n`: from the id `n` on, the nodes of a world are those of a copy of `t` under `parent`: its
own node and then the copies of its parts, in the order in which the template is read. Planting makes such a copy behind
the nodes that are there, of which only the parent changes (`plant_copied`), and enters its nodes one after the other
(`plant_enrols`).

`Upholds k w v`: what is younger than the node `k`, and the shapes on it, are in `v` what they are in `w`. A copy stays a
copy as long as what is younger than an older node is upheld (`Copied.upheld`).
-/
import SceneGrammar.Proofs.Steps

namespace SceneGrammar

/-- the nodes of copies of templates that follow one another from an id on -/
def Template.heads {α : Type} : List (Template α) → NodeId → List NodeId
  | [], _ => []
  | t :: ts, k => k :: heads ts (k + t.size)

namespace World

variable {α κ σ : Type} {w v u : World α κ σ} {k n : NodeId}

/-! ## What is younger than a node -/

/-- the nodes younger than `k`, and the shapes on such nodes, are as they were -/
structure Upholds (k : NodeId) (w v : World α κ σ) : Prop where
  node : ∀ n x, k < n → w.node? n = some x → v.node? n = some x
  shape : ∀ s x n, w.shape? s = some x → x.node = some n → k < n → v.shape? s = some x

/-! ## Copies -/

section

variable [Scalar α]

mutual

/-- from `n` on, the nodes are those of a copy of a template -/
def Copied (w : World α κ σ) : Template α → Option NodeId → Pose α → NodeId → Prop
  | ⟨id, name, parts, _, _⟩, parent, pose, n =>
    w.node? n = some
      { id := n, name := if name = "" then id else name, kind := .terminal, parent
        children := Template.heads parts (n + 1), pose, template := some id, shape := none, alive := true } ∧
    CopiedParts w parts n (n + 1)

/-- from `k` on, the nodes are those of copies of all parts under a node, each at its own offset -/
def CopiedParts (w : World α κ σ) : List (Template α) → NodeId → NodeId → Prop
  | [], _, _ => True
  | t :: ts, under, k => Copied w t (some under) (.displaced t.offset) k ∧ CopiedParts w ts under (k + t.size)

end

mutual

theorem Copied.upheld (h : ∀ m x, k < m → w.node? m = some x → v.node? m = some x) :
    ∀ (t : Template α) (parent : Option NodeId) (pose : Pose α) (n : NodeId), k < n →
      w.Copied t parent pose n → v.Copied t parent pose n
  | ⟨id, name, parts, offset, tags⟩, parent, pose, n, hn, hc => by
    rw [Copied] at hc ⊢
    exact ⟨h n _ hn hc.1, CopiedParts.upheld h parts n (n + 1) (Nat.lt_succ_of_lt hn) hc.2⟩

theorem CopiedParts.upheld (h : ∀ m x, k < m → w.node? m = some x → v.node? m = some x) :
    ∀ (ts : List (Template α)) (under n : NodeId), k < n → w.CopiedParts ts under n → v.CopiedParts ts under n
  | [], _, _, _, _ => by rw [CopiedParts]; trivial
  | t :: ts, under, n, hn, hc => by
    rw [CopiedParts] at hc ⊢
    exact ⟨Copied.upheld h t _ _ n hn hc.1, CopiedParts.upheld h ts under _ (hn.trans_le (Nat.le_add_right _ _)) hc.2⟩

end

/-- `v` is `w` with new nodes, of which `new` hang under `parent` -/
structure Hangs (w v : World α κ σ) (parent : Option NodeId) (new : List NodeId) : Prop where
  size : w.nodes.size ≤ v.nodes.size
  node : ∀ m ≤ w.nodes.size, v.node? m =
    (w.node? m).map fun x => { x with children := if parent = some m then x.children ++ new else x.children }

omit [Scalar α] in
theorem Hangs.trans {parent : Option NodeId} {a b : List NodeId} (h : Hangs w v parent a) (i : Hangs v u parent b) :
    Hangs w u parent (a ++ b) where
  size := h.size.trans i.size
  node m hm := by
    rw [i.node m (hm.trans h.size), h.node m hm, Option.map_map]
    refine congrArg (Option.map · (w.node? m)) (funext fun x => ?_)
    by_cases hp : parent = some m <;> simp [hp]

mutual

/-- **A copy.** Planting a template makes a copy of it behind the nodes that are there, and of these only the parent
changes: it gains the copy at the end of its children. -/
theorem plant_copied : ∀ (t : Template α) (w : World α κ σ) (parent : Option NodeId) (pose : Pose α),
    (∀ p, parent = some p → w.isAlive p = true) →
    (w.plant t parent pose).Copied t parent pose w.nextId ∧ Hangs w (w.plant t parent pose) parent [w.nextId]
  | ⟨id, name, parts, offset, tags⟩, w, parent, pose, hp => by
    have a := adds_addNode w (if name = "" then id else name) .terminal parent pose (some id) hp
    rw [plant, Copied]
    generalize w.addNode (if name = "" then id else name) .terminal parent pose (some id) = v at a
    have hlt : w.nextId ≤ v.nodes.size := a.size.ge
    have hle : w.nodes.size ≤ v.nodes.size := a.size ▸ Nat.le_succ w.nodes.size
    have hnext : v.nextId = w.nextId + 1 := congrArg (· + 1) a.size
    obtain ⟨hparts, hangs⟩ := plantParts_copied parts v w.nextId ((a.isAlive _).2 (Or.inl rfl))
    rw [hnext] at hparts hangs
    refine ⟨⟨?_, hparts⟩, hle.trans hangs.size, fun m hm => ?_⟩
    · rw [hangs.node _ hlt, a.node, if_pos rfl]
      simp
    · have hne : m ≠ w.nextId := nextId_ne hm
      rw [hangs.node m (hm.trans hle), a.node, if_neg hne, Option.map_map]
      refine congrArg (Option.map · (w.node? m)) (funext fun x => ?_)
      by_cases hm' : parent = some m <;> simp [hm', Ne.symm hne]

/-- the same for the copies of all parts of a template -/
theorem plantParts_copied : ∀ (ts : List (Template α)) (w : World α κ σ) (under : NodeId), w.isAlive under = true →
    (w.plantParts ts under).CopiedParts ts under w.nextId ∧
      Hangs w (w.plantParts ts under) (some under) (Template.heads ts w.nextId)
  | [], w, under, _ => by
    rw [plantParts, CopiedParts, Template.heads]
    exact ⟨trivial, le_rfl, fun m _ => by cases w.node? m <;> simp⟩
  | t :: ts, w, under, hl => by
    rw [plantParts, CopiedParts, Template.heads]
    have hplant := planted_plant t w (some under) (.displaced t.offset) (by simpa using hl)
    obtain ⟨hcopy, hhangs⟩ := plant_copied t w (some under) (.displaced t.offset) (by simpa using hl)
    generalize w.plant t (some under) (.displaced t.offset) = v at hplant hcopy hhangs
    have hnext : v.nextId = w.nextId + t.size := by
      rw [nextId, hplant.size, nextId, Nat.add_right_comm]
    obtain ⟨hparts, hhangs'⟩ := plantParts_copied ts v under (hplant.kept under hl)
    rw [hnext] at hparts hhangs'
    -- the later copies change the node above them, which is older than the first copy
    have hup : ∀ m x, under < m → v.node? m = some x → (v.plantParts ts under).node? m = some x := by
      intro m x hm hx
      rw [hhangs'.node m (le_size_of_node? hx).2, hx]
      simp [hm.ne]
    refine ⟨⟨Copied.upheld hup t _ _ _ ?_ hcopy, hparts⟩, hhangs.trans hhangs'⟩
    exact Nat.lt_succ_of_le (le_size_of_isAlive hl)

end

mutual

/-- a copy's nodes are entered one after the other, and counted -/
theorem plant_enrols : ∀ (t : Template α) (w : World α κ σ) (parent : Option NodeId) (pose : Pose α),
    (∀ p, parent = some p → w.isAlive p = true) →
    (w.plant t parent pose).registry = (List.range' w.nextId t.size).reverse ++ w.registry ∧
      (w.plant t parent pose).created = w.created + t.size
  | ⟨id, name, parts, offset, tags⟩, w, parent, pose, hp => by
    have a := adds_addNode w (if name = "" then id else name) .terminal parent pose (some id) hp
    rw [plant, Template.size]
    generalize w.addNode (if name = "" then id else name) .terminal parent pose (some id) = v at a
    obtain ⟨hreg, hcreated⟩ := plantParts_enrols parts v w.nextId ((a.isAlive _).2 (Or.inl rfl))
    have hnext : v.nextId = w.nextId + 1 := congrArg (· + 1) a.size
    rw [hreg, hcreated, hnext, a.registry, a.created, List.range'_succ]
    exact ⟨by simp, by omega⟩

theorem plantParts_enrols : ∀ (ts : List (Template α)) (w : World α κ σ) (under : NodeId), w.isAlive under = true →
    (w.plantParts ts under).registry = (List.range' w.nextId (Template.sizeOfParts ts)).reverse ++ w.registry ∧
      (w.plantParts ts under).created = w.created + Template.sizeOfParts ts
  | [], w, under, _ => by
    rw [plantParts, Template.sizeOfParts]
    exact ⟨rfl, rfl⟩
  | t :: ts, w, under, hl => by
    rw [plantParts, Template.sizeOfParts]
    have hunder (p : NodeId) (hp : some under = some p) : w.isAlive p = true := Option.some.inj hp ▸ hl
    have hplant := planted_plant t w (some under) (.displaced t.offset) hunder
    obtain ⟨hreg, hcreated⟩ := plant_enrols t w (some under) (.displaced t.offset) hunder
    generalize w.plant t (some under) (.displaced t.offset) = v at hplant hreg hcreated
    obtain ⟨hreg', hcreated'⟩ := plantParts_enrols ts v under (hplant.kept under hl)
    have hnext : v.nextId = w.nextId + t.size := by
      rw [nextId, hplant.size, nextId, Nat.add_right_comm]
    rw [hreg', hcreated', hnext, hreg, hcreated, ← List.range'_append_1, List.reverse_append, List.append_assoc]
    exact ⟨rfl, Nat.add_assoc _ _ _⟩

end

end

end World

end SceneGrammar

/-
What a snapshot shows of a subtree.

A snapshot lists what is reached from the root. `reachFrom_enough`: its bound is great enough, so that a greater one
changes nothing. Two worlds that hold one subtree under roots of one pose are walked alike, step by step
(`Represents.reachFrom`), and show the same content, ids apart (`Represents.content_eq`).
-/
import Mathlib.Algebra.BigOperators.Group.Finset.Basic
import SceneGrammar.Proofs.Growth.Faces
import SceneGrammar.World.Report

namespace SceneGrammar

variable {α κ σ : Type}

/-- the nodes of a snapshot below its root, with their places in the snapshot for their ids -/
def TreeSnapshot.content (t : TreeSnapshot α) : List (NodeSnapshot α) :=
  let place (n : NodeId) : NodeId := (t.nodes.map (·.id)).idxOf n
  (t.nodes.filter (·.id != t.root)).map fun x => { x with id := place x.id, parent := x.parent.map place }

/-! ## The bound of a walk -/

namespace World

variable {w : World α κ σ}

/-- what a walk has before it: the nodes on the stack, and all that the nodes not seen lead to -/
def ahead (w : World α κ σ) (stack seen : List NodeId) : Nat :=
  stack.length + ∑ n ∈ (Finset.range (w.nodes.size + 1)).filter (· ∉ seen), (w.successors n).length

theorem ahead_visit {n : NodeId} {stack seen : List NodeId} (hl : w.isAlive n = true) (hn : n ∉ seen) :
    w.ahead (w.successors n ++ stack) (n :: seen) + 1 = w.ahead (n :: stack) seen := by
  have hmem : n ∈ (Finset.range (w.nodes.size + 1)).filter (· ∉ seen) :=
    Finset.mem_filter.2 ⟨Finset.mem_range.2 (Nat.lt_succ_of_le (le_size_of_isAlive hl)), hn⟩
  have herase : (Finset.range (w.nodes.size + 1)).filter (· ∉ n :: seen) =
      ((Finset.range (w.nodes.size + 1)).filter (· ∉ seen)).erase n := by
    ext m
    simp only [Finset.mem_filter, Finset.mem_erase, List.mem_cons, not_or]
    tauto
  have hsum := Finset.add_sum_erase _ (fun m => (w.successors m).length) hmem
  simp only [ahead, herase, List.length_append, List.length_cons]
  omega

/-- **The bound.** A walk does not depend on its bound once that covers what is before it. -/
theorem reachFrom_enough (steps : Nat) : ∀ (more : Nat) (stack seen : List NodeId), w.ahead stack seen ≤ steps →
    w.ahead stack seen ≤ more → w.reachFrom steps stack seen = w.reachFrom more stack seen := by
  induction steps with
  | zero =>
    intro more stack seen h _
    have hnil : stack = [] := by
      refine List.length_eq_zero_iff.1 ?_
      unfold ahead at h
      omega
    cases more <;> simp [reachFrom, hnil]
  | succ steps ih =>
    intro more stack seen h hmore
    cases stack with
    | nil => cases more <;> simp [reachFrom]
    | cons n stack =>
      have hpos : w.ahead (n :: stack) seen = w.ahead stack seen + 1 := by
        simp only [ahead, List.length_cons]
        omega
      cases more with
      | zero => omega
      | succ more =>
        simp only [reachFrom]
        by_cases hskip : (seen.contains n || !w.isAlive n) = true
        · rw [if_pos hskip, if_pos hskip]
          exact ih more stack seen (by omega) (by omega)
        · rw [if_neg hskip, if_neg hskip]
          simp only [Bool.or_eq_true, List.contains_iff_mem, Bool.not_eq_true', not_or, Bool.not_eq_false] at hskip
          have hvisit := @ahead_visit _ _ _ w n stack seen hskip.2 hskip.1
          exact ih more _ _ (by omega) (by omega)

theorem foldl_range_add (f : Nat → Nat) (k m : Nat) :
    (List.range m).foldl (fun k n => k + f n) k = k + ∑ n ∈ Finset.range m, f n := by
  induction m with
  | zero => simp
  | succ m ih => simp [List.range_succ, ih, Finset.sum_range_succ, Nat.add_assoc]

theorem ahead_le_reachBound (w : World α κ σ) (n : NodeId) : w.ahead [n] [] ≤ w.reachBound := by
  rw [reachBound, foldl_range_add, ahead, Finset.filter_true_of_mem (by simp)]
  exact Nat.add_le_add_right (by simp) _

/-- any greater bound gives the same nodes -/
theorem reachable_eq (n : NodeId) {steps : Nat} (h : w.reachBound ≤ steps) :
    w.reachable n = w.reachFrom steps [n] [] :=
  reachFrom_enough _ _ _ _ (ahead_le_reachBound w n) ((ahead_le_reachBound w n).trans h)

/-- a root that leads nowhere shows nothing -/
theorem content_nil [Scalar α] [SymbolKind κ] {n : NodeId} {x : Node α} (hx : w.node? n = some x)
    (hl : x.alive = true) (hid : x.id = n) (hnil : w.successors n = []) (tick seed : Int) :
    (w.snapshot n tick seed).content = [] := by
  have hreach : w.reachable n = [n] := by
    rw [reachable_eq n (Nat.le_max_left w.reachBound 2)]
    obtain ⟨steps, hsteps⟩ : ∃ steps, max w.reachBound 2 = steps + 2 :=
      ⟨max w.reachBound 2 - 2, (Nat.sub_add_cancel (Nat.le_max_right _ _)).symm⟩
    simp [hsteps, reachFrom, World.isAlive, hx, hl, hnil]
  simp [TreeSnapshot.content, snapshot, hreach, hx, nodeSnapshot, hid]

end World

/-! ## The walk through a subtree -/

namespace Subtree

/-- whether something has grown; the root is there from the start -/
def has (P : Subtree α κ) : Option Nat → Bool
  | none => true
  | some k => k < P.nodes.length

/-- what the symbol on a grown node has generated -/
def generatedAt (P : Subtree α κ) (k : Nat) : List Nat :=
  ((((P.nodes[k]?).bind (·.shape)).bind (P.shapes[·]?)).bind (·.generated)).getD []

/-- where a walk goes on from a grown node, or from the root -/
def successors (P : Subtree α κ) : Option Nat → List Nat
  | none => P.stems ++ P.top
  | some k => P.childrenOf k ++ P.generatedAt k

/-- the walk with a stack of nodes to visit and a list of those seen, newest first -/
def reachFrom (P : Subtree α κ) : Nat → List (Option Nat) → List (Option Nat) → List (Option Nat)
  | 0, _, seen => seen.reverse
  | _ + 1, [], seen => seen.reverse
  | steps + 1, o :: stack, seen =>
    if seen.contains o || !P.has o then reachFrom P steps stack seen
    else reachFrom P steps ((P.successors o).map some ++ stack) (o :: seen)

end Subtree

/-- a root that hangs under nothing, and under which nothing hung before -/
structure Placement.Lone (F : Placement α) : Prop where
  id : F.trunk.id = F.root
  parent : F.trunk.parent = none
  children : F.trunk.children = []
  shape : F.trunk.shape = some F.rootShape

theorem Placement.nodeAt_injective {F : Placement α} (h : F.root ≤ F.nodes) : Function.Injective F.nodeAt := by
  have hlt (k : Nat) : F.root < F.id k := Nat.lt_succ_of_le (h.trans (Nat.le_add_right _ _))
  rintro (_ | j) (_ | k) hjk
  · rfl
  · exact absurd hjk (hlt k).ne
  · exact absurd hjk (hlt j).ne'
  · exact congrArg some (F.id_injective hjk)

namespace World

section

variable {F : Placement α} {ctx : GrowthContext α κ} {w : World α κ σ} {P : Subtree α κ}

theorem Represents.isAlive_nodeAt (h : Represents F ctx w P) (o : Option Nat) : w.isAlive (F.nodeAt o) = P.has o := by
  cases o with
  | none => exact h.root_alive
  | some k =>
    rw [World.isAlive, Placement.nodeAt, h.node?_eq, Subtree.has]
    by_cases hk : k < P.nodes.length
    · simp [hk, Placement.node]
    · simp [hk]

theorem Represents.successors (h : Represents F ctx w P) (lone : F.Lone) (o : Option Nat) :
    w.successors (F.nodeAt o) = (P.successors o).map F.id := by
  cases o with
  | none =>
    have hchildren : w.children F.root = P.stems.map F.id := by simp [World.children, h.trunk, lone.children]
    have hgenerated : w.generatedAt F.root = P.top.map F.id := by
      rw [← h.top, generatedAt, generatedBy, shapeOn?, h.trunk]
      simp [lone.shape]
    rw [World.successors, Placement.nodeAt, hchildren, hgenerated, Subtree.successors, List.map_append]
  | some k =>
    have hgenerated : w.generatedAt (F.id k) = (P.generatedAt k).map F.id := by
      rw [generatedAt, shapeOn?, h.node?_eq, Subtree.generatedAt]
      cases P.nodes[k]? with
      | none => rfl
      | some x =>
        cases hs : x.shape with
        | none => simp [Placement.node, hs]
        | some j =>
          simp only [Placement.node, hs, Option.map_some, Option.bind_some, h.shape?_eq]
          cases P.shapes[j]? with
          | none => rfl
          | some y => cases hg : y.generated <;> simp [Placement.shape, hg]
    rw [World.successors, Placement.nodeAt, h.children, hgenerated, Subtree.successors, List.map_append]

/-- **The walk.** A world is walked from the root of a subtree as the subtree is. -/
theorem Represents.reachFrom (h : Represents F ctx w P) (lone : F.Lone) (steps : Nat) (stack seen : List (Option Nat)) :
    w.reachFrom steps (stack.map F.nodeAt) (seen.map F.nodeAt) = (P.reachFrom steps stack seen).map F.nodeAt := by
  induction steps generalizing stack seen with
  | zero => simp [World.reachFrom, Subtree.reachFrom]
  | succ steps ih =>
    cases stack with
    | nil => simp [World.reachFrom, Subtree.reachFrom]
    | cons o stack =>
      have hseen : (seen.map F.nodeAt).contains (F.nodeAt o) = seen.contains o := by
        rw [Bool.eq_iff_iff, List.contains_iff_mem, List.contains_iff_mem,
          List.mem_map_of_injective (Placement.nodeAt_injective h.older.1)]
      have hnext : w.successors (F.nodeAt o) ++ stack.map F.nodeAt =
          ((P.successors o).map some ++ stack).map F.nodeAt := by
        rw [h.successors lone, List.map_append, List.map_map]
        rfl
      simp only [List.map_cons, World.reachFrom, Subtree.reachFrom, hseen, h.isAlive_nodeAt, hnext]
      split_ifs
      · exact ih stack seen
      · exact ih _ (o :: seen)

theorem idxOf_map {β γ : Type} [BEq β] [LawfulBEq β] [BEq γ] [LawfulBEq γ] {f : β → γ} (hf : Function.Injective f)
    (l : List β) (b : β) : (l.map f).idxOf (f b) = l.idxOf b := by
  induction l with
  | nil => rfl
  | cons a l ih =>
    have hbeq : (f a == f b) = (a == b) := by rw [Bool.eq_iff_iff, beq_iff_eq, beq_iff_eq, hf.eq_iff]
    simp [List.idxOf_cons, hbeq, ih]

/-- the place of a grown node, or of the root, in a walk -/
def place (P : Subtree α κ) (walk : List (Option Nat)) (o : Option Nat) : Nat := (walk.filter P.has).idxOf o

/-- **The snapshot.** What a snapshot shows below the root, in terms of the subtree. -/
theorem Represents.content [Scalar α] [SymbolKind κ] (h : Represents F ctx w P) (lone : F.Lone) {steps : Nat}
    (hsteps : w.reachBound ≤ steps) (tick seed : Int) : (w.snapshot F.root tick seed).content =
      (P.reachFrom steps [none] []).filterMap fun o => o.bind fun k => (P.nodes[k]?).map fun x =>
        { w.nodeSnapshot (F.node k x) with
          id := place P (P.reachFrom steps [none] []) (some k)
          parent := some (place P (P.reachFrom steps [none] []) x.parent) } := by
  have hinj := Placement.nodeAt_injective h.older.1
  have hreach : w.reachable F.root = (P.reachFrom steps [none] []).map F.nodeAt :=
    (reachable_eq F.root hsteps).trans (h.reachFrom lone steps [none] [])
  generalize P.reachFrom steps [none] [] = walk at hreach ⊢
  have hnodes : (w.snapshot F.root tick seed).nodes =
      walk.filterMap fun o => (w.node? (F.nodeAt o)).map w.nodeSnapshot := by
    simp only [snapshot, hreach, List.filterMap_map, List.map_filterMap, Function.comp_def]
  have hid (o : Option Nat) : ((w.node? (F.nodeAt o)).map w.nodeSnapshot).map (·.id) =
      if P.has o then some (F.nodeAt o) else none := by
    cases o with
    | none => simp [Placement.nodeAt, h.trunk, Subtree.has, nodeSnapshot, lone.id]
    | some k =>
      rw [Placement.nodeAt, h.node?_eq, Subtree.has]
      by_cases hk : k < P.nodes.length
      · simp [hk, nodeSnapshot, Placement.node]
      · simp [hk]
  have hids : (w.snapshot F.root tick seed).nodes.map (·.id) = (walk.filter P.has).map F.nodeAt := by
    rw [hnodes, List.map_filterMap, funext hid, ← List.filterMap_eq_map, ← List.filterMap_eq_filter,
      List.filterMap_filterMap]
    refine List.filterMap_congr fun o _ => ?_
    cases ho : P.has o <;> simp [Option.guard, ho]
  have hplace (o : Option Nat) : ((walk.filter P.has).map F.nodeAt).idxOf (F.nodeAt o) = place P walk o := by
    rw [place, idxOf_map hinj]
  simp only [TreeSnapshot.content, hids]
  rw [hnodes, List.filter_filterMap, List.map_filterMap]
  refine List.filterMap_congr fun o _ => ?_
  cases o with
  | none => simp [Placement.nodeAt, h.trunk, nodeSnapshot, snapshot, lone.id]
  | some k =>
    have hne : F.id k ≠ F.root := (Nat.lt_succ_of_le (h.older.1.trans (Nat.le_add_right _ _))).ne'
    rw [Placement.nodeAt, h.node?_eq]
    cases hx : P.nodes[k]? with
    | none => simp [hx]
    | some x =>
      have hshown : ((w.nodeSnapshot (F.node k x)).id != (w.snapshot F.root tick seed).root) = true :=
        bne_iff_ne.2 hne
      simp only [Option.map_some, Option.bind_some, hx, Option.filter_some, hshown, if_true]
      have hid' := hplace (some k)
      have hparent := hplace x.parent
      simp only [← hid', ← hparent]
      rfl

end

/-! ## Two worlds that hold one subtree -/

section

variable {τ : Type} {F G : Placement α} {ctx ctx' : GrowthContext α κ} {w : World α κ σ} {v : World α κ τ}
  {P : Subtree α κ}

variable [Scalar α]

/-- a position is carried up through a subtree alike -/
theorem Represents.carryUp (h : Represents F ctx w P) (k : Represents G ctx' v P) (hF : F.Lone) (hG : G.Lone)
    (hpose : F.trunk.pose = G.trunk.pose) (d e : Nat) (o : Option Nat) (p : Vector3 α)
    (hd : o.elim 1 (· + 2) ≤ d) (he : o.elim 1 (· + 2) ≤ e) :
    w.carryUp d (some (F.nodeAt o)) p = v.carryUp e (some (G.nodeAt o)) p := by
  induction d generalizing e o p with
  | zero => cases o <;> simp at hd
  | succ d ih =>
    cases e with
    | zero => cases o <;> simp at he
    | succ e =>
      cases o with
      | none =>
        simp only [World.carryUp, Placement.nodeAt, Option.bind_some, h.trunk, k.trunk, hF.parent, hG.parent, hpose]
        cases d <;> cases e <;> rfl
      | some i =>
        simp only [World.carryUp, Placement.nodeAt, Option.bind_some, h.node?_eq, k.node?_eq]
        cases hx : P.nodes[i]? with
        | none => rfl
        | some x =>
          -- the parent is older than the node
          refine ih e x.parent _ ?_ ?_
          · cases hp : x.parent with
            | none => simp at hd ⊢; omega
            | some q =>
              have := h.sound.old i x hx q hp
              simp at hd ⊢
              omega
          · cases hp : x.parent with
            | none => simp at he ⊢; omega
            | some q =>
              have := h.sound.old i x hx q hp
              simp at he ⊢
              omega

theorem Represents.worldPosition (h : Represents F ctx w P) (k : Represents G ctx' v P) (hF : F.Lone) (hG : G.Lone)
    (hpose : F.trunk.pose = G.trunk.pose) {i : Nat} {x : Subtree.Node α} (hx : P.nodes[i]? = some x) :
    w.worldPosition (F.node i x) = v.worldPosition (G.node i x) := by
  have hlt : i < P.nodes.length := (List.getElem?_eq_some_iff.1 hx).1
  have hbound : x.parent.elim 1 (· + 2) ≤ P.nodes.length + 1 := by
    cases hp : x.parent with
    | none => simp
    | some q =>
      have := h.sound.old i x hx q hp
      simp only [Option.elim_some]
      omega
  refine h.carryUp k hF hG hpose _ _ x.parent _ (hbound.trans ?_) (hbound.trans ?_)
  · rw [h.nodes_size]
    omega
  · rw [k.nodes_size]
    omega

/-- **One content.** Two worlds that hold one subtree under lone roots of one pose show the same content. -/
theorem Represents.content_eq [SymbolKind κ] (h : Represents F ctx w P) (k : Represents G ctx' v P) (hF : F.Lone)
    (hG : G.Lone) (hpose : F.trunk.pose = G.trunk.pose) (tick tick' seed seed' : Int) :
    (w.snapshot F.root tick seed).content = (v.snapshot G.root tick' seed').content := by
  rw [h.content hF (Nat.le_max_left w.reachBound v.reachBound), k.content hG (Nat.le_max_right _ _)]
  refine List.filterMap_congr fun o _ => ?_
  cases o with
  | none => rfl
  | some i =>
    cases hx : P.nodes[i]? with
    | none => simp [hx]
    | some x =>
      have hposition := h.worldPosition k hF hG hpose hx
      have hsymbol : (w.nodeSnapshot (F.node i x)).shape = (v.nodeSnapshot (G.node i x)).shape := by
        simp only [nodeSnapshot, Placement.node]
        cases hs : x.shape with
        | none => rfl
        | some j =>
          simp only [Option.map_some, Option.bind_some, h.shape?_eq, k.shape?_eq]
          cases P.shapes[j]? with
          | none => rfl
          | some y => cases hg : y.generated <;> simp [Placement.shape, hg]
      simp only [Option.bind_some, hx, Option.map_some, hsymbol]
      simp only [nodeSnapshot] at hposition ⊢
      rw [hposition]
      rfl

end

end World

end SceneGrammar

/-
What the printed tree shows of a subtree.

An outline names nodes and symbols, and no ids. Under a lone root it is that of the subtree (`Represents.outline`), so
worlds that hold one subtree under roots of one name print the same lines.
-/
import SceneGrammar.Proofs.Growth.Snapshot

namespace SceneGrammar

variable {α κ σ : Type} [SymbolKind κ]

namespace Subtree

/-- the children of a grown node, or of the root -/
def offspring (P : Subtree α κ) : Option Nat → List Nat
  | none => P.stems
  | some k => P.childrenOf k

/-- the line of a grown node, or of a root of a name and a kind -/
def label (P : Subtree α κ) (name : String) (kind : κ) : Option Nat → String
  | none => name ++ " [" ++ SymbolKind.typeName kind ++ ": " ++ toString P.top.length ++ "]"
  | some k =>
    match P.nodes[k]? with
    | none => ""
    | some x =>
      match x.shape with
      | none => x.name
      | some j =>
        x.name ++ " [" ++ ((P.shapes[j]?).map fun y => SymbolKind.typeName y.kind).getD "" ++ ": " ++
          toString (((P.shapes[j]?).bind (·.generated)).getD []).length ++ "]"

/-- the printed tree below a grown node, or below the root -/
def outlineAt (P : Subtree α κ) (name : String) (kind : κ) : Nat → Nat → Option Nat → List String
  | 0, level, o => [World.indentation level ++ P.label name kind o]
  | depth + 1, level, o =>
    (World.indentation level ++ P.label name kind o) ::
      (P.offspring o).flatMap fun k => outlineAt P name kind depth (level + 1) (some k)

/-- the printed tree of a subtree under a root of a name and a kind -/
def outline (P : Subtree α κ) (name : String) (kind : κ) (depth : Int) : List String :=
  (P.outlineAt name kind depth.toNat 0 none).flatMap (·.splitOn "\n")

end Subtree

namespace World

variable {F : Placement α} {ctx : GrowthContext α κ} {w : World α κ σ} {P : Subtree α κ}

omit [SymbolKind κ] in
theorem Represents.offspring (h : Represents F ctx w P) (lone : F.Lone) (o : Option Nat) :
    w.children (F.nodeAt o) = (P.offspring o).map F.id := by
  cases o with
  | none => simp [World.children, Placement.nodeAt, h.trunk, lone.children, Subtree.offspring]
  | some k => exact h.children k

theorem Represents.label (h : Represents F ctx w P) (lone : F.Lone) (o : Option Nat) :
    w.label (F.nodeAt o) = P.label F.trunk.name ctx.kind o := by
  cases o with
  | none =>
    obtain ⟨x, hx, hkind, -⟩ := h.root
    have hshape : w.shapeOn? F.root = some F.rootShape := by simp [shapeOn?, h.trunk, lone.shape]
    have hname : w.nodeName F.root = F.trunk.name := by simp [nodeName, h.trunk]
    simp only [World.label, Placement.nodeAt, Subtree.label, hshape, hname, typeName, hx, hkind, h.top, Option.map_some,
      Option.getD_some, List.length_map]
  | some k =>
    simp only [World.label, Placement.nodeAt, Subtree.label, shapeOn?, nodeName, h.node?_eq]
    cases P.nodes[k]? with
    | none => rfl
    | some x =>
      cases hs : x.shape with
      | none => simp [Placement.node, hs]
      | some j =>
        simp only [Option.map_some, Option.bind_some, Option.getD_some, Placement.node, hs, typeName, generatedBy,
          h.shape?_eq]
        cases P.shapes[j]? with
        | none => rfl
        | some y => cases hg : y.generated <;> simp [Placement.shape, hg]

theorem Represents.outlineAt (h : Represents F ctx w P) (lone : F.Lone) (depth level : Nat) (o : Option Nat) :
    w.outlineAt depth level (F.nodeAt o) = P.outlineAt F.trunk.name ctx.kind depth level o := by
  induction depth generalizing level o with
  | zero => rw [World.outlineAt, Subtree.outlineAt, h.label lone]
  | succ depth ih =>
    rw [World.outlineAt, Subtree.outlineAt, h.label lone, h.offspring lone, List.flatMap_map]
    exact congrArg _ (List.flatMap_congr fun k _ => ih (level + 1) (some k))

/-- **The outline.** Under a lone root, the printed tree is that of the subtree. -/
theorem Represents.outline (h : Represents F ctx w P) (lone : F.Lone) (depth : Int) :
    w.outline F.root depth = P.outline F.trunk.name ctx.kind depth := by
  rw [World.outline, Subtree.outline, ← h.outlineAt lone depth.toNat 0 none, Placement.nodeAt]

end World

end SceneGrammar

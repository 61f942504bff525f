/-
Teardown: destroying a node with everything under it, and deleting what a shape has generated.

The two call each other. `destroy n` first deletes what the shape on `n` has generated, then destroys the children,
then tells the listeners, then buries `n`; whoever objects, the work goes on and the first objection is reported at the
end. `clean s` empties the shape's list first and then deletes and destroys each node on it that is still alive;
objections turn into warnings.

Both take a bound on the nesting of calls (`teardownBound` is enough in a forest). Since a shape's list is emptied
before it is worked through, content that owns itself in a circle is torn down, too.
-/
import SceneGrammar.World.Basic

namespace SceneGrammar.World

variable {α κ σ : Type}

/-- the registrations of a node that is about to go: its shape's, and its appointment -/
def retire (w : World α κ σ) (n : NodeId) : World α κ σ :=
  match w.shapeOn? n with
  | none => w
  | some _ =>
    let w := w.unregister n
    { w with agenda := (w.agenda.cancel n).2 }

/-- the first objection of the listeners to the destruction of a node -/
def objection? (w : World α κ σ) (n : NodeId) : Option (Fault α) :=
  (w.node? n).bind fun x => w.listeners.findSome? (· x)

/-- tell the listeners that a node is about to be destroyed -/
def announce (w : World α κ σ) (n : NodeId) : World α κ σ := (w.retire n).note (.announced n)

/-- the name of the node that a shape stands on -/
def ownerName (w : World α κ σ) (s : ShapeId) : String :=
  (((w.shape? s).bind (·.node)).bind w.node?).map (·.name) |>.getD ""

/-- warn that a node on a shape's list was not torn down cleanly -/
def warnCleanup (w : World α κ σ) (s : ShapeId) (n : NodeId) : World α κ σ :=
  match w.node? n with
  | none => w
  | some x => w.warn (.cleanupFailed (w.ownerName s) n x.name x.alive)

/-- take the list of generated nodes away from a shape, leaving an empty one -/
def takeGenerated (w : World α κ σ) (s : ShapeId) : World α κ σ :=
  w.modifyShape s fun x => { x with generated := some [] }

/-- a shape whose content is deleted -/
def markCleared (w : World α κ σ) (s : ShapeId) : World α κ σ :=
  w.modifyShape s fun x => { x with state := .cleared }

mutual

/-- destroy a node; the first objection on the way -/
def destroyWithin : Nat → NodeId → World α κ σ → World α κ σ × Option (Fault α)
  | 0, _, w => (w, some .tooDeep)
  | depth + 1, n, w =>
    if w.isAlive n then
      let w := match w.shapeOn? n with
        | none => w
        | some s => cleanWithin depth s w
      let (w, fault) := (w.children n).foldl
        (fun (w, fault) c =>
          let (w, fault') := destroyWithin depth c w
          (w, fault <|> fault')) (w, none)
      let w := w.announce n
      let fault := fault <|> w.objection? n
      (w.bury n, fault)
    else (w, none)

/-- delete what a shape has generated -/
def cleanWithin : Nat → ShapeId → World α κ σ → World α κ σ
  | 0, _, w => w
  | depth + 1, s, w =>
    match (w.shape? s).bind (·.generated) with
    | none => w
    | some generated =>
      let w := generated.foldl
        (fun w n =>
          if w.isAlive n then
            let w := match w.shapeOn? n with
              | none => w
              | some t => cleanWithin depth t w
            match destroyWithin depth n w with
            | (w, none) => w
            | (w, some _) => w.warnCleanup s n
          else w) (w.takeGenerated s)
      w.markCleared s

end

/-- the number of nodes on all lists of generated nodes -/
def trackedCount (w : World α κ σ) : Nat :=
  w.shapes.foldl (fun n s => n + ((s.generated.map List.length).getD 0)) 0

/-- more nesting than any teardown in a forest can reach -/
def teardownBound (w : World α κ σ) : Nat := (w.trackedCount + 1) * (w.nodes.size + 3)

/-- destroy a node with its subtree and everything generated by shapes in it -/
def destroy (n : NodeId) : Act α κ σ Unit := fun w =>
  match w.destroyWithin w.teardownBound n with
  | (w, none) => .ok () w
  | (w, some fault) => .error fault w

/-- destroy nodes in turn; the first fault ends the work -/
def destroyAll : List NodeId → Act α κ σ Unit
  | [] => fun w => .ok () w
  | n :: ns => fun w =>
    match destroy n w with
    | .ok _ w => destroyAll ns w
    | .error fault w => .error fault w

/-- destroy every root; the first fault ends the work -/
def clearScene : Act α κ σ Unit := fun w => destroyAll w.roots w

/-- forget all appointments, destroy every root and then drop every registration -/
def clear : Act α κ σ Unit := fun w =>
  match clearScene { w with agenda := w.agenda.clear } with
  | .ok _ w => .ok () { w with bound := [] }
  | .error fault w => .error fault w

end SceneGrammar.World

/-
A planner: a world that keeps a diary instead of its agenda.

The operations and programs of a world are read here once more. What neither plans nor runs rules is done to the world
as it is (`lift`; the world's own agenda is not used), except that the bookings of nodes that end are cancelled.
Planning is done in the diary, and an advance removes the first booking due, again and again, and runs its rule if the
shape is alive (`drain`).

An advance ends when nothing is due any more, which may be never: a `Plan` is a partial function. Nothing else bounds it.
-/
import Mathlib.Data.PFun
import SceneGrammar.Proofs.Diary.Basic
import SceneGrammar.Proofs.Diary.Frames

namespace SceneGrammar

variable {α κ σ β γ : Type}

/-- a world and its diary -/
structure Planner (α κ σ : Type) where
  world : World α κ σ
  diary : Diary α

/-- how an act on a planner ends, and what planner it leaves -/
abbrev Planner.Result (α κ σ β : Type) : Type := EStateM.Result (Fault α) (Planner α κ σ) β

/-- what is done to a planner: it may fail, and it may go on for ever -/
abbrev Plan (α κ σ β : Type) : Type := Planner α κ σ →. Planner.Result α κ σ β

namespace Planner

/-- all that there is to see: the world, the clock and what is pending -/
def shown (p : Planner α κ σ) : World α κ σ :=
  p.world.rebook ⟨p.diary.now, #[], p.diary.table, p.diary.nextNumber⟩

/-- the diary after the end of some nodes -/
def cancelAll (p : Planner α κ σ) (dead : List NodeId) : Diary α :=
  dead.foldl (fun d n => if (p.world.shapeOn? n).isSome then d.cancel n else d) p.diary

/-- the planner after its world has become another one; the bookings of the nodes that have ended meanwhile go -/
def follow (p : Planner α κ σ) (v : World α κ σ) : Planner α κ σ :=
  ⟨v, p.cancelAll (endedIn (v.journal.toList.drop p.world.journal.size))⟩

/-- end with an answer -/
def answer (b : β) : Plan α κ σ β := fun p => .some (.ok b p)

/-- end with a fault -/
def fail (e : Fault α) : Plan α κ σ β := fun p => .some (.error e p)

/-- do something to the world -/
def lift (a : Act α κ σ β) : Plan α κ σ β := fun p =>
  match a p.world with
  | .ok b v => answer b (p.follow v)
  | .error e v => fail e (p.follow v)

/-- go on from an answer or a fault, if there is one -/
def resume (o : Part (Result α κ σ β)) (f : β → Plan α κ σ γ) (g : Fault α → Plan α κ σ γ) : Part (Result α κ σ γ) :=
  o.bind fun
    | .ok b p => f b p
    | .error e p => g e p

/-- expand a shape, given how rules are run -/
def runExpansion (expand : ShapeId → Plan α κ σ Unit) (s : ShapeId) : Plan α κ σ Unit := fun p =>
  resume (expand s { p with world := p.world.markExpanded s })
    (fun _ p => answer () { p with world := p.world.note (.finished s) }) fail

section

variable [SymbolKind κ]

/-- a symbol generated by another one; in an eager world it is expanded at once -/
def createSymbol (expand : ShapeId → Plan α κ σ Unit) (creator : ShapeId) (offer : KindOffer κ) (name : String)
    (parent : Option NodeId) (pose : Pose α) : Plan α κ σ ShapeId := fun p =>
  resume (lift (World.placeSymbol creator offer name parent pose) p)
    (fun s p => if p.world.eager then resume (runExpansion expand s p) (fun _ => answer s) fail else answer s p) fail

variable [Scalar α]

/-- plan an expansion of a shape -/
def schedule (s : ShapeId) (delay : α) : Plan α κ σ Unit := fun p =>
  if delay < Scalar.zero then fail (.negativeDelay delay) p
  else
    match p.world.nodeOf s with
    | .error e => fail e p
    | .ok n => answer () { p with diary := p.diary.schedule n s delay }

/-- drop what is booked for a shape and expand it, now or, in a live world, after a positive delay -/
def renew (expand : ShapeId → Plan α κ σ Unit) (s : ShapeId) (delay : α) : Plan α κ σ Unit := fun p =>
  match p.world.nodeOf s with
  | .error _ => fail (.noContext (p.world.typeName s)) p
  | .ok n =>
    let p := { p with diary := p.diary.cancel n }
    if delay == Scalar.zero || !p.world.live then runExpansion expand s p else schedule s delay p

/-- delete what a shape has generated and expand it again, now or later -/
def generate (expand : ShapeId → Plan α κ σ Unit) (s : ShapeId) (delay : α) : Plan α κ σ Unit := fun p =>
  if delay < Scalar.zero then fail (.negativeDelay delay) p
  else resume (lift (World.deleteGenerated s) p) (fun _ => renew expand s delay) fail

end

section

variable [Scalar α]

/-- remove the first booking due and run its rule if the shape is alive: what is left to do with the shapes expanded so
far, the last one first, or how it ends -/
def removeFirst (expand : ShapeId → Plan α κ σ Unit) :
    List ShapeId × Planner α κ σ →. Result α κ σ (List ShapeId) ⊕ List ShapeId × Planner α κ σ := fun (done, p) =>
  match p.diary.firstDue? with
  | none => .some (.inl (.ok done.reverse p))
  | some e =>
    let p := { p with diary := p.diary.cancel e.1 }
    if p.world.shapeAlive e.2.shape then
      (runExpansion expand e.2.shape p).map fun
        | .ok _ p => .inr (e.2.shape :: done, p)
        | .error fault p => .inl (.error fault p)
    else .some (.inr (done, p))

/-- remove the first booking due, again and again, until none is due; the shapes expanded, in order, behind those given
in reverse -/
def drain (expand : ShapeId → Plan α κ σ Unit) (done : List ShapeId) : Plan α κ σ (List ShapeId) := fun p =>
  PFun.fix (removeFirst expand) (done, p)

section

variable {expand : ShapeId → Plan α κ σ Unit} {done : List ShapeId} {p : Planner α κ σ}

/-- nothing is due -/
theorem drain_none (h : p.diary.firstDue? = none) : drain expand done p = answer done.reverse p := by
  refine Part.eq_some_iff.2 (PFun.fix_stop ?_)
  simp only [removeFirst, h]
  exact Part.mem_some _

variable {e : Σ _ : Nat, Booking α}

/-- the shape of the first booking due is not alive any more -/
theorem mem_removeFirst_dropped (h : p.diary.firstDue? = some e) (hdead : ¬ p.world.shapeAlive e.2.shape = true) :
    .inr (done, { p with diary := p.diary.cancel e.1 }) ∈ removeFirst expand (done, p) := by
  simp only [removeFirst, h, if_neg hdead]
  exact Part.mem_some _

theorem drain_dropped (h : p.diary.firstDue? = some e) (hdead : ¬ p.world.shapeAlive e.2.shape = true) :
    drain expand done p = drain expand done { p with diary := p.diary.cancel e.1 } :=
  PFun.fix_fwd_eq (mem_removeFirst_dropped h hdead)

/-- the shape of the first booking due is alive -/
theorem mem_removeFirst_run (h : p.diary.firstDue? = some e) (halive : p.world.shapeAlive e.2.shape = true)
    {x : Result α κ σ (List ShapeId) ⊕ List ShapeId × Planner α κ σ} : x ∈ removeFirst expand (done, p) ↔
      ∃ r ∈ runExpansion expand e.2.shape { p with diary := p.diary.cancel e.1 },
        (∃ q, r = .ok () q ∧ x = .inr (e.2.shape :: done, q)) ∨
          ∃ fault q, r = .error fault q ∧ x = .inl (.error fault q) := by
  simp only [removeFirst, h, if_pos halive, Part.mem_map_iff]
  refine exists_congr fun r => and_congr_right fun _ => ?_
  cases r with
  | ok u q => simp [eq_comm]
  | error fault q => simp [eq_comm]

theorem drain_run (h : p.diary.firstDue? = some e) (halive : p.world.shapeAlive e.2.shape = true) :
    drain expand done p = resume (runExpansion expand e.2.shape { p with diary := p.diary.cancel e.1 })
      (fun _ => drain expand (e.2.shape :: done)) fail := by
  refine Part.ext fun r => ?_
  rw [drain, PFun.mem_fix_iff, resume, Part.mem_bind_iff]
  constructor
  · rintro (hr | ⟨a, ha, hr⟩)
    · obtain ⟨r', hr', ⟨q, -, hq⟩ | ⟨fault, q, rfl, hq⟩⟩ := (mem_removeFirst_run h halive).1 hr
      · cases hq
      · cases hq
        exact ⟨_, hr', Part.mem_some _⟩
    · obtain ⟨r', hr', ⟨q, rfl, hq⟩ | ⟨fault, q, -, hq⟩⟩ := (mem_removeFirst_run h halive).1 ha
      · cases hq
        exact ⟨_, hr', hr⟩
      · cases hq
  · rintro ⟨r', hr', hr⟩
    cases r' with
    | ok u q => exact Or.inr ⟨_, (mem_removeFirst_run h halive).2 ⟨_, hr', Or.inl ⟨q, rfl, rfl⟩⟩, hr⟩
    | error fault q =>
      obtain rfl := Part.mem_some_iff.1 hr
      exact Or.inl ((mem_removeFirst_run h halive).2 ⟨_, hr', Or.inr ⟨fault, q, rfl, rfl⟩⟩)

end

/-- move the clock and run what is due -/
def advance (expand : ShapeId → Plan α κ σ Unit) (dt : α) : Plan α κ σ (List ShapeId) := fun p =>
  if dt < Scalar.zero then fail (.negativeStep dt) p else drain expand [] { p with diary := p.diary.tick dt }

variable [SymbolKind κ]

/-- perform an operation, given how rules are run -/
def perform (expand : ShapeId → Plan α κ σ Unit) : (o : Op α κ σ) → Plan α κ σ o.Answer
  | .clear => fun p => lift World.sweep { p with diary := p.diary.clear }
  | .createSymbol creator offer name parent pose => createSymbol expand creator offer name parent pose
  | .expand s => expand s
  | .generate s delay => generate expand s delay
  | .schedule s delay => schedule s delay
  | .cancel n => fun p => answer (p.diary.isPending n) { p with diary := p.diary.cancel n }
  | .advance dt => advance expand dt
  | .clearAgenda => fun p => answer () { p with diary := p.diary.clear }
  -- the others run no rule
  | o => lift (World.perform 0 (fun _ w => .ok () w) o)

end

end Planner

/-- run a program on a planner, given how rules are run -/
def Prog.plan [Scalar α] [SymbolKind κ] (expand : ShapeId → Plan α κ σ Unit) {β : Type} : Prog α κ σ β → Plan α κ σ β
  | .done b => Planner.answer b
  | .fail fault => Planner.fail fault
  | .look f next => fun p => (next (f p.shown)).plan expand p
  | .perform o next => fun p =>
    Planner.resume (Planner.perform expand o p) (fun x => (next x).plan expand) Planner.fail
  | .attempt body next => fun p =>
    Planner.resume (body.plan expand p) (fun x => (next (.ok x)).plan expand) fun e => (next (.error e)).plan expand

/-- run the rule of a shape on a planner, with rules nested at most the given number deep -/
def Grammar.planWithin [Scalar α] [SymbolKind κ] (g : Grammar α κ σ) : Nat → ShapeId → Plan α κ σ Unit
  | 0, _ => Planner.fail .tooDeep
  | depth + 1, s => fun p =>
    match p.world.shape? s with
    | none => Planner.answer () p
    | some x => (g.rule x.kind s).plan (g.planWithin depth) p

/-- run a program in a grammar on a planner -/
def Prog.runPlanned [Scalar α] [SymbolKind κ] (g : Grammar α κ σ) (p : Prog α κ σ β) : Plan α κ σ β :=
  p.plan (g.planWithin g.nesting)

end SceneGrammar

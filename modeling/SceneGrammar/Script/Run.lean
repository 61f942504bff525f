/-
Scripts and how they are run.

A script is a list of steps; each may keep its result under a name, and inside a rule each may depend on the number of
the shape at work. `grammar` gives a scripted kind the rule of its name. `stepSession` runs one step in a world and
tells what has come of it, also when it has failed.
-/
import SceneGrammar.Script.Engine
import SceneGrammar.Script.Symbol

namespace SceneGrammar.Script

/-- a step -/
inductive Step (α : Type) where
  | templates (s : TemplateStep α)
  | scene (s : SceneStep α)
  | symbol (s : SymbolStep α)
  | component (s : ComponentStep α)
  | world (s : WorldStep α)
  | engine (s : EngineStep α)

/-- when a step of a rule is run, by the number of the shape at work -/
inductive Guard where
  | always
  | positive
  | notPositive
  deriving DecidableEq, Repr

namespace Guard

/-- whether a number passes -/
def admits : Guard → Int → Bool
  | .always, _ => true
  | .positive, n => 0 < n
  | .notPositive, n => n ≤ 0

end Guard

/-- a step as it is written: under what condition it is run, and under what name its result is kept -/
structure Line (α : Type) where
  step : Step α
  keepAs : Option String
  guard : Guard

variable {α : Type} [Scalar α]

/-- the rules of a script by name -/
abbrev Rules (α : Type) := List (String × List (Line α))

/-- run a step; the shape whose rule is running, if one is, is what `self` means -/
def Step.run (spare : Nat) (self : Option ShapeId) : Step α → Routine α (Reply α × Handle α)
  | .templates s => do
    let r ← s.run
    return (r, .nothing)
  | .scene s => s.run self
  | .symbol s => s.run self
  | .component s => s.run self
  | .world s => s.run self
  | .engine s => s.run spare self

/-- run a step and keep its result -/
def Line.run (spare : Nat) (self : Option ShapeId) (l : Line α) : Routine α (Reply α) := do
  let (reply, handle) ← l.step.run spare self
  l.keepAs.forM fun name => remember (·.keep name handle)
  return reply

/-- run a step of a rule if its guard admits it, and put its reply on record -/
def Line.runInRule (spare : Nat) (self : ShapeId) (l : Line α) : Routine α Unit := do
  let n ← Prog.see fun w => countOf w self
  if l.guard.admits n then
    let reply ← l.run spare (some self)
    record reply

/-- the rules of all kinds -/
def rule (spare : Nat) (rules : Rules α) : Kind α → ShapeId → Routine α Unit
  | .city kind, self => City.rule .city kind self
  | .scripted name _, self =>
    match rules.lookup name with
    | some lines => lines.forM (Line.runInRule spare self)
    | none => Prog.fail (.unknownName name)

/-- the grammar of a script -/
def grammar (nesting spare : Nat) (rules : Rules α) : Grammar α (Kind α) (Memo α) :=
  { rule := rule spare rules, nesting, spare }

/-! ## Sessions -/

/-- what a session starts from -/
structure Setting (α : Type) where
  eager : Bool
  live : Bool
  /-- the seed of the source of roots that carry none -/
  ambientSeed : Int
  /-- the templates given -/
  library : TemplateLibrary α

/-- templates to try things out with -/
def basicLibrary : TemplateLibrary α := .ofList
  [.plain "cube" "", .plain "sphere" "", .plain "cone" "",
   { Template.plain "pillar" "Pillar" with
     parts := [{ Template.plain "cap" "Cap" with offset := City.at3 0 2 0 }] }]

/-- the world of a session; a library that holds something is the world's own -/
def Setting.world (s : Setting α) (entropy : Entropy) : World α (Kind α) (Memo α) :=
  let memo : Memo α := { Memo.empty with aside := if s.library.size = 0 then some s.library else none }
  { World.fresh entropy memo with
    eager := s.eager, live := s.live, sources := #[.ofSeed s.ambientSeed], templates := s.library
    listeners := [objector []] }

/-- what has come of a step -/
structure Outcome (α : Type) where
  result : Except (Fault α) (Reply α)
  /-- nodes destroyed, in the order in which their end was announced -/
  killed : List NodeId
  /-- replies of the steps of rules and reports of ticks, oldest first -/
  trace : List (Reply α)
  warnings : List Warning

/-- the nodes whose end a part of the journal announces -/
def announced (entries : List Entry) : List NodeId :=
  entries.filterMap fun
    | .announced n => some n
    | _ => none

/-- run one step of a session -/
def stepSession (g : Grammar α (Kind α) (Memo α)) (l : Line α) (w : World α (Kind α) (Memo α)) :
    Outcome α × World α (Kind α) (Memo α) :=
  let entries := w.journal.size
  let warnings := w.warnings.size
  let w := { w with user := { w.user with trace := [] } }
  let (result, w) : Except (Fault α) (Reply α) × World α (Kind α) (Memo α) :=
    match (l.run g.spare none).run g w with
    | .ok r w => (.ok r, w)
    | .error fault w => (.error fault, w)
  ({ result, killed := announced (w.journal.toList.drop entries), trace := w.user.trace.reverse
     warnings := w.warnings.toList.drop warnings }, w)

end SceneGrammar.Script

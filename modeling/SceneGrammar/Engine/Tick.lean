/-
Builds and ticks.

`build` resets or reseeds the trigger's source and regenerates its root. `start` makes the world live and fires the
start-up build. `tick` takes all waiting requests, builds once for each, advances the agenda and counts; it answers
whether ticks are left. `run` starts, ticks until none is left and stops, whatever happens.
-/
import SceneGrammar.Program

namespace SceneGrammar.Engine

variable {α κ σ : Type} [Scalar α] [SymbolKind κ]

/-! ## Triggers -/

/-- set up a trigger for a root; a missing source is the first one attached to the root -/
def makeTrigger (root : ShapeId) (source : Option SourceId) (buildOnStart : Bool) : Prog α κ σ Nat := do
  let found ← Prog.see fun w => World.firstSource? (w.componentsOf root)
  let desk ← Prog.see fun w => w.desk
  let t : Trigger := { root, source := source <|> found, buildOnStart, builds := 0 }
  Prog.act (.setDesk { desk with triggers := desk.triggers.push t })
  return desk.triggers.size

/-- the trigger of a number -/
def trigger (i : Nat) : Prog α κ σ Trigger :=
  Prog.ask fun w =>
    match w.desk.triggers[i]? with
    | some t => .ok t
    | none => .error .noLoop

/-- prepare the source of a trigger for a build -/
def prime (t : Trigger) (seed : Option Int) : Prog α κ σ Unit := do
  match t.source, seed with
  | some i, seed => Prog.act (.reseed i seed)
  | none, some seed => do
    let name ← Prog.ask fun w => w.nameOf t.root
    Prog.act (.warn (.seedIgnored seed name))
  | none, none => return

/-- build the root of a trigger once -/
def build (i : Nat) (delay : α) (seed : Option Int) : Prog α κ σ Unit := do
  let t ← trigger i
  prime t seed
  Prog.act (.generate t.root delay)
  let desk ← Prog.see fun w => w.desk
  Prog.act (.setDesk (desk.mapTrigger i fun t => { t with builds := t.builds + 1 }))

/-- build once if the trigger is to build at start -/
def startTrigger (i : Nat) : Prog α κ σ Unit := do
  let t ← trigger i
  if t.buildOnStart then build i Scalar.zero none

/-! ## The loop -/

/-- the loop in use -/
def loop : Prog α κ σ (Loop α) :=
  Prog.ask fun w =>
    match w.desk.loop with
    | some l => .ok l
    | none => .error .noLoop

/-- change the loop in use -/
def changeLoop (f : Loop α → Loop α) : Prog α κ σ Unit := do
  let desk ← Prog.see fun w => w.desk
  Prog.act (.setDesk (desk.mapLoop f))

/-- report something about a shape -/
def emit (s : ShapeId) (h : String → Happening α) : Prog α κ σ Unit := do
  let name ← Prog.ask fun w => w.nameOf s
  let n ← Prog.ask fun w => w.nodeOf s
  changeLoop (·.emit (h name) n)

/-- queue a request -/
def request (r : Request α) : Prog α κ σ Unit := changeLoop (·.request r)

/-- make the world live and build if the loop is to build at start -/
def start : Prog α κ σ Unit := do
  let l ← loop
  Prog.act (.setLive true)
  changeLoop fun l => { l with recent := [] }
  if l.config.buildOnStart then
    let t ← trigger l.trigger
    build l.trigger l.config.regenerateDelay none
    emit t.root .startUp

/-- let delays count no longer -/
def stop : Prog α κ σ Unit := Prog.act (.setLive false)

/-- build for one request and report it -/
def serve (t : Nat) (root : ShapeId) (r : Request α) : Prog α κ σ Unit := do
  build t r.delay r.seed
  emit root fun name => .regenerated name r.seed r.delay

/-- report a delayed expansion -/
def reportExpansion (s : ShapeId) : Prog α κ σ Unit := do
  let count ← Prog.see fun w => (w.generatedBy s).length
  emit s fun name => .expanded name count

/-- whether a loop that has finished a number of ticks has any left -/
def hasTicksLeft (maxTicks : Option Int) (tick : Nat) : Bool :=
  match maxTicks with
  | none => true
  | some m => (tick : Int) < m

/-- one tick of `dt` seconds, by default the loop's own; whether ticks are left -/
def tick (dt : Option α) : Prog α κ σ Bool := do
  let l ← loop
  changeLoop (·.drained)
  let t ← trigger l.trigger
  l.requests.forM (serve l.trigger t.root)
  let expanded ← Prog.act (.advance (dt.getD l.config.tickRate))
  expanded.forM reportExpansion
  changeLoop fun l => { l with tick := l.tick + 1 }
  let l ← loop
  return hasTicksLeft l.config.maxTicks l.tick

/-- tick until none is left, at most the given number of times, with a pause between two ticks unless it is refused;
the number of pauses -/
def tickOut (refused : Option PauseError) : Nat → Prog α κ σ Nat
  | 0 => .fail .tooLong
  | ticks + 1 => do
    if ← tick none then
      match refused with
      | some e => .fail (.pause e)
      | none => do
        let pauses ← tickOut refused ticks
        return pauses + 1
    else return 0

/-- start, tick until none is left, and stop, also after a fault; the seconds slept between ticks. A loop that does not
wait for the clock asks for no pauses. -/
def run (rule : PauseRule α) (realtime : Bool) (spare : Nat) : Prog α κ σ (List α) := do
  start
  let l ← loop
  let ticks := match l.config.maxTicks with
    | none => spare
    | some m => (m - l.tick).toNat + 1
  let refused := if realtime then rule l.config.tickRate else none
  let result : Except (Fault α) Nat ← Prog.attempt (tickOut refused ticks) .done
  stop
  match result with
  | .ok pauses => return if realtime then List.replicate pauses l.config.tickRate else []
  | .error fault => Prog.fail fault

end SceneGrammar.Engine

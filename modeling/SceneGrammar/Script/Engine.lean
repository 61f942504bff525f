/-
Steps on the world as a whole, on its agenda, and on triggers and the loop.

A script has one trigger in use, the one made last, and one loop. A loop keeps the trigger that was in use when it was
made. Nobody waits for a script: every pause that its loop asks for is taken at once.
-/
import SceneGrammar.Engine.Tick
import SceneGrammar.Script.Scene

namespace SceneGrammar.Script

/-- steps on the world and its agenda -/
inductive WorldStep (α : Type) where
  | setLive (live : Bool)
  | shapeAt (id : Option Int)
  | shapes
  | clear
  | schedule (on : Ref) (delay : α)
  | cancel (id : Int)
  | isPending (id : Int)
  | advance (dt : α)
  | clearAgenda

/-- steps on triggers and the loop -/
inductive EngineStep (α : Type) where
  | plant (config : Config α)
  | trigger (on : Ref) (source : Option Ref) (buildOnStart : Bool)
  | startTrigger
  | build (r : Request α)
  | triggerInfo
  /-- a loop around the trigger in use, with a log of some capacity if it is to keep one -/
  | loop (config : Config α) (capacity : Option Int)
  | start
  | stop
  | request (r : Request α)
  | tick (dt : Option α)
  /-- start, tick until no tick is left, and stop -/
  | runOut (realtime : Bool)
  | loopInfo
  | eventsSince (tick : Int)
  | latestEvents (count : Int)

variable {α : Type} [Scalar α]

namespace WorldStep

/-- run a step on the world or its agenda -/
def run (self : Option ShapeId) : WorldStep α → Routine α (Reply α × Handle α)
  | .setLive live => do
    Prog.act (.setLive live)
    return (.nothing, .nothing)
  | .shapeAt id => do
    let found ← Prog.see fun w => (id.bind idOf?).bind fun n => (w.registered? n).map fun s => (n, s)
    match found with
    | none => return (.nothing, .nothing)
    | some (_, s) => do
      let n ← Prog.ask fun w => w.nodeOf s
      return (.id n, .shape s)
  | .shapes => do
    let l ← Prog.ask fun w => w.bound.mapM fun (_, s) => w.nodeOf s
    return (.ids l, .nothing)
  | .clear => do
    Prog.act .clear
    return (.nothing, .nothing)
  | .schedule on delay => do
    let s ← shapeOf self on
    Prog.act (.schedule s delay)
    return (.nothing, .nothing)
  | .cancel id =>
    match idOf? id with
    | none => return (.flag false, .nothing)
    | some n => do
      let b ← Prog.act (.cancel n)
      return (.flag b, .nothing)
  | .isPending id => do
    let b ← Prog.see fun w => (idOf? id).any w.agenda.isPending
    return (.flag b, .nothing)
  | .advance dt => do
    let l ← Prog.act (.advance dt)
    let ns ← Prog.ask fun w => l.mapM w.nodeOf
    return (.ids ns, .nothing)
  | .clearAgenda => do
    Prog.act .clearAgenda
    return (.nothing, .nothing)

end WorldStep

namespace EngineStep

/-- the trigger in use -/
def current : Routine α Nat :=
  Prog.ask fun w =>
    match w.user.trigger with
    | some i => .ok i
    | none => .error .noLoop

/-- the log of a new loop -/
def newLog : Option Int → Except (Fault α) (Option (Ring (Event α)))
  | none => .ok none
  | some n =>
    match Ring.ofCapacity? n with
    | none => .error (.negativeCapacity n)
    | some log => .ok (some log)

/-- report the events of the current tick -/
def reportTick : Routine α Unit := do
  let recent ← Prog.see fun w => (w.desk.loop.map (·.recent)).getD []
  recent.forM fun e => record (.report e)

/-- what the loop tells about itself -/
def viewLoop : Routine α (LoopView α) := do
  let l ← Engine.loop
  let t ← Engine.trigger l.trigger
  let live ← Prog.see fun w => w.live
  return ⟨l.tick, live, t.builds, l.requests.isEmpty, l.recent⟩

/-- the events that the log of the loop holds, as chosen -/
def selected (f : Ring (Event α) → List (Event α)) : Routine α (List (Event α)) := do
  let l ← Engine.loop
  return (l.log.map f).getD []

/-- run a step on triggers or the loop; `spare` bounds the ticks of a loop that has no bound of its own -/
def run (spare : Nat) (self : Option ShapeId) : EngineStep α → Routine α (Reply α × Handle α)
  | .plant config => do
    let number ← Prog.see fun w => w.user.reliefs
    remember fun k => { k with reliefs := k.reliefs + 1 }
    let s ← Catalogue.build .city config number
    let n ← Prog.ask fun w => w.nodeOf s
    return (.id n, .shape s)
  | .trigger on source buildOnStart => do
    let s ← shapeOf self on
    let source ← match source with
      | none => pure none
      | some r => do
        let i ← Script.sourceOf self r
        pure (some i)
    let i ← Engine.makeTrigger s source buildOnStart
    remember fun k => { k with trigger := some i }
    return (.nothing, .nothing)
  | .startTrigger => do
    let i ← current
    Engine.startTrigger i
    return (.nothing, .nothing)
  | .build r => do
    let i ← current
    Engine.build i r.delay r.seed
    return (.nothing, .nothing)
  | .triggerInfo => do
    let i ← current
    let t ← Engine.trigger i
    let n ← Prog.ask fun w => w.nodeOf t.root
    let source ← Prog.see fun w => t.source.bind fun j => w.sources[j]?
    return (.trigger n source t.builds, .nothing)
  | .loop config capacity => do
    let i ← current
    let log ← Prog.ofExcept (newLog capacity)
    let desk ← Prog.see fun w => w.desk
    Prog.act (.setDesk { desk with loop := some (.fresh config i log) })
    return (.nothing, .nothing)
  | .start => do
    Engine.start
    return (.nothing, .nothing)
  | .stop => do
    Engine.stop
    return (.nothing, .nothing)
  | .request r => do
    Engine.request r
    return (.nothing, .nothing)
  | .tick dt => do
    let result : Except (Fault α) Bool ← Prog.attempt (Engine.tick dt) .done
    reportTick
    let more ← Prog.ofExcept result
    return (.flag more, .nothing)
  | .runOut realtime => do
    let slept ← Engine.run .granted realtime spare
    return (.reals slept, .nothing)
  | .loopInfo => do
    let v ← viewLoop
    return (.loop v, .nothing)
  | .eventsSince t => do
    let l ← selected (·.since (fun e => (e.tick : Int)) t)
    return (.events l, .nothing)
  | .latestEvents count => do
    let l ← selected (·.latest count)
    return (.events l, .nothing)

end EngineStep

end SceneGrammar.Script

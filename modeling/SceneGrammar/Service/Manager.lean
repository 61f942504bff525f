/-
The manager: one configured grammar, a loop around it, and a background thread that ticks it.

The thread is modelled by its turns: it runs one when it is started, and one more whenever its pause is over, unless it
has been stopped meanwhile. A turn ticks the loop, publishes a snapshot and asks for a pause. A thread whose loop has no
ticks left ends and clears `running`; one whose tick fails, or whose pause is refused, dies and does not.
-/
import SceneGrammar.Catalogue
import SceneGrammar.Engine.Tick
import SceneGrammar.World.Report

namespace SceneGrammar

/-- where the background thread stands between turns -/
inductive ThreadState where
  | absent
  /-- in the pause after a turn -/
  | parked
  /-- ended by itself or by a fault -/
  | ended
  deriving DecidableEq, Repr

/-- a grammar under management -/
structure Manager (α : Type) where
  config : Config α
  world : World α (City.Kind α) Unit
  root : ShapeId
  snapshot : Option (TreeSnapshot α)
  running : Bool
  thread : ThreadState
  tickRate : α

namespace Manager

variable {α : Type} [Scalar α]

/-- the number of events that the log keeps -/
def logCapacity : Nat := 1000

/-- a world with the configured root and a loop around it, started -/
def setUp (config : Config α) : Prog α (City.Kind α) Unit ShapeId := do
  let root ← Catalogue.build id config 0
  let trigger ← Engine.makeTrigger root none config.buildOnStart
  let desk ← Prog.see fun w => w.desk
  Prog.act (.setDesk { desk with loop := some (.fresh config trigger (some (.empty logCapacity))) })
  Engine.start
  return root

/-- the world that a set-up starts from -/
def blank (config : Config α) (entropy : Entropy) : World α (City.Kind α) Unit :=
  { World.fresh entropy () with eager := config.eager }

/-- the loop in use -/
def loop? (m : Manager α) : Option (Loop α) := m.world.desk.loop

/-- finished builds -/
def builds (m : Manager α) : Nat :=
  ((m.loop?.bind fun l => m.world.desk.triggers[l.trigger]?).map (·.builds)).getD 0

/-- finished ticks -/
def tick (m : Manager α) : Nat := (m.loop?.map (·.tick)).getD 0

/-- the log of events -/
def events (m : Manager α) : Ring (Event α) := (m.loop?.bind (·.log)).getD (.empty logCapacity)

/-- the seed in force -/
def seed (m : Manager α) : Int :=
  (((m.loop?.bind fun l => m.world.desk.triggers[l.trigger]?).bind (·.source)).bind fun i =>
    m.world.sources[i]?).map (·.seed) |>.getD 0

/-- the node of the root -/
def rootNode (m : Manager α) : NodeId := ((m.world.shape? m.root).bind (·.node)).getD 0

/-- take a snapshot of the tree and put it out -/
def publish (m : Manager α) : Manager α :=
  { m with snapshot := some (m.world.snapshot m.rootNode m.tick m.seed) }

/-- the manager of a configuration, stopped; the world is kept also when the set-up fails -/
def create (g : Grammar α (City.Kind α) Unit) (config : Config α) (entropy : Entropy) :
    Except (Fault α) (Manager α) :=
  match (setUp config).run g (blank config entropy) with
  | .ok root world =>
    let m : Manager α :=
      { config, world, root, snapshot := none, running := false, thread := .absent, tickRate := config.tickRate }
    .ok m.publish
  | .error fault _ => .error fault

/-- what is done to a manager -/
abbrev Act (α : Type) := EStateM (Fault α) (Manager α)

/-- queue a build for the next tick -/
def regenerate (r : Request α) : Act α Unit := fun m =>
  if r.delay < Scalar.zero then .error (.negativeDelay r.delay) m
  else
    match m.loop? with
    | none => .error .noLoop m
    | some _ => .ok () { m with world := { m.world with desk := m.world.desk.mapLoop (·.request r) } }

/-- tick the loop and publish; whether ticks are left -/
def tickAndPublish (g : Grammar α (City.Kind α) Unit) (dt : Option α) : Act α Bool := fun m =>
  match (Engine.tick dt).run g m.world with
  | .ok more world => .ok more { m with world }.publish
  | .error fault world => .error fault { m with world }

/-- one tick on the caller's account, refused while the loop runs -/
def step (g : Grammar α (City.Kind α) Unit) (dt : Option α) : Act α Bool := fun m =>
  if m.running then .error .stepWhileRunning m else tickAndPublish g dt m

/-- one turn of the background thread, which asks for a pause of what is left of the tick's time -/
def turn (g : Grammar α (City.Kind α) Unit) (p : Pacing α) (m : Manager α) : Manager α :=
  match tickAndPublish g (some m.tickRate) m with
  | .ok true m =>
    match p.refusal m.tickRate with
    | none => { m with thread := .parked }
    | some _ => { m with thread := .ended }
  | .ok false m => { m with thread := .ended, running := false }
  | .error _ m => { m with thread := .ended }

/-- start the background thread; nothing happens while it is running -/
def start (g : Grammar α (City.Kind α) Unit) (p : Pacing α) (m : Manager α) : Manager α :=
  if m.running then m else turn g p { m with running := true }

/-- stop the background thread -/
def stop (m : Manager α) : Manager α := { m with running := false, thread := .absent }

/-- the pause of the background thread is over -/
def wake (g : Grammar α (City.Kind α) Unit) (p : Pacing α) (m : Manager α) : Manager α :=
  match m.thread with
  | .parked => turn g p m
  | _ => m

/-- stop, tear the world down and set up another one from the configuration -/
def reset (g : Grammar α (City.Kind α) Unit) : Act α Unit := fun m =>
  let m := m.stop
  match World.clear m.world with
  | .error fault world => .error fault { m with world }
  | .ok _ world =>
    match (setUp m.config).run g (blank m.config world.entropy) with
    | .ok root world => .ok () { m with world, root }.publish
    | .error fault world => .error fault { m with world }

/-- set the seconds between ticks, within a hundredth and two -/
def setTickRate (m : Manager α) (seconds : α) : Manager α :=
  { m with tickRate := Scalar.greatest 0.01 (Scalar.least seconds (Scalar.ofInt 2)) }

/-- the tick of the snapshot in force -/
def publishedTick (m : Manager α) : Int := (m.snapshot.map (·.tick)).getD 0

end Manager

end SceneGrammar

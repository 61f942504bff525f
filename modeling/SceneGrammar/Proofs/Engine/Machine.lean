/-
The machine that an engine amounts to.

`Machine`: a clock, the seed in force, the time for which an expansion is planned, what the tree shows, and the requests
that wait for the next tick. `Machine.handle` serves one request, `Machine.advance` is one tick.

`Manager.obey` does what a caller or the background thread does to a manager, and `Call.events` says what that is to the
machine. `Manager.follow` takes both along. `Manager.tree` is what a fresh engine shows after one build under a seed, and
`Manager.Refines` the statement that whatever is called, a manager's snapshot shows the machine.
-/
import SceneGrammar.Proofs.Growth.Snapshot
import SceneGrammar.Service.Manager

namespace SceneGrammar

/-- an engine, apart from its tree -/
structure Machine (α : Type) where
  /-- ticks finished -/
  tick : Nat
  clock : α
  seed : Int
  /-- when the planned expansion is due -/
  due : Option α
  /-- the seed of the tree that is there -/
  content : Option Int
  queue : List (Request α)

/-- what happens to a machine -/
inductive Machine.Event (α : Type) where
  | request (r : Request α)
  | tick (dt : α)

namespace Machine

variable {α : Type} [Scalar α]

/-- serve one request: build at once, or plan it and leave nothing -/
def handle (m : Machine α) (r : Request α) : Machine α :=
  let seed := r.seed.getD m.seed
  if r.delay == Scalar.zero then { m with seed, due := none, content := some seed }
  else { m with seed, due := some (m.clock + r.delay), content := none }

/-- do the planned expansion if it is due -/
def settle (m : Machine α) : Machine α :=
  match m.due with
  | none => m
  | some d => if d ≤ m.clock then { m with due := none, content := some m.seed } else m

/-- move the clock -/
def elapse (m : Machine α) (dt : α) : Machine α := settle { m with clock := m.clock + dt }

@[simp] theorem handle_tick (m : Machine α) (r : Request α) : (m.handle r).tick = m.tick := by
  unfold handle
  split_ifs <;> rfl

@[simp] theorem handle_queue (m : Machine α) (r : Request α) : (m.handle r).queue = m.queue := by
  unfold handle
  split_ifs <;> rfl

theorem settle_cases (m : Machine α) : m.settle = m ∨ m.settle = { m with due := none, content := some m.seed } := by
  unfold settle
  cases m.due with
  | none => exact Or.inl rfl
  | some d =>
    simp only
    split_ifs
    · exact Or.inr rfl
    · exact Or.inl rfl

@[simp] theorem elapse_tick (m : Machine α) (dt : α) : (m.elapse dt).tick = m.tick := by
  rcases settle_cases { m with clock := m.clock + dt } with h | h <;> rw [elapse, h]

@[simp] theorem elapse_queue (m : Machine α) (dt : α) : (m.elapse dt).queue = m.queue := by
  rcases settle_cases { m with clock := m.clock + dt } with h | h <;> rw [elapse, h]

/-- one tick: serve what waits, first come first served, and move the clock -/
def advance (m : Machine α) (dt : α) : Machine α :=
  let served := (m.queue.foldl handle { m with queue := [] }).elapse dt
  { served with tick := served.tick + 1 }

theorem foldl_handle (rs : List (Request α)) (m : Machine α) :
    (rs.foldl handle m).tick = m.tick ∧ (rs.foldl handle m).queue = m.queue := by
  induction rs generalizing m with
  | nil => exact ⟨rfl, rfl⟩
  | cons r rs ih =>
    obtain ⟨htick, hqueue⟩ := ih (m.handle r)
    exact ⟨htick.trans (handle_tick m r), hqueue.trans (handle_queue m r)⟩

@[simp] theorem advance_tick (m : Machine α) (dt : α) : (m.advance dt).tick = m.tick + 1 := by
  rw [advance, elapse_tick, (foldl_handle _ _).1]

@[simp] theorem advance_queue (m : Machine α) (dt : α) : (m.advance dt).queue = [] := by
  rw [advance, elapse_queue, (foldl_handle _ _).2]

/-- one event -/
def step (m : Machine α) : Event α → Machine α
  | .request r => { m with queue := m.queue ++ [r] }
  | .tick dt => m.advance dt

/-- nothing has happened yet -/
def idle (seed : Int) : Machine α :=
  { tick := 0, clock := Scalar.zero, seed, due := none, content := none, queue := [] }

/-- the machine of an engine that has just been set up -/
def start (config : Config α) : Machine α :=
  if config.buildOnStart then (idle config.seed).handle ⟨config.regenerateDelay, none⟩ else idle config.seed

end Machine

namespace Manager

variable {α : Type}

/-- what is done to a manager from outside, and the end of a pause of its thread; each turn of the thread has a pacing of its own -/
inductive Call (α : Type) where
  | regenerate (r : Request α)
  | step (dt : Option α)
  | start (p : Pacing α)
  | wake (p : Pacing α)
  | stop

variable [Scalar α]

/-- a delay and a step that do not go back, and a seed that stands for itself -/
def Call.Fair : Call α → Prop
  | .regenerate r => ¬ r.delay < Scalar.zero ∧ r.seed ≠ some 0
  | .step dt => ∀ x, dt = some x → ¬ x < Scalar.zero
  | _ => True

/-- do what is called for; what is refused changes nothing more -/
def obey (g : Grammar α (City.Kind α) Unit) (m : Manager α) : Call α → Manager α
  | .regenerate r =>
    match m.regenerate r with
    | .ok _ m => m
    | .error _ m => m
  | .step dt =>
    match m.step g dt with
    | .ok _ m => m
    | .error _ m => m
  | .start p => m.start g p
  | .wake p => m.wake g p
  | .stop => m.stop

/-- what a call is to the machine: a step is refused while the thread runs, and the thread ticks when it is started and
after each pause -/
def Call.events (m : Manager α) : Call α → List (Machine.Event α)
  | .regenerate r => [.request r]
  | .step dt => if m.running then [] else [.tick (dt.getD m.config.tickRate)]
  | .start _ => if m.running then [] else [.tick m.tickRate]
  | .wake _ => if m.thread = .parked then [.tick m.tickRate] else []
  | .stop => []

/-- a manager and its machine after a call -/
def follow (g : Grammar α (City.Kind α) Unit) (p : Manager α × Machine α) (c : Call α) : Manager α × Machine α :=
  (p.1.obey g c, (c.events p.1).foldl Machine.step p.2)

/-- what the snapshot in force shows below its root -/
def shown (m : Manager α) : List (NodeSnapshot α) := (m.snapshot.map TreeSnapshot.content).getD []

/-- what a fresh engine shows after one build under a seed -/
def tree (g : Grammar α (City.Kind α) Unit) (config : Config α) (seed : Int) : List (NodeSnapshot α) :=
  match create g { config with buildOnStart := false } ⟨fun _ => 0, 0⟩ with
  | .ok m => ((m.obey g (.regenerate ⟨Scalar.zero, some seed⟩)).obey g (.step (some Scalar.zero))).shown
  | .error _ => []

/-- the snapshot in force shows a machine -/
structure Displays (g : Grammar α (City.Kind α) Unit) (config : Config α) (m : Manager α) (x : Machine α) : Prop where
  snapshot : ∃ t, m.snapshot = some t ∧ t.tick = x.tick ∧ t.seed = x.seed ∧ t.pending = x.due.toList.length
  content : m.shown = (x.content.map (tree g config)).getD []

/-- an engine can be set up, and whatever is called then, its snapshot shows the machine -/
def Refines (g : Grammar α (City.Kind α) Unit) (config : Config α) : Prop :=
  ∀ entropy, ∃ m, create g config entropy = .ok m ∧ ∀ calls : List (Call α), (∀ c ∈ calls, c.Fair) →
    let p := calls.foldl (follow g) (m, Machine.start config)
    p.1.Displays g config p.2

end Manager

end SceneGrammar

/-
Whether the running flag of a manager tells the truth about its background thread.

`Honest`: the manager is marked as running just when a thread has been started and has not ended. A thread that is
stopped, or whose loop has no ticks left, takes its mark along. A thread whose turn fails does not, be it that the tick
fails or that the system refuses the pause after it (`Falls`): the manager is `Stuck`, marked as running with nothing that
runs.

`play` is one event in the life of a manager: a call, a reset, or the start of a thread that has not ticked yet.
`Honest.play` and `Stuck.play` say what one event does, `flag_after` what a run of them does, and `flag_truthful_iff`
puts it together: the flag is right until a turn of the thread fails, and again after the next stop or reset. In
between nothing can be started and no step is taken.
-/
import SceneGrammar.Proofs.Engine.Machine
import SceneGrammar.Proofs.Exact

namespace SceneGrammar.Manager

variable {α : Type}

/-! ## Events -/

/-- an event in the life of a manager -/
inductive Move (α : Type) where
  | call (c : Call α)
  /-- the thread is started, and has not ticked yet -/
  | launch
  | reset

/-- an event that leaves no thread behind -/
def Move.Settles : Move α → Prop
  | .call .stop => True
  | .reset => True
  | _ => False

/-- a thread that has not ticked yet; nothing happens while one is marked as running -/
def launch (m : Manager α) : Manager α := if m.running then m else { m with running := true, thread := .parked }

/-- the manager is marked as running just when its thread has been started and has not ended -/
def Honest (m : Manager α) : Prop := m.running = true ↔ m.thread = .parked

/-- the thread has ended and the manager is still marked as running -/
def Stuck (m : Manager α) : Prop := m.running = true ∧ m.thread = .ended

theorem Honest.of_eq {m m' : Manager α} (h : Honest m) (hr : m'.running = m.running) (ht : m'.thread = m.thread) :
    Honest m' := by rwa [Honest, hr, ht]

theorem Stuck.of_eq {m m' : Manager α} (h : Stuck m) (hr : m'.running = m.running) (ht : m'.thread = m.thread) :
    Stuck m' := by rwa [Stuck, hr, ht]

theorem honest_of_idle {m : Manager α} (hr : m.running = false) (ht : m.thread = .absent) : Honest m := by
  simp [Honest, hr, ht]

theorem Stuck.not_honest {m : Manager α} (h : Stuck m) : ¬ Honest m := by
  intro hm
  have hparked := hm.1 h.1
  rw [h.2] at hparked
  cases hparked

variable [Scalar α]

/-- what an event does; a reset that fails has stopped the thread all the same -/
def play (g : Grammar α (City.Kind α) Unit) (m : Manager α) : Move α → Manager α
  | .call c => m.obey g c
  | .launch => m.launch
  | .reset =>
    match m.reset g with
    | .ok _ m => m
    | .error _ m => m

/-- the next turn of the thread fails: its tick does, or ticks are left and the pause that it asks for is refused -/
def Falls (g : Grammar α (City.Kind α) Unit) (p : Pacing α) (m : Manager α) : Prop :=
  (∃ e v, tickAndPublish g (some m.tickRate) m = .error e v) ∨
    (∃ v, tickAndPublish g (some m.tickRate) m = .ok true v) ∧ (p.refusal m.tickRate).isSome = true

/-- the thread takes a turn at an event, and the turn fails -/
def Move.Kills (g : Grammar α (City.Kind α) Unit) (m : Manager α) : Move α → Prop
  | .call (.start p) => m.running = false ∧ Falls g p m.launch
  | .call (.wake p) => m.thread = .parked ∧ Falls g p m
  | _ => False

/-- at some event a turn of the thread fails, and nothing settles it afterwards -/
def Perishes (g : Grammar α (City.Kind α) Unit) : Manager α → List (Move α) → Prop
  | _, [] => False
  | m, d :: moves => (d.Kills g m ∧ ∀ e ∈ moves, ¬ e.Settles) ∨ Perishes g (m.play g d) moves

/-! ## One event -/

section

variable {g : Grammar α (City.Kind α) Unit} {m : Manager α}

/-- a thread is started and takes its first turn -/
theorem start_eq (h : m.running = false) (p : Pacing α) : m.start g p = m.launch.wake g p := by
  have hlaunch : m.launch = { m with running := true, thread := .parked } := by simp [launch, h]
  rw [hlaunch, start, h]
  simp only [Bool.false_eq_true, if_false, wake, turn, tickAndPublish]
  rcases (Engine.tick (some m.tickRate)).run g m.world with ⟨_ | _, w⟩ | ⟨e, w⟩
  · rfl
  · simp only [publish]
    cases p.refusal m.tickRate <;> rfl
  · rfl

theorem start_of_running (h : m.running = true) (p : Pacing α) : m.start g p = m ∧ m.launch = m := by
  simp [start, launch, h]

/-- a turn ends in the pause after it, with the thread and its mark gone, or with the thread gone alone -/
theorem turn_flag (h : m.running = true) (p : Pacing α) :
    (¬ Falls g p m → Honest (m.turn g p)) ∧ (Falls g p m → Stuck (m.turn g p)) := by
  unfold Falls turn tickAndPublish
  rcases (Engine.tick (some m.tickRate)).run g m.world with ⟨_ | _, w⟩ | ⟨e, w⟩
  · simp [Honest]
  · simp only [publish]
    cases p.refusal m.tickRate with
    | none => simp [Honest, h]
    | some e => simp [Stuck, h]
  · simp [Stuck, h]

theorem obey_regenerate_flag (r : Request α) :
    (m.obey g (.regenerate r)).running = m.running ∧ (m.obey g (.regenerate r)).thread = m.thread := by
  unfold obey regenerate
  by_cases hd : r.delay < Scalar.zero
  · simp [hd]
  · cases m.loop? <;> simp [hd]

theorem obey_step_flag (dt : Option α) :
    (m.obey g (.step dt)).running = m.running ∧ (m.obey g (.step dt)).thread = m.thread := by
  simp only [obey, step, tickAndPublish]
  split_ifs
  · exact ⟨rfl, rfl⟩
  · rcases (Engine.tick dt).run g m.world with ⟨more, w⟩ | ⟨e, w⟩ <;> exact ⟨rfl, rfl⟩

/-- a thread that has been stopped for good leaves no mark -/
theorem settles_flag {d : Move α} (h : d.Settles) : Honest (m.play g d) := by
  match d, h with
  | .call .stop, _ => exact honest_of_idle rfl rfl
  | .reset, _ =>
    simp only [play, reset]
    rcases World.clear m.stop.world with ⟨_, v⟩ | ⟨e, v⟩
    · simp only
      rcases (setUp m.stop.config).run g (blank m.stop.config v.entropy) with ⟨root, w⟩ | ⟨e, w⟩ <;>
        exact honest_of_idle rfl rfl
    · exact honest_of_idle rfl rfl

/-- **One event.** The flag stays right unless the thread dies of a turn. -/
theorem Honest.play (h : Honest m) (d : Move α) :
    (¬ d.Kills g m → Honest (m.play g d)) ∧ (d.Kills g m → Stuck (m.play g d)) := by
  match d with
  | .call (.regenerate r) =>
    obtain ⟨hr, ht⟩ := obey_regenerate_flag (g := g) (m := m) r
    exact ⟨fun _ => h.of_eq hr ht, False.elim⟩
  | .call (.step dt) =>
    obtain ⟨hr, ht⟩ := obey_step_flag (g := g) (m := m) dt
    exact ⟨fun _ => h.of_eq hr ht, False.elim⟩
  | .call .stop => exact ⟨fun _ => settles_flag trivial, False.elim⟩
  | .reset => exact ⟨fun _ => settles_flag trivial, False.elim⟩
  | .launch =>
    refine ⟨fun _ => ?_, False.elim⟩
    simp only [Manager.play]
    cases hr : m.running with
    | true => rwa [(start_of_running (g := g) hr .instant).2]
    | false => simp [launch, hr, Honest]
  | .call (.start p) =>
    simp only [Manager.play, obey, Move.Kills]
    cases hr : m.running with
    | true => simpa [start_of_running hr] using h
    | false =>
      have hthread : m.launch.thread = .parked := by simp [launch, hr]
      have hturn : m.start g p = m.launch.turn g p := by
        rw [start_eq hr, wake, hthread]
      have hflag := turn_flag (g := g) (m := m.launch) (by simp [launch, hr]) p
      rw [hturn]
      exact ⟨fun hk => hflag.1 fun hf => hk ⟨rfl, hf⟩, fun hk => hflag.2 hk.2⟩
  | .call (.wake p) =>
    simp only [Manager.play, obey, Move.Kills, wake]
    cases ht : m.thread with
    | absent => simpa [ht] using h
    | ended => simpa [ht] using h
    | parked =>
      have hflag := turn_flag (g := g) (h.2 ht) p
      exact ⟨fun hk => hflag.1 fun hf => hk ⟨rfl, hf⟩, fun hk => hflag.2 hk.2⟩

/-- **One event after a death.** Nothing ticks, and only a stop or a reset helps. -/
theorem Stuck.play (h : Stuck m) {d : Move α} (hd : ¬ d.Settles) : Stuck (m.play g d) := by
  match d with
  | .call (.regenerate r) =>
    obtain ⟨hr, ht⟩ := obey_regenerate_flag (g := g) (m := m) r
    exact h.of_eq hr ht
  | .call (.step dt) =>
    obtain ⟨hr, ht⟩ := obey_step_flag (g := g) (m := m) dt
    exact h.of_eq hr ht
  | .call .stop => exact absurd trivial hd
  | .reset => exact absurd trivial hd
  | .launch => rwa [Manager.play, (start_of_running (g := g) h.1 .instant).2]
  | .call (.start p) => rwa [Manager.play, obey, (start_of_running h.1 p).1]
  | .call (.wake _) => rwa [Manager.play, obey, wake, h.2]

theorem Stuck.not_kills (h : Stuck m) (d : Move α) : ¬ d.Kills g m := by
  match d with
  | .call (.start _) => exact fun hk => absurd h.1 (by simp [hk.1])
  | .call (.wake _) => exact fun hk => absurd h.2 (by simp [hk.1])
  | .call (.regenerate _) | .call (.step _) | .call .stop | .launch | .reset => exact False.elim

end

/-! ## Runs -/

/-- a run that starts with a right flag ends with a wrong one just if the thread perishes; one that starts with a wrong
flag, just if the thread perishes again or nothing settles its death -/
theorem flag_after (g : Grammar α (City.Kind α) Unit) (moves : List (Move α)) : ∀ m : Manager α,
    (Honest m → (Perishes g m moves → Stuck (moves.foldl (play g) m)) ∧
      (¬ Perishes g m moves → Honest (moves.foldl (play g) m))) ∧
    (Stuck m → ((∀ e ∈ moves, ¬ e.Settles) ∨ Perishes g m moves → Stuck (moves.foldl (play g) m)) ∧
      (¬ ((∀ e ∈ moves, ¬ e.Settles) ∨ Perishes g m moves) → Honest (moves.foldl (play g) m))) := by
  induction moves with
  | nil => exact fun m => ⟨fun h => ⟨False.elim, fun _ => h⟩, fun h => ⟨fun _ => h, fun hn => absurd (Or.inl (by simp)) hn⟩⟩
  | cons d moves ih =>
    intro m
    obtain ⟨ihHonest, ihStuck⟩ := ih (m.play g d)
    refine ⟨fun h => ?_, fun h => ?_⟩
    · by_cases hk : d.Kills g m
      · have hrun := ihStuck ((h.play d).2 hk)
        simpa only [Perishes, List.foldl_cons, hk, true_and] using hrun
      · have hrun := ihHonest ((h.play d).1 hk)
        simpa only [Perishes, List.foldl_cons, hk, false_and, false_or] using hrun
    · have hk : ¬ d.Kills g m := h.not_kills d
      by_cases hd : d.Settles
      · have hrun := ihHonest (settles_flag hd)
        simpa only [Perishes, List.foldl_cons, List.forall_mem_cons, hk, hd, not_true_eq_false, false_and, false_or]
          using hrun
      · have hrun := ihStuck (h.play hd)
        simpa only [Perishes, List.foldl_cons, List.forall_mem_cons, hk, hd, not_false_eq_true, true_and, false_and,
          false_or] using hrun

/-- a manager that has just been set up has no thread -/
theorem create_idle {g : Grammar α (City.Kind α) Unit} {config : Config α} {entropy : Entropy} {m : Manager α}
    (h : create g config entropy = .ok m) : m.running = false ∧ m.thread = .absent := by
  unfold create at h
  cases hrun : (setUp config).run g (blank config entropy) with
  | ok root w =>
    rw [hrun] at h
    obtain rfl := Except.ok.inj h
    exact ⟨rfl, rfl⟩
  | error e w =>
    rw [hrun] at h
    cases h

/-- **The flag.** Whatever happens to a manager after it was set up, and whatever its rules do:
- a thread that has been started and has not ended is told of;
- the flag tells the truth just if no turn of the thread has failed since the last stop or reset;
- where it does, a start makes a thread when there is none, and a step is refused only while there is one;
- where it does not, nothing is left of the thread, but no start makes a new one and every step is refused. -/
theorem flag_truthful_iff {g : Grammar α (City.Kind α) Unit} {config : Config α} {entropy : Entropy} {m₀ : Manager α}
    (h : create g config entropy = .ok m₀) (moves : List (Move α)) :
    let m := moves.foldl (play g) m₀
    (m.thread = .parked → m.running = true) ∧
    ((m.running = true ↔ m.thread = .parked) ↔ ¬ Perishes g m₀ moves) ∧
    (¬ Perishes g m₀ moves → m.thread ≠ .parked →
      m.launch.running = true ∧ m.launch.thread = .parked ∧ (∀ p, m.start g p = m.launch.wake g p) ∧
        ∀ dt, m.step g dt = tickAndPublish g dt m) ∧
    (Perishes g m₀ moves →
      m.thread = .ended ∧ m.launch = m ∧ (∀ p, m.start g p = m) ∧
        ∀ dt, m.step g dt = .error .stepWhileRunning m) := by
  intro m
  obtain ⟨hr₀, ht₀⟩ := create_idle h
  obtain ⟨hstuck, hhonest⟩ := (flag_after g moves m₀).1 (honest_of_idle hr₀ ht₀)
  refine ⟨fun ht => ?_, ⟨fun hm hp => (hstuck hp).not_honest hm, hhonest⟩, fun hp ht => ?_, fun hp => ?_⟩
  · by_cases hp : Perishes g m₀ moves
    · exact (hstuck hp).1
    · exact (hhonest hp).2 ht
  · have hr : m.running = false := by
      rw [← Bool.not_eq_true]
      exact fun hr => ht ((hhonest hp).1 hr)
    exact ⟨by simp [launch, hr], by simp [launch, hr], start_eq hr, fun dt => if_neg (by simp [hr])⟩
  · obtain ⟨hr, ht⟩ := hstuck hp
    have hstart (p : Pacing α) := start_of_running (g := g) hr p
    exact ⟨ht, (hstart .instant).2, fun p => (hstart p).1, fun dt => if_pos hr⟩

/-! ## A thread that dies -/

/-- a city whose buildings can have no floors, so that no block can be built -/
def barren : Config ℚ :=
  { Config.standard with blocksX := 1, blocksY := 1, maxFloors := 0, emptyLotChance := 0, buildOnStart := false }

/-- the thread is started, a build is asked for, and the thread takes the turn in which it is due -/
def doomed : List (Move ℚ) := [.call (.start .instant), .call (.regenerate ⟨0, none⟩), .call (.wake .instant)]

/-- what the flag of a manager says, and where its thread stands, after some events -/
def flagAfter (g : Grammar ℚ (City.Kind ℚ) Unit) (c : Config ℚ) (moves : List (Move ℚ)) : Option (Bool × ThreadState) :=
  match create g c ⟨fun _ => 0, 0⟩ with
  | .ok m => some ((moves.foldl (play g) m).running, (moves.foldl (play g) m).thread)
  | .error _ => none

theorem flagAfter_eq {g : Grammar ℚ (City.Kind ℚ) Unit} {c : Config ℚ} {m : Manager ℚ}
    (h : create g c ⟨fun _ => 0, 0⟩ = .ok m) (moves : List (Move ℚ)) :
    flagAfter g c moves = some ((moves.foldl (play g) m).running, (moves.foldl (play g) m).thread) := by
  rw [flagAfter, h]

theorem create_of_flagAfter {g : Grammar ℚ (City.Kind ℚ) Unit} {c : Config ℚ} (moves : List (Move ℚ))
    (h : (flagAfter g c moves).isSome = true) : ∃ m, create g c ⟨fun _ => 0, 0⟩ = .ok m := by
  unfold flagAfter at h
  cases hm : create g c ⟨fun _ => 0, 0⟩ with
  | ok m => exact ⟨m, rfl⟩
  | error e => simp [hm] at h

-- a pause of more nanoseconds than can be counted is refused after a tick that was as good as any
example : flagAfter (Catalogue.cityGrammar 10 0) { barren with tickRate := 10000000000 }
    [.call (.start { elapsed := 0, rule := .system 0 })] = some (true, .ended) := by decide +kernel

theorem flagAfter_doomed : flagAfter (Catalogue.cityGrammar 10 0) barren doomed = some (true, .ended) := by decide +kernel

/-- the build fails on the thread, which perishes of it; a stop helps -/
theorem flag_truthful_barren :
    let g := Catalogue.cityGrammar 10 0
    ∃ m₀, create g barren ⟨fun _ => 0, 0⟩ = .ok m₀ ∧ Perishes g m₀ doomed ∧
      (∀ dt, (doomed.foldl (play g) m₀).step g dt = .error .stepWhileRunning (doomed.foldl (play g) m₀)) ∧
      ¬ Perishes g m₀ (doomed ++ [.call .stop]) := by
  intro g
  obtain ⟨m₀, hm⟩ : ∃ m, create g barren ⟨fun _ => 0, 0⟩ = .ok m :=
    create_of_flagAfter doomed (by rw [flagAfter_doomed]; rfl)
  have hdoomed := (flagAfter_eq hm doomed).symm.trans flagAfter_doomed
  simp only [Option.some.injEq, Prod.mk.injEq] at hdoomed
  have hperishes : Perishes g m₀ doomed := by
    by_contra hp
    have hflag := (flag_truthful_iff hm doomed).2.1.2 hp
    rw [hdoomed.1, hdoomed.2] at hflag
    simp at hflag
  refine ⟨m₀, hm, hperishes, ((flag_truthful_iff hm doomed).2.2.2 hperishes).2.2.2, ?_⟩
  refine (flag_truthful_iff hm _).2.1.1 ?_
  rw [List.foldl_append]
  exact ⟨Bool.noConfusion, ThreadState.noConfusion⟩

/-- the flag of the barren city's manager is wrong after that, and a start makes no thread -/
theorem flag_untruthful :
    let g := Catalogue.cityGrammar 10 0
    ∃ m₀, create g barren ⟨fun _ => 0, 0⟩ = .ok m₀ ∧
      ¬ ((doomed.foldl (play g) m₀).running = true ↔ (doomed.foldl (play g) m₀).thread = .parked) ∧
      ∀ p, ((doomed.foldl (play g) m₀).start g p).thread = .ended := by
  intro g
  obtain ⟨m₀, hm⟩ : ∃ m, create g barren ⟨fun _ => 0, 0⟩ = .ok m :=
    create_of_flagAfter doomed (by rw [flagAfter_doomed]; rfl)
  have hdoomed := (flagAfter_eq hm doomed).symm.trans flagAfter_doomed
  simp only [Option.some.injEq, Prod.mk.injEq] at hdoomed
  refine ⟨m₀, hm, fun hflag => ?_, fun p => ?_⟩
  · rw [hdoomed.1, hdoomed.2] at hflag
    simp at hflag
  · rw [(start_of_running hdoomed.1 p).1, hdoomed.2]

end SceneGrammar.Manager

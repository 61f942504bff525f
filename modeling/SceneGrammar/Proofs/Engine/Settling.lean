/-
Ticking until nothing waits.

`m.Settles dt n m'`: after `n` ticks, and not before, nothing is planned in the machine `m`, which then is `m'`. A settling
of a world goes along with it (`FollowsWithLog.settle`): it takes just these ticks, whatever its budget, and warns once
if the budget is spent on the way. `Machine.settles_requests` says how many ticks it takes over the rationals after
requests of one delay: those until the delay has passed, and one at least.
-/
import SceneGrammar.Command.Headless
import SceneGrammar.Proofs.Engine.Reset

namespace SceneGrammar

variable {α : Type} [Scalar α]

/-! ## The machine -/

namespace Machine

/-- ticks go on until nothing is planned -/
inductive Settles (dt : α) : Nat → Machine α → Machine α → Prop where
  | last {m : Machine α} : (m.advance dt).due = none → Settles dt 1 m (m.advance dt)
  | next {m m' : Machine α} {n : Nat} : (m.advance dt).due ≠ none → Settles dt n (m.advance dt) m' → Settles dt (n + 1) m m'

variable {dt : α} {m m' : Machine α} {n : Nat}

theorem Settles.pos (h : Settles dt n m m') : 0 < n := by
  cases h <;> exact Nat.succ_pos _

theorem Settles.tick (h : Settles dt n m m') : m'.tick = m.tick + n := by
  induction h with
  | last _ => exact advance_tick _ _
  | next _ _ ih =>
    rw [ih, advance_tick]
    omega

/-- a machine that goes on from the first tick as another does -/
theorem Settles.of_advance {k : Machine α} (h : Settles dt n m m') (hk : k.advance dt = m.advance dt) :
    Settles dt n k m' := by
  cases h with
  | last hdue => exact hk ▸ .last (hk ▸ hdue)
  | next hdue hrest => exact .next (hk ▸ hdue) (hk ▸ hrest)

/-- a tick when no request waits -/
theorem advance_of_nil {m : Machine α} (h : m.queue = []) (dt : α) :
    m.advance dt = settle { m with tick := m.tick + 1, clock := m.clock + dt } := by
  obtain ⟨tick, clock, seed, due, content, queue⟩ := m
  subst h
  cases due with
  | none => rfl
  | some d => by_cases hdue : d ≤ clock + dt <;> simp only [advance, elapse, List.foldl_nil, settle, hdue, if_true, if_false]

/-- to be asked again for what has just been asked for changes nothing -/
theorem handle_handle (m : Machine α) (r : Request α) : (m.handle r).handle r = m.handle r := by
  cases hseed : r.seed <;> by_cases hzero : (r.delay == Scalar.zero) = true <;> simp [handle, hzero, hseed]

theorem foldl_handle_replicate (m : Machine α) (r : Request α) (n : Nat) :
    (List.replicate (n + 1) r).foldl handle m = m.handle r := by
  induction n generalizing m with
  | zero => rfl
  | succ n ih => rw [List.replicate_succ, List.foldl_cons, ih, handle_handle]

/-! ### Requests of one delay -/

section

variable (seed : Int) (dt delay : ℚ)

/-- the machine some ticks after requests of one delay -/
def waiting (k : Nat) : Machine ℚ :=
  { tick := k, clock := k * dt, seed, queue := []
    due := if delay ≤ k * dt then none else some delay
    content := if delay ≤ k * dt then some seed else none }

theorem waiting_advance (hdt : 0 ≤ dt) (k : Nat) : (waiting seed dt delay k).advance dt = waiting seed dt delay (k + 1) := by
  have hclock : (k : ℚ) * dt + dt = ((k + 1 : Nat) : ℚ) * dt := by push_cast; ring
  have hlater : (k : ℚ) * dt ≤ ((k + 1 : Nat) : ℚ) * dt := by rw [← hclock]; exact le_add_of_nonneg_right hdt
  have hsettle : (waiting seed dt delay k).advance dt =
      settle { waiting seed dt delay k with tick := k + 1, clock := ((k + 1 : Nat) : ℚ) * dt } := by
    rw [advance_of_nil rfl, ← hclock]
    rfl
  rw [hsettle]
  by_cases hnow : delay ≤ k * dt
  · have hthen := hnow.trans hlater
    simp only [waiting, settle, if_pos hnow, if_pos hthen]
  · by_cases hthen : delay ≤ ((k + 1 : Nat) : ℚ) * dt
    · simp only [waiting, settle, if_neg hnow, if_pos hthen]
    · simp only [waiting, settle, if_neg hnow, if_neg hthen]

/-- requests of one delay are served as one -/
theorem waiting_zero (hdelay : 0 ≤ delay) (n : Nat) :
    (List.replicate (n + 1) ⟨delay, none⟩).foldl handle (idle seed) = waiting seed dt delay 0 := by
  have hclock : ((0 : Nat) : ℚ) * dt = 0 := by rw [Nat.cast_zero, zero_mul]
  have hzero : (Scalar.zero : ℚ) = 0 := Int.cast_zero
  rw [foldl_handle_replicate]
  simp only [handle, idle, waiting, hclock, hzero, Option.getD_none]
  by_cases hnow : delay = 0
  · rw [if_pos (beq_iff_eq.2 hnow), if_pos hnow.le, if_pos hnow.le]
  · have hlater : ¬ delay ≤ 0 := fun h => hnow (le_antisymm h hdelay)
    rw [if_neg fun h => hnow (beq_iff_eq.1 h), if_neg hlater, if_neg hlater]
    exact congrArg (fun d => ({ tick := 0, clock := 0, seed, due := some d, content := none, queue := [] } : Machine ℚ))
      (zero_add delay)

/-- the ticks until a delay has passed, and one at least -/
def ticksFor : Nat := max 1 ⌈delay / dt⌉₊

variable {dt} (hdt : 0 < dt)

include hdt

theorem passed_iff {k : Nat} (hk : 0 < k) : delay ≤ k * dt ↔ ticksFor dt delay ≤ k := by
  rw [ticksFor, max_le_iff, Nat.ceil_le, div_le_iff₀ hdt, and_iff_right (Nat.succ_le_of_lt hk)]

/-- nothing is planned any longer as soon as the delay has passed, and not before -/
theorem settles_waiting (n k : Nat) (h : ticksFor dt delay = k + (n + 1)) :
    Settles dt (n + 1) (waiting seed dt delay k) (waiting seed dt delay (ticksFor dt delay)) := by
  have hstep := waiting_advance seed dt delay hdt.le k
  induction n generalizing k with
  | zero =>
    have hdue : (waiting seed dt delay (k + 1)).due = none := if_pos ((passed_iff delay hdt k.succ_pos).2 h.le)
    rw [h, ← hstep]
    exact .last (hstep ▸ hdue)
  | succ n ih =>
    have hlate : ¬ delay ≤ ((k + 1 : Nat) : ℚ) * dt := by
      rw [passed_iff delay hdt k.succ_pos]
      omega
    have hdue : (waiting seed dt delay (k + 1)).due ≠ none := by simp only [waiting, if_neg hlate]; simp
    refine .next (hstep ▸ hdue) ?_
    rw [hstep]
    exact ih (k + 1) (by omega) (waiting_advance seed dt delay hdt.le (k + 1))

/-- **Requests.** After requests of one delay, nothing is planned any longer as soon as the delay has passed, and then the
tree is there. -/
theorem settles_requests (hdelay : 0 ≤ delay) (n : Nat) : ∃ m : Machine ℚ,
    Settles dt (ticksFor dt delay) { idle seed with queue := List.replicate (n + 1) ⟨delay, none⟩ } m ∧
      m.content = some seed := by
  have hpos : 0 < ticksFor dt delay := lt_max_of_lt_left Nat.one_pos
  obtain ⟨k, hk⟩ := Nat.exists_eq_succ_of_ne_zero hpos.ne'
  have hsettles := settles_waiting seed delay hdt k 0 (by omega)
  rw [← Nat.succ_eq_add_one, ← hk] at hsettles
  refine ⟨_, hsettles.of_advance ?_, if_pos ((passed_iff delay hdt hpos).2 le_rfl)⟩
  -- the requests are served before the clock moves
  have hserved := waiting_zero seed dt delay hdelay n
  unfold advance
  exact congrArg (fun m : Machine ℚ => { m.elapse dt with tick := (m.elapse dt).tick + 1 }) hserved

end

/-- without a request, one tick is enough -/
theorem settles_idle (seed : Int) (dt : α) : Settles dt 1 (idle seed) ((idle seed).advance dt) := .last rfl

end Machine

/-! ## Warnings -/

namespace World

section

variable {κ σ : Type} {S : RootData α κ} {recipe : κ → Recipe α κ Unit} {depth : Nat} {m : Machine α} {w : World α κ σ}

/-- what the root shows is not changed by a warning -/
theorem Shows.warn {c : Option Int} (h : Shows S recipe depth w c) (x : Warning) : Shows S recipe depth (w.warn x) c := by
  cases c with
  | none => exact h
  | some seed =>
    obtain ⟨F, P, hroot, hshape, htrunk, hb, hP⟩ := h
    exact ⟨F, P, hroot, hshape, htrunk, hb.frame rfl rfl rfl rfl rfl, hP⟩

theorem Follows.warn {config : Config α} (h : Follows S config recipe depth m w) (x : Warning) :
    Follows S config recipe depth m (w.warn x) :=
  { h with
    tracks :=
      { h.tracks with
        sound := h.tracks.sound.elsewhere
        content := h.tracks.content.warn x } }

end

/-! ## The world -/

variable {S : RootData α (City.Kind α)} {config : Config α} {log : List Warning} {m m' : Machine α}
  {g : Grammar α (City.Kind α) Unit} {w : World α (City.Kind α) Unit}

/-- a world that follows a machine, and in which nothing has been told but a log -/
structure FollowsWithLog (S : RootData α (City.Kind α)) (config : Config α) (depth : Nat) (log : List Warning)
    (m : Machine α) (w : World α (City.Kind α) Unit) : Prop where
  follows : Follows S config City.recipe depth m w
  singleRoot : SingleRoot S (fun _ => True) log w

/-- what is told of a budget that is spent before the last of some ticks -/
def overspent (budget : Int) (tick n : Nat) : List Warning :=
  if tick < budget ∧ budget < tick + n then [.budgetSpent budget 1] else []

theorem overspent_one (budget : Int) (tick : Nat) : overspent budget tick 1 = [] := if_neg (by omega)

/-- requests are queued -/
theorem FollowsWithLog.requests {depth : Nat} (h : FollowsWithLog S config depth log m w) {r : Request α} (hr : r.Fair)
    (n : Nat) :
    ∃ v, ((List.replicate n ()).forM fun _ => (Engine.request r : Prog α (City.Kind α) Unit Unit)).run g w = .ok () v ∧
      FollowsWithLog S config depth log { m with queue := m.queue ++ List.replicate n r } v := by
  induction n generalizing m w with
  | zero => exact ⟨w, rfl, by simpa using h⟩
  | succ n ih =>
    have hkeep := alike_itself.1 (keptByEngine_itself.request (g := g) ⟨rfl, h.singleRoot⟩
      (show r.Meets fun _ => True from fun _ _ => trivial))
    obtain ⟨v, hv, hm⟩ := ih (m := { m with queue := m.queue ++ [r] }) ⟨h.follows.request hr, hkeep⟩
    refine ⟨v, ?_, by simpa [List.replicate_succ] using hm⟩
    exact hv

section

variable [ExactScalar α] (hS : S.Completes g City.recipe) (hrate : ¬ config.tickRate < Scalar.zero)

include hS hrate

/-- a tick, and what the world then says of the machine -/
theorem FollowsWithLog.tick (h : FollowsWithLog S config g.nesting log m w) : ∃ v,
    (Engine.tick none).run g w = .ok (Engine.hasTicksLeft config.maxTicks (m.tick + 1)) v ∧
      FollowsWithLog S config g.nesting log (m.advance config.tickRate) v := by
  obtain ⟨v, hv, hfv⟩ := h.follows.tick hS none hrate
  have hkeep := alike_itself.1 (keptByEngine_itself.tick hS.rule ⟨rfl, h.singleRoot⟩ none)
  rw [Act.after_ok hv] at hkeep
  exact ⟨v, hv, hfv, hkeep⟩

/-- **One round.** A settling ticks, and ends if nothing is planned; else it goes on, with a warning if just now the
budget is spent. -/
theorem FollowsWithLog.round (h : FollowsWithLog S config g.nesting log m w) {budget : Int}
    (hbudget : config.maxTicks = some budget)
    (patience : Nat) : ∃ v, FollowsWithLog S config g.nesting log (m.advance config.tickRate) v ∧
      (Command.settle budget (patience + 1)).run g w =
        match (m.advance config.tickRate).due with
        | none => .ok () v
        | some _ => (Command.settle budget patience).run g
            (if ((m.tick + 1 : Nat) : Int) = budget then v.warn (.budgetSpent budget 1) else v) := by
  obtain ⟨v, hv, hm⟩ := h.tick hS hrate
  obtain ⟨l, hl, -, -, htick, hqueue⟩ := hm.follows.loop
  rw [Machine.advance_tick] at htick
  rw [Machine.advance_queue] at hqueue
  have hpending := hm.follows.tracks.pending_count
  refine ⟨v, hm, ?_⟩
  have hsee : (Prog.see fun w => w.agenda.pendingCount : Prog α (City.Kind α) Unit Nat).run g v =
      .ok v.agenda.pendingCount v := rfl
  rw [Command.settle, Prog.run_bind_ok hv, Prog.run_bind_ok hsee, Prog.run_bind_ok (run_loop hl), hpending, hqueue, htick]
  cases (m.advance config.tickRate).due with
  | none => exact congrArg (Prog.run g · v) (if_pos ⟨rfl, rfl⟩)
  | some d =>
    rw [if_neg fun h => absurd h.1 (by simp), hbudget]
    by_cases hspent : ((m.tick + 1 : Nat) : Int) = budget
    · have hover : (!Engine.hasTicksLeft (some budget) (m.tick + 1)) = true := by simp [Engine.hasTicksLeft, ← hspent]
      simp only [hspent, hover, and_self, if_true]
      rfl
    · simp only [hspent, and_false, if_false]

/-- **A settling.** It ends after as many ticks as the machine takes to settle, whatever the budget is, and warns just if
the budget is spent before the last of them. -/
theorem FollowsWithLog.settle {budget : Int} (hbudget : config.maxTicks = some budget) {n : Nat}
    (hsettles : m.Settles config.tickRate n m') (h : FollowsWithLog S config g.nesting log m w) {patience : Nat}
    (hn : n ≤ patience) :
    ∃ v, (Command.settle budget patience).run g w = .ok () v ∧
      FollowsWithLog S config g.nesting (log ++ overspent budget m.tick n) m' v := by
  induction hsettles generalizing log w patience with
  | @last m hdue =>
    obtain ⟨rest, rfl⟩ : ∃ rest, patience = rest + 1 := ⟨patience - 1, by omega⟩
    obtain ⟨v, hm, hround⟩ := h.round hS hrate hbudget rest
    rw [hdue] at hround
    refine ⟨v, hround, ?_⟩
    rw [overspent_one, List.append_nil]
    exact hm
  | @next m m' n hdue hrest ih =>
    obtain ⟨rest, rfl⟩ : ∃ rest, patience = rest + 1 := ⟨patience - 1, by omega⟩
    obtain ⟨v, hm, hround⟩ := h.round hS hrate hbudget rest
    obtain ⟨d, hd⟩ := Option.ne_none_iff_exists'.1 hdue
    rw [hd] at hround
    have hpos := hrest.pos
    have hleft : n ≤ rest := Nat.le_of_succ_le_succ hn
    by_cases hspent : ((m.tick + 1 : Nat) : Int) = budget
    · -- the budget is spent just now, and not again
      simp only [hspent, if_true] at hround
      obtain ⟨u, hu, hmu⟩ := ih ⟨hm.follows.warn (.budgetSpent budget 1), hm.singleRoot.warn budget 1⟩ hleft
      refine ⟨u, hround.trans hu, ?_⟩
      have hnow : overspent budget m.tick (n + 1) = [.budgetSpent budget 1] := if_pos (by omega)
      have hlater : overspent budget (m.advance config.tickRate).tick n = [] := if_neg (by rw [Machine.advance_tick]; omega)
      rw [hnow]
      rwa [hlater, List.append_nil] at hmu
    · simp only [hspent, if_false] at hround
      obtain ⟨u, hu, hmu⟩ := ih hm hleft
      refine ⟨u, hround.trans hu, ?_⟩
      have hsame : overspent budget m.tick (n + 1) = overspent budget (m.advance config.tickRate).tick n := by
        unfold overspent
        rw [Machine.advance_tick]
        exact if_congr (by omega) rfl rfl
      rwa [hsame]

end

end World

end SceneGrammar

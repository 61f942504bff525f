/-
What an expansion that was put off finds on the list of its shape, and what it leaves there.

The content of a shape is deleted when its expansion is planned, and not again when the expansion comes up in some turn
of an advance (`comesUp`, `turn`), which goes on from there by further turns (`runDue_succ_turns`). `GrowsOrEmpties` says
what becomes of lists between two worlds, whatever is done: what is recorded meanwhile comes behind what was there, or the
list was emptied and holds the end of what is recorded. One move does so (`Move.growsOrEmpties`), and hence all moves.

- `Reached.delayed_pass`: what is on the list when the expansion comes up has come there since it was planned; in the end
  what came during the run is behind it, unless the list was emptied meanwhile.
- `delayed_pass_stale`: a rule that puts off its own expansion and goes on leaves on the list what the next pass keeps.
-/
import SceneGrammar.Proofs.Regeneration

namespace SceneGrammar

namespace World

variable {α κ σ : Type} {w v u : World α κ σ} {s : ShapeId} {n : NodeId} {es fs : List Entry}

/-- what was recorded between two worlds -/
def since (w v : World α κ σ) : List Entry := v.journal.toList.drop w.journal.size

theorem since_eq (h : v.journal.toList = w.journal.toList ++ es) : w.since v = es := by
  rw [since, h, ← Array.length_toList, List.drop_left]

/-! ## Lists, whatever is done -/

/-- how a world goes on, whatever is done -/
structure GrowsOrEmpties (w v : World α κ σ) (es : List Entry) : Prop extends Onward w v es where
  list : ∀ s, v.generatedBy s = w.generatedBy s ++ trackedIn s es ∨ v.generatedBy s <:+ trackedIn s es

theorem GrowsOrEmpties.refl (w : World α κ σ) : GrowsOrEmpties w w [] :=
    ⟨.refl w, fun _ => Or.inl (List.append_nil _).symm⟩

theorem GrowsOrEmpties.trans (h : GrowsOrEmpties w v es) (i : GrowsOrEmpties v u fs) : GrowsOrEmpties w u (es ++ fs) where
  toOnward := h.toOnward.trans i.toOnward
  list s := by
    rw [trackedIn_append]
    rcases i.list s with hi | hi
    · rw [hi]
      rcases h.list s with hh | hh
      · rw [hh, List.append_assoc]
        exact Or.inl rfl
      · obtain ⟨pre, hpre⟩ := hh
        exact Or.inr ⟨pre, by rw [← hpre, List.append_assoc]⟩
    · exact Or.inr (hi.trans (List.suffix_append _ _))

theorem Brings.growsOrEmpties (b : Brings w v es) : GrowsOrEmpties w v es := ⟨b.toOnward, fun s => Or.inl (b.list s)⟩

theorem Ends.growsOrEmpties {t : List ShapeId} (e : Ends w v t) : ∃ es, GrowsOrEmpties w v es := by
  obtain ⟨dead, honward⟩ := e.onward
  refine ⟨_, honward, fun s => ?_⟩
  rw [trackedIn_announced, List.append_nil]
  rcases e.generatedBy s with hs | ⟨hs, -⟩
  · exact Or.inl hs
  · exact Or.inr (hs ▸ List.suffix_refl [])

variable [Scalar α] [SymbolKind κ] {ok : World α κ σ → Op α κ σ → Bool}

/-- **One move.** Whatever is done with known names, lists grow by what is recorded or are emptied. -/
theorem Move.growsOrEmpties (m : Move ok w v) (hok : AsksNames ok) (h : Housed w) : ∃ es, GrowsOrEmpties w v es := by
  rcases m.turns hok h with ⟨es, b⟩ | ⟨o, t, hf, -, rfl⟩
  · exact ⟨es, b.growsOrEmpties⟩
  · exact (performs_ends hf).growsOrEmpties

theorem Moves.growsOrEmpties (m : Moves ok w v) (hok : AsksNames ok) (h : Housed w) : ∃ es, GrowsOrEmpties w v es := by
  induction m with
  | refl => exact ⟨[], .refl w⟩
  | tail hm hmove ih =>
    obtain ⟨es, hes⟩ := ih
    obtain ⟨fs, hfs⟩ := hmove.growsOrEmpties hok (Moves.housed hm hok h)
    exact ⟨es ++ fs, hes.trans hfs⟩

/-! ## One turn of an advance -/

omit [SymbolKind κ] in
/-- the next appointment is due, is that of a living shape, and was not cancelled -/
def comesUp (w : World α κ σ) (s : ShapeId) : Bool :=
  w.agenda.popDue.any fun p => !p.1.cancelled && p.1.shape == s && w.shapeAlive s

omit [SymbolKind κ] in
/-- one turn of the loop in which an advance runs what is due -/
def turn (expand : ShapeId → Act α κ σ Unit) (w : World α κ σ) : World α κ σ := (runDue expand 1 []).after w

section

omit [SymbolKind κ]

variable {expand : ShapeId → Act α κ σ Unit}

theorem after_runDue_zero (done : List ShapeId) (w : World α κ σ) : (runDue expand 0 done).after w = w := by
  cases hp : w.agenda.popDue with
  | none => exact Act.after_ok (runDue_none hp)
  | some p => exact Act.after_error (runDue_zero hp)

/-- a turn is what the loop takes first -/
theorem runDue_turn (passes : Nat) (done : List ShapeId) (w : World α κ σ) :
    (runDue expand (passes + 1) done).after w = turn expand w ∨
      ∃ done', (runDue expand (passes + 1) done).after w = (runDue expand passes done').after (turn expand w) := by
  unfold turn
  cases hp : w.agenda.popDue with
  | none =>
    left
    rw [Act.after_ok (runDue_none hp), Act.after_ok (runDue_none hp)]
  | some p =>
    obtain ⟨e, a⟩ := p
    cases hc : e.cancelled with
    | true =>
      right
      refine ⟨done, ?_⟩
      rw [Act.after_congr (runDue_cancelled hp hc), Act.after_congr (runDue_cancelled hp hc), after_runDue_zero]
    | false =>
      by_cases halive : w.shapeAlive e.shape = true
      · cases hr : runExpansion expand e.shape { w with agenda := a.settle e.node } with
        | error f v =>
          left
          rw [Act.after_error (runDue_failed hp hc halive hr), Act.after_error (runDue_failed hp hc halive hr)]
        | ok _ v =>
          right
          refine ⟨e.shape :: done, ?_⟩
          rw [Act.after_congr (runDue_run hp hc halive hr), Act.after_congr (runDue_run hp hc halive hr),
            after_runDue_zero]
      · right
        refine ⟨done, ?_⟩
        rw [Act.after_congr (runDue_dropped hp hc halive), Act.after_congr (runDue_dropped hp hc halive),
          after_runDue_zero]

/-- an advance is one turn after another -/
theorem runDue_turns (passes : Nat) (done : List ShapeId) (w : World α κ σ) :
    ∃ k ≤ passes, (runDue expand passes done).after w = (turn expand)^[k] w := by
  induction passes generalizing done w with
  | zero => exact ⟨0, le_rfl, after_runDue_zero done w⟩
  | succ passes ih =>
    rcases runDue_turn passes done w with h | ⟨done', h⟩
    · exact ⟨1, Nat.succ_pos passes, h⟩
    · obtain ⟨k, hk, hi⟩ := ih done' (turn expand w)
      exact ⟨k + 1, Nat.succ_le_succ hk, h.trans hi⟩

/-- an advance takes a turn and goes on from there -/
theorem runDue_succ_turns (passes : Nat) (done : List ShapeId) (w : World α κ σ) :
    ∃ k ≤ passes, (runDue expand (passes + 1) done).after w = (turn expand)^[k] (turn expand w) := by
  rcases runDue_turn passes done w with h | ⟨done', h⟩
  · exact ⟨0, Nat.zero_le passes, h⟩
  · obtain ⟨k, hk, hi⟩ := runDue_turns passes done' (turn expand w)
    exact ⟨k, hk, h.trans hi⟩

/-- the turn of an appointment that comes up: it is settled, and the shape is expanded -/
theorem comesUp_cases (h : w.comesUp s = true) : ∃ e a, w.agenda.popDue = some (e, a) ∧ e.cancelled = false ∧
    ∀ expand : ShapeId → Act α κ σ Unit,
      turn expand w = (runExpansion expand s).after (w.rebook (a.settle e.node)) := by
  obtain ⟨⟨e, a⟩, hp, h⟩ := (Option.any_eq_true _ _).1 h
  simp only [Bool.and_eq_true, Bool.not_eq_true', beq_iff_eq] at h
  obtain ⟨⟨hc, rfl⟩, hl⟩ := h
  refine ⟨e, a, hp, hc, fun expand => ?_⟩
  unfold turn rebook
  cases hr : runExpansion expand e.shape { w with agenda := a.settle e.node } with
  | ok _ v => rw [Act.after_congr (runDue_run hp hc hl hr), after_runDue_zero, Act.after_ok hr]
  | error f v => rw [Act.after_error (runDue_failed hp hc hl hr), Act.after_error hr]

end

theorem turn_moves {g : Grammar α κ σ} (hok : Splits ok) (h : w.comesUp s = true) (depth : Nat) :
    Moves ok w (turn ((g.guarded ok).expandWithin depth) w) := by
  obtain ⟨e, a, hp, hc, hturn⟩ := comesUp_cases h
  rw [hturn]
  have hsettle : Moves ok w (w.rebook (a.settle e.node)) := .single (.settle hp hc)
  exact runExpansion_moves <| Grammar.expandWithin_endures (moves_endure hok w g.spare) depth s _ <|
    hsettle.tail (.begins s)

/-- an expansion that is put off: its shape has generated nothing, and its node has an appointment -/
theorem generate_puts_off (h : Housed w) (hn : w.homeOf s = some n) {delay : α} (hd : ¬ delay < Scalar.zero)
    (hlater : (delay == Scalar.zero || !w.live) = false) (expand : ShapeId → Act α κ σ Unit) :
    ∃ u, generate expand s delay w = .ok () u ∧ Housed u ∧ u.nodes.size = w.nodes.size ∧ u.generatedBy s = [] ∧
      u.agenda.isPending n = true ∧ ∀ m ∈ w.generatedBy s, ¬ u.isAlive m = true := by
  have hv := h.vacated hn
  have hplan : schedule s delay (w.vacated s n) =
      .ok () ((w.vacated s n).rebook ((w.vacated s n).agenda.schedule n s delay)) := by
    rw [World.schedule, if_neg hd, nodeOf_eq_ok_iff.2 hv.home]
    rfl
  refine ⟨(w.vacated s n).rebook ((w.vacated s n).agenda.schedule n s delay), ?_, ?_, hv.size, hv.emptied, ?_,
    fun m hm => ?_⟩
  · rw [generate_vacated hn hd, if_neg (by simp [hlater]), hplan]
  · exact Act.after_ok hplan ▸ hv.housed.schedule s delay
  · rw [rebook, Agenda.isPending, Agenda.pending_schedule]
    simp
  · rw [isAlive_rebook]
    exact hv.spent m hm

/-! ## A pass that is put off -/

/-- a pass of `s` is planned between `w` and `u`, comes up in `v`, and is over in `x` -/
structure Delayed (g : Grammar α κ σ) (depth : Nat) (s : ShapeId) (w u v x : World α κ σ) : Prop where
  emptied : u.generatedBy s = []
  planned : ∀ n, w.homeOf s = some n → u.agenda.isPending n = true
  /-- what was on the list when the pass was planned has died, for good -/
  spent : ∀ k ∈ w.generatedBy s, ¬ u.isAlive k = true ∧ ¬ x.isAlive k = true
  /-- what is on the list when the pass comes up has come there since it was planned -/
  meanwhile : v.generatedBy s <:+ trackedIn s (u.since v)
  /-- what comes during the pass is behind it, or the list is emptied meanwhile -/
  ended : x.generatedBy s = v.generatedBy s ++ trackedIn s (v.since x) ∨ x.generatedBy s <:+ trackedIn s (v.since x)
  /-- so it is behind it, if the rules spare the shape -/
  behind : turn ((g.guarded (sparing s)).expandWithin depth) v = x →
    x.generatedBy s = v.generatedBy s ++ trackedIn s (v.since x)
  /-- and it is alone there, if nothing was on the list -/
  alone : v.generatedBy s = [] → x.generatedBy s <:+ trackedIn s (v.since x)

end World

open World

section

variable {α κ σ : Type} [Scalar α] [SymbolKind κ]

/-- **A delayed pass.** A living shape in a live world is to be expanded after a positive delay, in the midst of rules or
not. Then anything may be done with known names, until the expansion comes up in an advance. What was on the list before
has died for good, and the pass adds to what has come there since. The advance takes it from the end of the pass to its own
by turns of the same kind. -/
theorem World.Reached.delayed_pass {w : World α κ σ} (h : Reached World.names w) {s : ShapeId}
    (hs : w.shapeAlive s = true) {delay : α} (hd : ¬ delay < Scalar.zero)
    (hlater : (delay == Scalar.zero || !w.live) = false) (expand : ShapeId → Act α κ σ Unit) {v : World α κ σ}
    (m : Moves World.names ((generate expand s delay).after w) v) (hup : v.comesUp s = true) (g : Grammar α κ σ)
    (depth : Nat) (hg : turn ((g.guarded World.names).expandWithin depth) v = turn (g.expandWithin depth) v) :
    Delayed g depth s w ((generate expand s delay).after w) v (turn (g.expandWithin depth) v) ∧
      ∀ passes done, ∃ k ≤ passes, (runDue (g.expandWithin depth) (passes + 1) done).after v =
        (turn (g.expandWithin depth))^[k] (turn (g.expandWithin depth) v) := by
  refine ⟨?_, fun passes done => runDue_succ_turns passes done v⟩
  have hw := h.housed fun _ _ => id
  obtain ⟨n, hn, -⟩ := shapeAlive_iff.1 hs
  obtain ⟨u, hgen, hu, hsize, hnil, hpending, hdead⟩ := generate_puts_off hw hn hd hlater expand
  rw [Act.after_ok hgen] at m ⊢
  have mx : Moves World.names v (turn (g.expandWithin depth) v) := hg ▸ turn_moves (g := g) splits_names hup depth
  have hv : Housed v := m.housed (fun _ _ => id) hu
  obtain ⟨es, hes⟩ := m.growsOrEmpties (fun _ _ => id) hu
  obtain ⟨fs, hfs⟩ := mx.growsOrEmpties (fun _ _ => id) hv
  have hmeanwhile := hes.list s
  have hended := hfs.list s
  rw [hnil, List.nil_append] at hmeanwhile
  exact {
    emptied := hnil
    planned := fun k hk => by
      obtain rfl : n = k := Option.some.inj (hn.symm.trans hk)
      exact hpending
    spent := fun k hk =>
      ⟨hdead k hk, fun hl => hdead k hk ((hes.trans hfs).gone k ((hw.listed s k hk).trans hsize.ge) hl)⟩
    meanwhile := by
      rw [since_eq hes.journal]
      exact hmeanwhile.elim (fun hl => hl ▸ List.suffix_refl _) id
    ended := by rwa [since_eq hfs.journal]
    behind := fun hspares => by
      have ms : Moves (sparing s) v (turn (g.expandWithin depth) v) := hspares ▸ turn_moves splits_sparing hup depth
      obtain ⟨gs, hgs⟩ := ms.enlarges hv
      rw [since_eq hgs.journal]
      exact hgs.list
    alone := fun hempty => by
      rw [hempty, List.nil_append] at hended
      rw [since_eq hfs.journal]
      exact hended.elim (fun hl => hl ▸ List.suffix_refl _) id }

end

/-- a building puts up a fence and a gate; before that, a new one asks for its next expansion between the two -/
def restless : Grammar ℚ (City.Kind ℚ) Unit :=
  let put (self : ShapeId) (id : String) : Op ℚ (City.Kind ℚ) Unit :=
    .spawn self (.inline (.plain id "")) none (.displaced .origin)
  { rule := fun kind self => match kind with
      | .building 0 => .perform (put self "fence") fun _ => .perform (put self "gate") fun _ => .done ()
      | .building _ =>
        .perform (.setKind self (.building 0)) fun _ => .perform (put self "fence") fun _ =>
          .perform (.generate self 1) fun _ => .perform (put self "gate") fun _ => .done ()
      | _ => .done ()
    nesting := 3, spare := 0 }

theorem restless_passes (kind : City.Kind ℚ) (self : ShapeId) : (restless.rule kind self).Passes World.names := by
  unfold restless
  dsimp only
  split <;> simp [World.names, World.knows]

/-- a building in a live world -/
def home (kind : City.Kind ℚ) : Prog ℚ (City.Kind ℚ) Unit ShapeId :=
  .perform (.createRoot (.of kind) "home" none (.displaced .origin) none) fun self =>
    .perform (.setLive true) fun _ => .done self

theorem home_passes (kind : City.Kind ℚ) : (home kind).Passes World.names := by
  simp [home, World.names, World.knows]

/-- a sign is put up while the expansion is put off; it stays on the list, before the fence and the gate -/
theorem delayed_pass_home :
    let w := ((home (.building 0)).run restless).after (.fresh ⟨fun _ => 0, 0⟩ ())
    let u := (generate (restless.expandWithin 3) 0 1).after w
    let v := ((spawn 0 (.inline (.plain "sign" "")) none (.displaced .origin)).after u).rebook (u.agenda.tick 1)
    let x := turn (restless.expandWithin 3) v
    v.generatedBy 0 = [2] ∧ trackedIn 0 (v.since x) = [3, 4] ∧ Delayed restless 3 0 w u v x ∧
      ∃ k ≤ 1, (runDue (restless.expandWithin 3) 2 []).after v = (turn (restless.expandWithin 3))^[k] x := by
  intro w u v x
  have heeds := (home_passes (.building 0)).heedsBy restless_passes
  have h : Reached World.names w := (Reached.start (pristine_fresh _ _)).run splits_names (heeds _)
  have hspawn : Moves World.names u ((spawn 0 (.inline (.plain "sign" "")) none (.displaced .origin)).after u) :=
    .single (.plain (.spawn 0 (.inline (.plain "sign" "")) none (.displaced .origin)) rfl rfl)
  have m : Moves World.names u v := hspawn.tail (.tick 1)
  have hpass := h.delayed_pass (by decide +kernel) (by decide +kernel) (by decide +kernel) _ m (by decide +kernel) restless 3
    (by rw [Grammar.expandWithin_guarded restless_passes])
  exact ⟨by decide +kernel, by decide +kernel, hpass.1, hpass.2 1 []⟩

/-- **Stale content.** The building's own rule has put off its next expansion and gone on. The gate that it put up then is
still on the list when the next pass has ended, before what came during this one. -/
theorem delayed_pass_stale :
    let w := ((home (.building 1) >>= fun self => Prog.act (.generate self 0)).run restless).after (.fresh ⟨fun _ => 0, 0⟩ ())
    let v := w.rebook (w.agenda.tick 1)
    let x := turn (restless.expandWithin 3) v
    Reached World.names v ∧ v.live = true ∧ v.shapeAlive 0 = true ∧ v.comesUp 0 = true ∧
      v.generatedBy 0 = [3] ∧ trackedIn 0 (v.since x) = [4, 5] ∧ x.generatedBy 0 = [3, 4, 5] ∧
      ((advance (restless.expandWithin 3) 0 1).after w).generatedBy 0 = [3, 4, 5] ∧
      ¬ ∀ k ∈ x.generatedBy 0, k ∈ trackedIn 0 (v.since x) := by
  intro w v x
  have hp : (home (.building 1) >>= fun self => Prog.act (.generate self 0)).Passes World.names :=
    (home_passes _).bind fun self => by simp [Prog.act, World.names]
  have h : Reached World.names w :=
    (Reached.start (pristine_fresh _ _)).run splits_names (hp.heedsBy restless_passes _)
  exact ⟨h.moves (.single (.tick 1)), by decide +kernel, by decide +kernel, by decide +kernel, by decide +kernel,
    by decide +kernel, by decide +kernel, by decide +kernel, by decide +kernel⟩

end SceneGrammar

/-
An expansion that is asked for at once replaces what a shape has generated.

What every expansion starts from is a world without the shape's content and without its appointment (`vacated`). From
there on the rule of the shape runs, and others inside it; `sparing s` is the test that none of their operations
regenerates, deletes or destroys `s` or anything on its list. What one move within that test does to the list is to
enlarge it (`Move.enlarges`), and so does all that happens until the rule ends or fails, or one inside it does
(`Moves.enlarges`).

- `Reached.generate_renews`: whether it returns or fails, a regeneration leaves the shape expanded and without an
  appointment, all that was on its list dead, and on the list just what came on it meanwhile, in this order, all that it
  made among it new and alive.
-/
import SceneGrammar.Proofs.Exact
import SceneGrammar.Proofs.Housed

namespace SceneGrammar

namespace World

variable {α κ σ : Type} {w v u : World α κ σ} {s : ShapeId} {n : NodeId} {es fs : List Entry}

/-- the world without what a shape has generated and without the appointment of its node -/
def vacated (w : World α κ σ) (s : ShapeId) (n : NodeId) : World α κ σ :=
  (w.cleanWithin w.teardownBound s).rebook ((w.cleanWithin w.teardownBound s).agenda.cancel n).2

/-- nothing dies of a shape's node and what is on its list -/
def spares (s : ShapeId) (w v : World α κ σ) : Bool :=
  ((w.homeOf s).toList ++ w.generatedBy s).all fun m => !w.isAlive m || v.isAlive m

theorem spares_iff : spares s w v = true ↔
    (∀ m, w.homeOf s = some m → w.isAlive m = true → v.isAlive m = true) ∧
      ∀ m ∈ w.generatedBy s, w.isAlive m = true → v.isAlive m = true := by
  simp [spares, imp_iff_not_or]

variable [Scalar α] [SymbolKind κ]

/-- operations that neither regenerate, delete nor destroy a shape or what is on its list -/
def sparing (s : ShapeId) (w : World α κ σ) (o : Op α κ σ) : Bool :=
  w.names o && match o with
    | .destroy _ | .clearScene | .clear => spares s w ((does o).after w)
    | .deleteGenerated t | .generate t _ => t != s && spares s w ((deleteGenerated t).after w)
    | .schedule t _ => t != s
    | _ => true

theorem asksNames_sparing : AsksNames (sparing s : World α κ σ → Op α κ σ → Bool) := by
  intro w o h
  exact (Bool.and_eq_true_iff.1 h).1

theorem splits_sparing : Splits (sparing s : World α κ σ → Op α κ σ → Bool) where
  delete w t delay h := h
  cancel _ _ _ _ _ _ := rfl
  schedule w t delay h v := by
    simp only [sparing, Bool.and_eq_true] at h
    simpa [sparing, names] using h.2.1

theorem sparing_emptied? {o : Op α κ σ} {t : List ShapeId} (ho : sparing s w o = true) (hf : o.emptied? = some t) :
    s ∉ t ∧ spares s w ((does o).after w) = true := by
  simp only [sparing, Bool.and_eq_true] at ho
  cases o with
  | destroy | clearScene | clear =>
    obtain rfl : [] = t := Option.some.inj hf
    exact ⟨List.not_mem_nil, ho.2⟩
  | deleteGenerated r =>
    obtain rfl : [r] = t := Option.some.inj hf
    simp only [bne_iff_ne, Bool.and_eq_true] at ho
    exact ⟨by simpa using Ne.symm ho.2.1, ho.2.2⟩
  | _ => cases hf

/-! ## The start -/

/-- what an expansion of `s`, whose node is `n`, starts from -/
structure Vacated (w v : World α κ σ) (s : ShapeId) (n : NodeId) : Prop where
  housed : Housed v
  journal : ∃ dead : List NodeId, v.journal.toList = w.journal.toList ++ dead.map .announced
  size : v.nodes.size = w.nodes.size
  home : v.homeOf s = some n
  idle : v.agenda.isPending n = false
  emptied : v.generatedBy s = []
  spent : ∀ m ∈ w.generatedBy s, ¬ v.isAlive m = true

omit [Scalar α] [SymbolKind κ] in
theorem isPending_eq_false {a : Agenda α} : a.isPending n = false ↔ ∀ p ∈ a.pending, p.1 ≠ n := by
  simp [Agenda.isPending]

theorem Housed.vacated (h : Housed w) (hn : w.homeOf s = some n) : Vacated w (w.vacated s n) s n := by
  have hdelete : (does (.deleteGenerated s)).after w = w.cleanWithin w.teardownBound s := Act.after_ok (deleteGenerated_eq hn)
  have e : Ends w (w.cleanWithin w.teardownBound s) [s] := hdelete ▸ performs_ends (o := .deleteGenerated s) rfl
  have hclean : Move World.names w (w.cleanWithin w.teardownBound s) := hdelete ▸ .plain (.deleteGenerated s) rfl rfl
  have hcancel : Move World.names (w.cleanWithin w.teardownBound s) (w.vacated s n) := .plain (.cancel n) rfl rfl
  obtain ⟨hdead, hnil, -⟩ := clean_spends w s
  refine ⟨?_, e.journal, e.sizes.1, (e.homeOf s).trans hn, ?_, hnil, fun m hm => ?_⟩
  · exact hcancel.housed (fun _ _ => id) (hclean.housed (fun _ _ => id) h)
  · refine isPending_eq_false.2 fun p hp => ?_
    rw [World.vacated, rebook, Agenda.pending_cancel, List.mem_filter] at hp
    simpa using hp.2
  · rw [World.vacated, isAlive_rebook]
    exact hdead m hm

omit [Scalar α] [SymbolKind κ] in
theorem live_vacated (w : World α κ σ) (s : ShapeId) (n : NodeId) : (w.vacated s n).live = w.live := by
  obtain ⟨dead, h⟩ := (onlyCancels_within w.teardownBound).2 w s
  exact congrArg Surroundings.live h.surroundings

/-- asked for with a delay that is no less than zero, an expansion starts from there, now or later -/
theorem generate_vacated {expand : ShapeId → Act α κ σ Unit} (hn : w.homeOf s = some n) {delay : α}
    (hd : ¬ delay < Scalar.zero) : generate expand s delay w =
      if delay == Scalar.zero || !w.live then runExpansion expand s (w.vacated s n)
      else schedule s delay (w.vacated s n) := by
  have hhome : (w.cleanWithin w.teardownBound s).homeOf s = some n :=
    (((onlyLoses_within w.teardownBound).2 w s).homeOf s).trans hn
  unfold generate
  simp only [if_neg hd, deleteGenerated_eq hn, nodeOf_eq_ok_iff.2 hhome]
  rw [← live_vacated w s n]
  rfl

/-! ## The run -/

/-- nothing dies of what is on the list of `s`, and what is recorded comes behind it; what is made is new, alive, and on
the list of its maker -/
structure Enlarges (s : ShapeId) (w v : World α κ σ) (es : List Entry) : Prop extends Onward w v es where
  homes : ∀ t m, w.homeOf t = some m → v.homeOf t = some m
  list : v.generatedBy s = w.generatedBy s ++ trackedIn s es
  kept : ∀ m ∈ w.generatedBy s, w.isAlive m = true → v.isAlive m = true
  expanded : w.stateOf s = some .expanded → v.stateOf s = some .expanded
  made : ∀ first count, .made s first count ∈ es →
    .tracked s first ∈ es ∧ v.isAlive first = true ∧ w.nodes.size < first

section

omit [Scalar α] [SymbolKind κ]

theorem Brings.enlarges (b : Brings w v es) (s : ShapeId) : Enlarges s w v es :=
  ⟨b.toOnward, b.homes, b.list s, fun m _ => b.alive m, b.expanded s, b.made s⟩

theorem Enlarges.refl (s : ShapeId) (w : World α κ σ) : Enlarges s w w [] := (Brings.refl w).enlarges s

theorem Enlarges.trans (h : Enlarges s w v es) (i : Enlarges s v u fs) : Enlarges s w u (es ++ fs) where
  toOnward := h.toOnward.trans i.toOnward
  homes t m hm := i.homes t m (h.homes t m hm)
  list := by rw [i.list, h.list, trackedIn_append, List.append_assoc]
  kept m hm hl := i.kept m (h.list ▸ List.mem_append_left _ hm) (h.kept m hm hl)
  expanded hs := i.expanded (h.expanded hs)
  made first count hm := by
    rcases List.mem_append.1 hm with hm | hm
    · obtain ⟨ht, hl, hlt⟩ := h.made first count hm
      refine ⟨List.mem_append_left _ ht, i.kept first ?_ hl, hlt⟩
      rw [h.list]
      exact List.mem_append_right _ ((mem_trackedIn s es).2 ht)
    · obtain ⟨ht, hl, hlt⟩ := i.made first count hm
      exact ⟨List.mem_append_right _ ht, hl, h.size.trans_lt hlt⟩

/-- a teardown that spares a shape leaves its list and its state alone -/
theorem Ends.enlarges {t : List ShapeId} (h : Housed w) (e : Ends w v t) (ht : s ∉ t) (hs : spares s w v = true) :
    ∃ es, Enlarges s w v es := by
  have hshape : v.shape? s = w.shape? s := by
    rcases e.shape s with hsame | ⟨-, hc | ⟨m, hm, hl, hd⟩⟩
    · exact hsame
    · exact absurd hc ht
    · exact absurd ((spares_iff.1 hs).1 m ((h.home_iff s m).2 hm) hl) hd
  obtain ⟨dead, honward⟩ := e.onward
  exact ⟨dead.map .announced, {
    toOnward := honward
    homes := fun t m hm => (e.homeOf t).trans hm
    list := by rw [generatedBy, hshape, trackedIn_announced, List.append_nil, generatedBy]
    kept := (spares_iff.1 hs).2
    expanded := fun hx => by rwa [stateOf, hshape]
    made := by simp }⟩

end

/-- **One move.** What spares the shape enlarges its list. -/
theorem Move.enlarges (m : Move (sparing s) w v) (h : Housed w) : ∃ es, Enlarges s w v es := by
  rcases m.turns asksNames_sparing h with ⟨es, b⟩ | ⟨o, t, hf, ho, rfl⟩
  · exact ⟨es, b.enlarges s⟩
  · obtain ⟨hnot, hspares⟩ := sparing_emptied? ho hf
    exact (performs_ends hf).enlarges h hnot hspares

/-- **One rule.** And so does all that a rule does, and those inside it, wherever it ends. -/
theorem Moves.enlarges (m : Moves (sparing s) w v) (h : Housed w) : ∃ es, Enlarges s w v es := by
  induction m with
  | refl => exact ⟨[], .refl s w⟩
  | tail hm hmove ih =>
    obtain ⟨es, hes⟩ := ih
    obtain ⟨fs, hfs⟩ := hmove.enlarges (Moves.housed hm asksNames_sparing h)
    exact ⟨es ++ fs, hes.trans hfs⟩

/-- where nobody plans for a node, it stays without appointments -/
theorem Move.idle (m : Move (sparing s) w v) (h : Housed w) (hn : w.homeOf s = some n)
    (hi : w.agenda.isPending n = false) : v.agenda.isPending n = false := by
  rw [isPending_eq_false] at hi ⊢
  rcases m.onlyDrops h.agenda_sound with t | ⟨r, delay, hp, rfl⟩
  · exact fun p hp => hi p (t.pending p hp)
  rcases schedule_cases w r delay with hs | ⟨k, hk, hs⟩ <;> rw [hs]
  · exact hi
  intro p hpp
  rcases List.mem_cons.1 (Agenda.pending_schedule w.agenda k r delay ▸ hpp) with rfl | hpp
  · rintro rfl
    have hrs : r ≠ s := by simpa [sparing, names] using hp
    exact hrs (Option.some.inj (((h.home_iff r k).1 hk).symm.trans ((h.home_iff s k).1 hn)))
  · exact hi p (List.mem_filter.1 hpp).1

theorem Moves.idle (m : Moves (sparing s) w v) (h : Housed w) (hn : w.homeOf s = some n)
    (hi : w.agenda.isPending n = false) : v.agenda.isPending n = false := by
  induction m with
  | refl => exact hi
  | tail hm hmove ih =>
    obtain ⟨es, hes⟩ := Moves.enlarges hm h
    exact hmove.idle (Moves.housed hm asksNames_sparing h) (hes.homes s n hn) ih

/-! ## The end -/

/-- what `s` had generated is replaced: `es` is what was recorded meanwhile -/
structure Renewed (w v : World α κ σ) (s : ShapeId) (es : List Entry) : Prop where
  journal : v.journal.toList = w.journal.toList ++ es
  home : ∀ n, w.homeOf s = some n → v.homeOf s = some n ∧ v.agenda.isPending n = false
  unplanned : ∀ e ∈ v.agenda.heap, e.cancelled = false → e.shape ≠ s
  expanded : v.stateOf s = some .expanded
  spent : ∀ m ∈ w.generatedBy s, ¬ v.isAlive m = true
  list : v.generatedBy s = trackedIn s es
  made : ∀ first count, .made s first count ∈ es →
    first ∈ v.generatedBy s ∧ v.isAlive first = true ∧ w.nodes.size < first

omit [Scalar α] [SymbolKind κ] in
/-- where a node is idle, nothing is planned for its shape -/
theorem Housed.unplanned (h : Housed w) (hn : w.homeOf s = some n) (hi : w.agenda.isPending n = false) :
    ∀ e ∈ w.agenda.heap, e.cancelled = false → e.shape ≠ s := by
  rintro a ha hc rfl
  have hnode : a.node = n := Option.some.inj ((h.planned a ha hc).symm.trans hn)
  exact isPending_eq_false.1 hi _ ((h.agenda_sound.live a ha).1 hc) hnode

omit [Scalar α] [SymbolKind κ] in
theorem stateOf_markExpanded (hn : w.homeOf s = some n) : (w.markExpanded s).stateOf s = some .expanded := by
  obtain ⟨x, hx, -⟩ := Option.bind_eq_some_iff.1 hn
  have hmod := shape?_modifyShape w s s fun x => { x with state := .expanded }
  rw [if_pos rfl, hx] at hmod
  exact congrArg (Option.map (·.state)) hmod

/-- a rule that spares the shape, from where every expansion starts -/
theorem Vacated.renews (h : Housed w) (hn : w.homeOf s = some n) (hv : Vacated w u s n)
    (m : Moves (sparing s) (u.markExpanded s) v) : ∃ es, Renewed w v s es := by
  have hbegins : Housed (u.markExpanded s) := (Move.begins s).housed (asksNames_sparing (s := s)) hv.housed
  have b := (brings_markExpanded u s).enlarges s
  obtain ⟨fs, e⟩ := m.enlarges hbegins
  have all := b.trans e
  obtain ⟨dead, hdead⟩ := hv.journal
  have hhoused : Housed v := m.housed asksNames_sparing hbegins
  have hhome : v.homeOf s = some n := all.homes s n hv.home
  have hidle : v.agenda.isPending n = false := m.idle hbegins (b.homes s n hv.home) hv.idle
  have hlist : v.generatedBy s = trackedIn s ([.began s] ++ fs) := by rw [all.list, hv.emptied, List.nil_append]
  exact ⟨dead.map .announced ++ ([.began s] ++ fs), {
    journal := by rw [all.journal, hdead, List.append_assoc]
    home := fun k hk => by
      obtain rfl : n = k := Option.some.inj (hn.symm.trans hk)
      exact ⟨hhome, hidle⟩
    unplanned := hhoused.unplanned hhome hidle
    expanded := e.expanded (stateOf_markExpanded hv.home)
    spent := fun k hk hl => hv.spent k hk (all.gone k ((h.listed s k hk).trans hv.size.ge) hl)
    list := by rw [hlist, trackedIn_append _ (dead.map _), trackedIn_announced, List.nil_append]
    made := fun first count hmade => by
      obtain ⟨ht, hl, hlt⟩ := all.made first count (by simpa using hmade)
      exact ⟨hlist ▸ (mem_trackedIn s _).2 ht, hl, hv.size ▸ hlt⟩ }⟩

end World

open World

section

variable {α κ σ : Type} [Scalar α] [SymbolKind κ]

/-- **Regeneration.** In any world reached with known names, in the midst of rules or not, an expansion of a living shape
that is asked for at once, by rules none of whose operations regenerates, deletes or destroys the shape or what is on its
list, replaces what it had generated, whether it returns or fails. -/
theorem World.Reached.generate_renews {w : World α κ σ} (h : Reached World.names w) {s : ShapeId}
    (hs : w.shapeAlive s = true) {delay : α} (hd : ¬ delay < Scalar.zero)
    (hnow : (delay == Scalar.zero || !w.live) = true) (g : Grammar α κ σ) (depth : Nat)
    (hg : generate ((g.guarded (sparing s)).expandWithin depth) s delay w = generate (g.expandWithin depth) s delay w) :
    ∃ es, Renewed w ((generate (g.expandWithin depth) s delay).after w) s es := by
  obtain ⟨n, hn, -⟩ := shapeAlive_iff.1 hs
  have hhoused := h.housed fun _ _ => id
  have hv := hhoused.vacated hn
  have hrun : Moves (sparing s) ((w.vacated s n).markExpanded s)
      ((runExpansion ((g.guarded (sparing s)).expandWithin depth) s).after (w.vacated s n)) :=
    runExpansion_moves (Grammar.expandWithin_endures (moves_endure splits_sparing _ g.spare) depth s _ .refl)
  have hafter : (generate (g.expandWithin depth) s delay).after w =
      (runExpansion ((g.guarded (sparing s)).expandWithin depth) s).after (w.vacated s n) := by
    unfold Act.after
    rw [← hg, generate_vacated hn hd, if_pos hnow]
  rw [hafter]
  exact hv.renews hhoused hn hrun

end

/-- a building makes a post and a stack; a stack makes a roof and fails -/
def thwarted : Grammar ℚ (City.Kind ℚ) Unit :=
  { rule := fun kind self => match kind with
      | .building _ =>
        .perform (.spawn self (.inline (.plain "post" "")) none (.displaced .origin)) fun _ =>
          .perform (.createSymbol self (.of (.stack 1 true)) "child" none (.displaced .origin)) fun _ => .done ()
      | .stack _ _ =>
        .perform (.createSymbol self (.of .roof) "grandchild" none (.displaced .origin)) fun _ => .fail .noChoice
      | _ => .done ()
    nesting := 3, spare := 0 }

/-- a building with a sign on its list, and an appointment -/
def appointed : Prog ℚ (City.Kind ℚ) Unit Unit :=
  .perform (.createRoot (.of (.building 1)) "home" none (.displaced .origin) none) fun home =>
    .perform (.spawn home (.inline (.plain "sign" "")) none (.displaced .origin)) fun _ =>
      .perform (.schedule home 1) fun _ => .done ()

/-- such rules pass a test that lets everybody make terminals and symbols under their own nodes -/
theorem thwarted_passes {ok : World ℚ (City.Kind ℚ) Unit → Op ℚ (City.Kind ℚ) Unit → Bool}
    (hspawn : ∀ w s t pose, ok w (.spawn s t none pose) = true)
    (hsymbol : ∀ w s offer name pose, ok w (.createSymbol s offer name none pose) = true) (kind : City.Kind ℚ)
    (self : ShapeId) : (thwarted.rule kind self).Passes ok := by
  cases kind <;> simp [thwarted, hspawn, hsymbol]

/-- the rule fails behind its child's; the child is on the list, and the sign is not -/
theorem generate_renews_thwarted :
    let w := (appointed.run thwarted).after (.fresh ⟨fun _ => 0, 0⟩ ())
    let v := (generate (thwarted.expandWithin 3) 0 0).after w
    w.generatedBy 0 = [2] ∧ w.agenda.isPending 1 = true ∧ v.generatedBy 0 = [3, 4] ∧ v.generatedBy 1 = [5] ∧
      v.liveNodes = [1, 3, 4, 5] ∧ ∃ es, Renewed w v 0 es := by
  intro w v
  have hp : appointed.Passes World.names := by simp [appointed, World.names, World.knows]
  have heeds := hp.heedsBy (thwarted_passes (fun _ _ _ _ => rfl) fun _ _ _ _ _ => rfl) (.fresh ⟨fun _ => 0, 0⟩ ())
  have h := (Reached.start (pristine_fresh _ _)).run splits_names heeds
  refine ⟨by decide +kernel, by decide +kernel, by decide +kernel, by decide +kernel, by decide +kernel, ?_⟩
  exact h.generate_renews (by decide +kernel) (by decide +kernel) (by decide +kernel) thwarted 3 <| by
    rw [Grammar.expandWithin_guarded (thwarted_passes (fun _ _ _ _ => rfl) fun _ _ _ _ _ => rfl)]

end SceneGrammar
